import SimpleP2P.Resource

namespace SimpleP2P
open Library

/-- The command `add`. The argument is `file_size`, which is `none` where it sets an error code. -/
def CLI.add (fileSize : Bytes → Option UInt64) (nameOfFile : Bytes) : Option Resource :=
  (fileSize nameOfFile).map fun size => { size, name := nameOfFile, path := nameOfFile }

namespace Resource

inductive Enters (fileSize : Bytes → Option UInt64) : Resource → Prop
  | added {nameOfFile : Bytes} {r : Resource} : CLI.add fileSize nameOfFile = some r →
      Enters fileSize r
  | received (resourceHeader : Bytes) : Enters fileSize (ofHeader resourceHeader)

def HeaderFaithful (r : Resource) : Prop :=
  ∃ header, r.generateResourceHeader = .ok header ∧ header.length = resourceHeaderSize ∧
    (ofHeader header).sameAs r = true

structure ToldApart (r other : Resource) : Prop where
  own : r.HeaderFaithful
  others : other.HeaderFaithful
  distinct : r.generateResourceHeader = other.generateResourceHeader → r.sameAs other = true

def clearAfterNul : Bytes → Bytes
  | [] => []
  | b :: rest => if b = 0 then 0 :: List.replicate rest.length 0 else b :: clearAfterNul rest

def canonicalHeader (header : Bytes) : Bytes :=
  clearAfterNul (header.take fileNameLength) ++ (header.drop fileNameLength).take fileSizeLength

variable {r other : Resource} {header : Bytes}

theorem not_mem_takeWhile_ne_zero (field : Bytes) : 0 ∉ field.takeWhile (· ≠ 0) := by
  intro member
  have nonzero := List.all_eq_true.mp (List.all_takeWhile (p := (· ≠ 0)) (l := field)) 0 member
  simp at nonzero

theorem clearAfterNul_eq (field : Bytes) : clearAfterNul field =
    field.takeWhile (· ≠ 0) ++ List.replicate (field.length - (field.takeWhile (· ≠ 0)).length) 0 := by
  induction field with
  | nil => rfl
  | cons b rest ih =>
      by_cases nul : b = 0
      · simp [clearAfterNul, nul, List.replicate_succ]
      · simp [clearAfterNul, nul, ih]

theorem wellNamed_ofHeader (header : Bytes) : (ofHeader header).WellNamed := by
  unfold ofHeader
  split
  · refine ⟨?_, not_mem_takeWhile_ne_zero _⟩
    calc ((header.take fileNameLength).takeWhile (· ≠ 0)).length
        ≤ (header.take fileNameLength).length := (List.takeWhile_sublist _).length_le
      _ ≤ fileNameLength := List.length_take_le _ _
  · exact ⟨Nat.zero_le _, List.not_mem_nil⟩

/-! ## Encoding what was decoded -/

theorem ofHeader_header (long : resourceHeaderSize ≤ header.length) :
    (ofHeader header).generateResourceHeader = .ok (canonicalHeader header) := by
  have sizeField : ((header.drop fileNameLength).take fileSizeLength).length = fileSizeLength := by
    simp only [resourceHeaderSize] at long
    simp only [List.length_take, List.length_drop, fileNameLength, fileSizeLength]
    omega
  have nameField : (header.take fileNameLength).length = fileNameLength := by
    simp only [resourceHeaderSize] at long
    simp only [List.length_take, fileNameLength]
    omega
  have bound := BigEndian.valueOf_lt ((header.drop fileNameLength).take fileSizeLength)
  have size : BigEndian.bytesOf fileSizeLength (UInt64.ofNat (BigEndian.valueOf
      ((header.drop fileNameLength).take fileSizeLength))).toNat =
      (header.drop fileNameLength).take fileSizeLength := by
    have width : 256 ^ fileSizeLength = 2 ^ 64 := rfl
    rw [sizeField, width] at bound
    rw [UInt64.toNat_ofNat', Nat.mod_eq_of_lt bound]
    calc BigEndian.bytesOf fileSizeLength _
        = BigEndian.bytesOf ((header.drop fileNameLength).take fileSizeLength).length _ := by
          rw [sizeField]
      _ = _ := BigEndian.bytesOf_valueOf _
  rw [(wellNamed_ofHeader header).header, ofHeader, if_pos long, canonicalHeader, clearAfterNul_eq,
    nameField, size]

theorem ofHeader_canonicalHeader (long : resourceHeaderSize ≤ header.length) :
    (ofHeader (canonicalHeader header)).sameAs (ofHeader header) = true := by
  obtain ⟨-, same⟩ := (wellNamed_ofHeader header).decode (ofHeader_header long)
  simp [same]

structure HeadersInvert : Prop where
  decode : ∀ r : Resource, 0 ∉ r.name → r.name.length ≤ fileNameLength →
    ∃ header, r.generateResourceHeader = .ok header ∧
      (ofHeader header).name = r.name ∧ (ofHeader header).size = r.size
  encode : ∀ header : Bytes, resourceHeaderSize ≤ header.length →
    (ofHeader header).generateResourceHeader = .ok (canonicalHeader header)
  same : ∀ header header' : Bytes, resourceHeaderSize ≤ header.length →
    resourceHeaderSize ≤ header'.length →
    ((ofHeader header).sameAs (ofHeader header') = true ↔
      canonicalHeader header = canonicalHeader header')

theorem sameAs_ofHeader_iff {header' : Bytes} (long : resourceHeaderSize ≤ header.length)
    (long' : resourceHeaderSize ≤ header'.length) :
    (ofHeader header).sameAs (ofHeader header') = true ↔
      canonicalHeader header = canonicalHeader header' := by
  constructor
  · intro same
    obtain ⟨size, name⟩ := sameAs_iff.mp same
    have encoded : (ofHeader header).generateResourceHeader =
        (ofHeader header').generateResourceHeader := by
      rw [generateResourceHeader_eq, generateResourceHeader_eq, size, name]
    rw [ofHeader_header long, ofHeader_header long'] at encoded
    exact Except.ok.inj encoded
  · intro same
    obtain ⟨size, name⟩ := sameAs_iff.mp (ofHeader_canonicalHeader long)
    obtain ⟨size', name'⟩ := sameAs_iff.mp (ofHeader_canonicalHeader long')
    rw [same] at size name
    exact sameAs_iff.mpr ⟨size.symm.trans size', name.symm.trans name'⟩

theorem headersInvert : HeadersInvert where
  decode r nulFree short := by
    have named : r.WellNamed := ⟨short, nulFree⟩
    obtain ⟨-, same⟩ := named.decode named.header
    exact ⟨_, named.header, by rw [same], by rw [same]⟩
  encode _ long := ofHeader_header long
  same _ _ long long' := sameAs_ofHeader_iff long long'

/-! ## Which names a header can carry -/

theorem headerFaithful_iff : r.HeaderFaithful ↔ r.WellNamed := by
  constructor
  · rintro ⟨header, -, -, same⟩
    have named := wellNamed_ofHeader header
    rwa [WellNamed, (sameAs_iff.mp same).2] at named
  · intro named
    obtain ⟨length, same⟩ := named.decode named.header
    exact ⟨_, named.header, length, sameAs_iff.mpr (by rw [same]; exact ⟨rfl, rfl⟩)⟩

theorem HeaderFaithful.distinct (faithful : r.HeaderFaithful) (faithful' : other.HeaderFaithful)
    (equal : r.generateResourceHeader = other.generateResourceHeader) : r.sameAs other = true := by
  obtain ⟨header, own, -, same⟩ := faithful
  obtain ⟨header', own', -, same'⟩ := faithful'
  obtain rfl : header = header' := Except.ok.inj (own.symm.trans (equal.trans own'))
  obtain ⟨size, name⟩ := sameAs_iff.mp same
  obtain ⟨size', name'⟩ := sameAs_iff.mp same'
  exact sameAs_iff.mpr ⟨size.symm.trans size', name.symm.trans name'⟩

theorem toldApart_iff (r other : Resource) :
    r.ToldApart other ↔ r.WellNamed ∧ other.WellNamed := by
  constructor
  · intro apart
    exact ⟨headerFaithful_iff.mp apart.own, headerFaithful_iff.mp apart.others⟩
  · rintro ⟨named, named'⟩
    have faithful := headerFaithful_iff.mpr named
    have faithful' := headerFaithful_iff.mpr named'
    exact ⟨faithful, faithful', faithful.distinct faithful'⟩

/-- Two files in one directory, of which the last byte of the path tells which is meant. -/
theorem toldApart_fails : ¬∀ (fileSize : Bytes → Option UInt64) (r other : Resource),
    Enters fileSize r → Enters fileSize other → r.ToldApart other := by
  intro claim
  let path (last : UInt8) : Bytes := List.replicate 200 100 ++ 47 :: (List.replicate 60 97 ++ [last])
  let file (last : UInt8) : Resource := { size := 3, name := path last, path := path last }
  have added (last : UInt8) : Enters (fun _ => some 3) (file last) :=
    @Enters.added _ (path last) _ rfl
  have apart := claim _ _ _ (added 98) (added 99)
  exact absurd (apart.distinct (by decide +kernel)) (by decide +kernel)

end Resource

end SimpleP2P
