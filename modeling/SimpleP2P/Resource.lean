import SimpleP2P.GeneralTypes
import SimpleP2P.Library.BigEndian

namespace SimpleP2P
open Library

/-- A weak pointer to a `Host` object: the identity of the object it was made from. -/
abbrev HostPtr := Nat

abbrev ResourcePtr := Nat

def defaultPath : Bytes := [46, 47]

structure Resource where
  size : UInt64
  name : FileName
  invalidated : Bool := false
  path : Bytes := defaultPath
  hostsInPossession : List HostPtr := []
  deriving DecidableEq, Repr

namespace Resource

/-- The copy constructor keeps the name, the size and the path only. -/
def copy (other : Resource) : Resource :=
  { size := other.size, name := other.name, path := other.path }

/-- `operator==`: the attributes besides name and size are not compared. -/
def sameAs (r other : Resource) : Bool :=
  r.size == other.size && r.name == other.name

def setRevoked (r : Resource) : Resource := { r with invalidated := true }

def removeHost (r : Resource) (host : HostPtr) : Resource :=
  { r with hostsInPossession := r.hostsInPossession.filter (· != host) }

def calcSegmentsCount (r : Resource) : UInt16 :=
  if r.size % 1024 ≠ 0 then (1 + r.size / 1024).toUInt16
  else (r.size / 1024).toUInt16

def generateResourceHeader (r : Resource) : Except Fault Bytes := do
  let header := List.replicate (fileNameLength + fileSizeLength) 0
  let header ← memcpy header 0 r.name
  memcpy header fileNameLength (BigEndian.bytesOf fileSizeLength r.size.toNat)

def ofHeader (resourceHeader : Bytes) : Resource :=
  if resourceHeader.length ≥ resourceHeaderSize then
    { name := (resourceHeader.take fileNameLength).takeWhile (· ≠ 0)
      size := UInt64.ofNat (BigEndian.valueOf ((resourceHeader.drop fileNameLength).take fileSizeLength)) }
  else { name := [], size := 0 }

theorem generateResourceHeader_eq (r : Resource) : r.generateResourceHeader =
    if r.name.length ≤ fileNameLength + fileSizeLength then
      .ok ((r.name ++ List.replicate (fileNameLength + fileSizeLength - r.name.length) 0).take
        fileNameLength ++ BigEndian.bytesOf fileSizeLength r.size.toNat)
    else .error .outOfBounds := by
  by_cases fits : r.name.length ≤ fileNameLength + fileSizeLength
  · have named : memcpy (List.replicate (fileNameLength + fileSizeLength) 0) 0 r.name =
        .ok (r.name ++ List.replicate (fileNameLength + fileSizeLength - r.name.length) 0) := by
      generalize fileNameLength + fileSizeLength = n at fits ⊢
      simp [memcpy, fits]
    have sized : memcpy (r.name ++ List.replicate (fileNameLength + fileSizeLength - r.name.length) 0)
        fileNameLength (BigEndian.bytesOf fileSizeLength r.size.toNat) =
        .ok ((r.name ++ List.replicate (fileNameLength + fileSizeLength - r.name.length) 0).take
          fileNameLength ++ BigEndian.bytesOf fileSizeLength r.size.toNat) := by
      have long : (r.name ++ List.replicate (fileNameLength + fileSizeLength - r.name.length)
          (0 : UInt8)).length = fileNameLength + fileSizeLength := by
        rw [List.length_append, List.length_replicate]
        omega
      simp only [memcpy, BigEndian.bytesOf_length, long, Nat.le_refl, if_true]
      rw [List.drop_eq_nil_of_le (Nat.le_of_eq long), List.append_nil]
    simp only [generateResourceHeader, named, bind, Except.bind, sized, if_pos fits]
  · have overrun : memcpy (List.replicate (fileNameLength + fileSizeLength) 0) 0 r.name =
        .error .outOfBounds := by
      generalize fileNameLength + fileSizeLength = n at fits ⊢
      simp only [memcpy, List.length_replicate, Nat.zero_add, if_neg fits]
    simp only [generateResourceHeader, overrun, bind, Except.bind, if_neg fits]

/-- A name of which the header field holds every byte and no terminator too early. -/
def WellNamed (r : Resource) : Prop :=
  r.name.length ≤ fileNameLength ∧ 0 ∉ r.name

instance (r : Resource) : Decidable r.WellNamed :=
  inferInstanceAs (Decidable (r.name.length ≤ fileNameLength ∧ 0 ∉ r.name))

theorem takeWhile_padded {name : Bytes} (nulFree : 0 ∉ name) (n : Nat) :
    (name ++ List.replicate n 0).takeWhile (· ≠ 0) = name := by
  induction name with
  | nil => cases n <;> simp [List.replicate_succ]
  | cons b rest ih =>
      obtain ⟨first, later⟩ := not_or.mp (List.mem_cons.not.mp nulFree)
      rw [List.cons_append, List.takeWhile_cons_of_pos (by simpa using Ne.symm first), ih later]

theorem WellNamed.header {r : Resource} (named : r.WellNamed) :
    r.generateResourceHeader = .ok (r.name ++ List.replicate (fileNameLength - r.name.length) 0 ++
      BigEndian.bytesOf fileSizeLength r.size.toNat) := by
  obtain ⟨short, -⟩ := named
  rw [generateResourceHeader_eq, if_pos (by omega), List.take_append, List.take_replicate,
    List.take_of_length_le short]
  congr 4
  omega

theorem ofNat_valueOf_size (size : UInt64) :
    UInt64.ofNat (BigEndian.valueOf (BigEndian.bytesOf fileSizeLength size.toNat)) = size := by
  have bound := size.toNat_lt
  rw [BigEndian.valueOf_bytesOf, fileSizeLength, Nat.mod_eq_of_lt (by omega), UInt64.ofNat_toNat]

theorem WellNamed.decode {r : Resource} (named : r.WellNamed) {header : Bytes}
    (own : r.generateResourceHeader = .ok header) :
    header.length = resourceHeaderSize ∧ ofHeader header = { name := r.name, size := r.size } := by
  obtain rfl := Except.ok.inj (named.header.symm.trans own)
  have field : (r.name ++ List.replicate (fileNameLength - r.name.length) 0).length =
      fileNameLength := by
    have short := named.1
    rw [List.length_append, List.length_replicate]
    omega
  have length : (r.name ++ List.replicate (fileNameLength - r.name.length) 0 ++
      BigEndian.bytesOf fileSizeLength r.size.toNat).length = resourceHeaderSize := by
    rw [List.length_append, field, BigEndian.bytesOf_length]
    rfl
  refine ⟨length, ?_⟩
  rw [ofHeader, if_pos length.ge, List.take_left' field, List.drop_left' field,
    takeWhile_padded named.2, List.take_of_length_le (BigEndian.bytesOf_length _ _).le,
    ofNat_valueOf_size]

theorem generateResourceHeader_error {r : Resource} {e : Fault}
    (h : r.generateResourceHeader = .error e) : e = .outOfBounds := by
  rw [generateResourceHeader_eq] at h
  split at h
  · contradiction
  · exact (Except.error.inj h).symm

@[simp] theorem sameAs_iff {r other : Resource} :
    r.sameAs other = true ↔ r.size = other.size ∧ r.name = other.name := by
  simp [sameAs]

@[simp] theorem removeHost_twice (r : Resource) (host : HostPtr) :
    (r.removeHost host).removeHost host = r.removeHost host := by
  simp [removeHost, List.filter_filter]

@[simp] theorem copy_invalidated (r : Resource) : r.copy.invalidated = false := rfl

@[simp] theorem copy_hosts (r : Resource) : r.copy.hostsInPossession = [] := rfl

end Resource

end SimpleP2P
