import SimpleP2P.Library.Memory

namespace SimpleP2P.Library

def padded (size : Nat) (bytes : List UInt8) : List UInt8 :=
  bytes ++ List.replicate (size - bytes.length) 0

def block (size : Nat) (content : List UInt8) (i : Nat) : List UInt8 :=
  padded size ((content.drop (i * size)).take size)

def copyAll (target : List UInt8) (pieces : List (Nat × List UInt8)) :
    Except Fault (List UInt8) :=
  pieces.foldlM (fun target piece => memcpy target piece.1 piece.2) target

structure PartOf (image : List UInt8) (offset : Nat) (source : List UInt8) : Prop where
  inside : offset + source.length ≤ image.length
  same : ∀ k < source.length, source[k]? = image[offset + k]?

variable {image target content : List UInt8} {size count : Nat}

theorem padded_length {bytes : List UInt8} (fits : bytes.length ≤ size) :
    (padded size bytes).length = size := by
  rw [padded, List.length_append, List.length_replicate]
  omega

theorem block_length (content : List UInt8) (i : Nat) : (block size content i).length = size :=
  padded_length (List.length_take_le _ _)

theorem padded_getElem? {bytes : List UInt8} {i : Nat} (inside : i < size) :
    (padded size bytes)[i]? = some (bytes[i]?.getD 0) := by
  by_cases own : i < bytes.length
  · rw [padded, List.getElem?_append_left own, List.getElem?_eq_getElem own, Option.getD_some]
  · have beyond : i - bytes.length < size - bytes.length := by omega
    rw [padded, List.getElem?_append_right (by omega), List.getElem?_replicate_of_lt beyond,
      List.getElem?_eq_none (by omega), Option.getD_none]

theorem Buffer.receive_padded (buffer : Buffer size) {received : List UInt8}
    (length : received.length = count) (fits : received.length ≤ size) : (if count < size then
      (buffer.receive received fits).clearFrom count
    else buffer.receive received fits).bytes = padded size received := by
  subst length
  split
  · simp [clearFrom, receive_bytes, padded]
  · have none : size - received.length = 0 := by omega
    rw [receive_bytes, padded, none, List.drop_eq_nil_of_le (by rw [buffer.full]; omega)]
    rfl

theorem partOf_block {i : Nat} (below : i < count) :
    PartOf (padded (count * size) content) (i * size) (block size content i) := by
  have room : i * size + size ≤ count * size := by
    calc i * size + size = (i + 1) * size := (Nat.succ_mul i size).symm
      _ ≤ count * size := Nat.mul_le_mul_right size below
  refine ⟨?_, fun k inside => ?_⟩
  · rw [block_length, padded, List.length_append, List.length_replicate]
    omega
  · rw [block_length] at inside
    rw [block, padded_getElem? inside, padded_getElem? (by omega), List.getElem?_take_of_lt inside,
      List.getElem?_drop]

theorem PartOf.memcpy {offset : Nat} {source : List UInt8} (part : PartOf image offset source)
    (sameLength : target.length = image.length) : ∃ target',
      memcpy target offset source = .ok target' ∧ target'.length = image.length ∧
        ∀ i, target[i]? = image[i]? ∨ offset ≤ i ∧ i < offset + source.length →
          target'[i]? = image[i]? := by
  have inside := part.inside
  rw [← sameLength] at inside
  have copied : Library.memcpy target offset source =
      .ok (target.take offset ++ source ++ target.drop (offset + source.length)) := if_pos inside
  refine ⟨_, copied, ?_, fun i known => ?_⟩
  · simp only [List.length_append, List.length_take, List.length_drop]
    omega
  · rw [memcpy_getElem? copied]
    split
    · rename_i within
      rw [part.same _ (by omega), Nat.add_sub_cancel' within.1]
    · rename_i without
      exact known.resolve_right without

theorem copyAll_agrees {pieces : List (Nat × List UInt8)}
    (parts : ∀ p ∈ pieces, PartOf image p.1 p.2) (sameLength : target.length = image.length) :
    ∃ target', copyAll target pieces = .ok target' ∧ target'.length = image.length ∧
      ∀ i, (target[i]? = image[i]? ∨ ∃ p ∈ pieces, p.1 ≤ i ∧ i < p.1 + p.2.length) →
        target'[i]? = image[i]? := by
  induction pieces generalizing target with
  | nil => exact ⟨target, rfl, sameLength, fun i known => known.resolve_right (by simp)⟩
  | cons piece rest ih =>
      obtain ⟨next, copied, length, agrees⟩ := (parts piece (by simp)).memcpy sameLength
      obtain ⟨target', done, lengths, agreesLater⟩ :=
        ih (fun p member => parts p (List.mem_cons_of_mem _ member)) length
      refine ⟨target', ?_, lengths, fun i known => agreesLater i ?_⟩
      · rw [copyAll, List.foldlM_cons, copied]
        exact done
      · rcases known with same | ⟨p, member, within⟩
        · exact .inl (agrees i (.inl same))
        · rcases List.mem_cons.mp member with rfl | later
          · exact .inl (agrees i (.inr within))
          · exact .inr ⟨p, later, within⟩

theorem copyAll_getElem? {pieces : List (Nat × List UInt8)} {target' copied copied' : List UInt8}
    (ok : copyAll target pieces = .ok copied) (ok' : copyAll target' pieces = .ok copied') {i : Nat}
    (known : target[i]? = target'[i]? ∨ ∃ p ∈ pieces, p.1 ≤ i ∧ i < p.1 + p.2.length) :
    copied[i]? = copied'[i]? := by
  induction pieces generalizing target target' with
  | nil =>
      obtain rfl := Except.ok.inj ok
      obtain rfl := Except.ok.inj ok'
      exact known.resolve_right (by simp)
  | cons piece rest ih =>
      rw [copyAll, List.foldlM_cons] at ok ok'
      cases first : memcpy target piece.1 piece.2 with
      | error e => simp [first, bind, Except.bind] at ok
      | ok next =>
          cases first' : memcpy target' piece.1 piece.2 with
          | error e => simp [first', bind, Except.bind] at ok'
          | ok next' =>
              rw [first] at ok
              rw [first'] at ok'
              refine ih ok ok' ?_
              rw [memcpy_getElem? first, memcpy_getElem? first']
              split
              · exact .inl rfl
              · rename_i outside
                rcases known with same | ⟨p, member, within⟩
                · exact .inl same
                · rcases List.mem_cons.mp member with rfl | later
                  · exact absurd within outside
                  · exact .inr ⟨p, later, within⟩

theorem copyAll_blocks {ids : List Nat} (below : ∀ i ∈ ids, i < count)
    (all : ∀ i < count, i ∈ ids) (fits : content.length ≤ count * size)
    (length : target.length = count * size) :
    copyAll target (ids.map fun i => (i * size, block size content i)) =
      .ok (padded (count * size) content) := by
  have parts : ∀ p ∈ ids.map fun i => (i * size, block size content i),
      PartOf (padded (count * size) content) p.1 p.2 := by
    intro p member
    obtain ⟨i, chosen, rfl⟩ := List.mem_map.mp member
    exact partOf_block (below i chosen)
  obtain ⟨target', copied, sameLength, agrees⟩ :=
    copyAll_agrees parts (length.trans (padded_length fits).symm)
  rw [copied]
  congr 1
  apply List.ext_getElem?
  intro i
  rcases Nat.lt_or_ge i (count * size) with inside | outside
  · have positive : 0 < size := Nat.pos_of_mul_pos_left (Nat.zero_lt_of_lt inside)
    have chosen := all (i / size) ((Nat.div_lt_iff_lt_mul positive).mpr inside)
    have start := Nat.div_mul_le_self i size
    have stop := Nat.lt_div_mul_add positive (a := i)
    refine agrees i (.inr ⟨_, List.mem_map_of_mem chosen, start, ?_⟩)
    rw [block_length]
    exact stop
  · rw [padded_length fits] at sameLength
    rw [List.getElem?_eq_none (by omega), List.getElem?_eq_none (by rw [padded_length fits]; omega)]

end SimpleP2P.Library
