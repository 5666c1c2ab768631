import Mathlib.Data.List.Basic

namespace SimpleP2P.Library

/-- Undefined behaviour of the program being modelled. -/
inductive Fault
  | expiredPointer
  | outOfBounds
  | dataRace
  deriving DecidableEq, Repr

def memcpy (target : List UInt8) (offset : Nat) (source : List UInt8) : Except Fault (List UInt8) :=
  if offset + source.length ≤ target.length then
    .ok (target.take offset ++ source ++ target.drop (offset + source.length))
  else .error .outOfBounds

theorem memcpy_ok {target target' source : List UInt8} {offset : Nat} :
    memcpy target offset source = .ok target' ↔ offset + source.length ≤ target.length ∧
      target' = target.take offset ++ source ++ target.drop (offset + source.length) := by
  unfold memcpy
  split
  · rename_i inside
    simp [inside, eq_comm]
  · rename_i outside
    simp [outside]

theorem memcpy_getElem? {target target' source : List UInt8} {offset : Nat}
    (ok : memcpy target offset source = .ok target') (i : Nat) : target'[i]? =
      if offset ≤ i ∧ i < offset + source.length then source[i - offset]? else target[i]? := by
  obtain ⟨inside, rfl⟩ := memcpy_ok.mp ok
  have before : (target.take offset).length = offset := by
    rw [List.length_take]
    omega
  split
  · rename_i within
    rw [List.append_assoc, List.getElem?_append_right (by omega), before,
      List.getElem?_append_left (by omega)]
  · rename_i without
    rcases Nat.lt_or_ge i offset with left | notLeft
    · rw [List.append_assoc, List.getElem?_append_left (by omega), List.getElem?_take_of_lt left]
    · have right : offset + source.length ≤ i := by omega
      rw [List.getElem?_append_right (by rw [List.length_append, before]; exact right),
        List.length_append, before, List.getElem?_drop, Nat.add_sub_cancel' right]

/-- The byte at each offset of an object, or a fault. -/
abbrev Memory := Nat → Except Fault UInt8

namespace Memory

def ofBytes (bytes : List UInt8) : Memory := fun i =>
  match bytes[i]? with
  | some b => .ok b
  | none => .error .outOfBounds

def readRange (memory : Memory) (offset : Nat) : Nat → Except Fault (List UInt8)
  | 0 => .ok []
  | count + 1 => do
      let first ← memory offset
      let rest ← readRange memory (offset + 1) count
      return first :: rest

@[simp] theorem ofBytes_ok {bytes : List UInt8} {i : Nat} {b : UInt8} :
    ofBytes bytes i = .ok b ↔ bytes[i]? = some b := by
  unfold ofBytes
  cases bytes[i]? <;> simp

theorem ofBytes_of_lt {bytes : List UInt8} {i : Nat} (h : i < bytes.length) :
    ofBytes bytes i = .ok bytes[i] := by
  simp [h]

theorem ofBytes_of_ge {bytes : List UInt8} {i : Nat} (h : bytes.length ≤ i) :
    ofBytes bytes i = .error .outOfBounds := by
  simp [ofBytes, h]

theorem readRange_ofBytes {bytes : List UInt8} {offset count : Nat}
    (h : offset + count ≤ bytes.length) :
    readRange (ofBytes bytes) offset count = .ok ((bytes.drop offset).take count) := by
  induction count generalizing offset with
  | zero => simp [readRange]
  | succ count ih =>
      have inside : offset < bytes.length := by omega
      rw [readRange, ofBytes_of_lt inside, ih (by omega), List.drop_eq_getElem_cons inside]
      rfl

theorem readRange_mono {memory memory' : Memory} (extends_ : ∀ i b, memory i = .ok b → memory' i = .ok b)
    {offset count : Nat} {bytes : List UInt8} (h : memory.readRange offset count = .ok bytes) :
    memory'.readRange offset count = .ok bytes := by
  induction count generalizing offset bytes with
  | zero => exact h
  | succ count ih =>
      cases first : memory offset with
      | error e => simp [readRange, first, bind, Except.bind] at h
      | ok b =>
          cases later : memory.readRange (offset + 1) count with
          | error e => simp [readRange, first, later, bind, Except.bind] at h
          | ok rest =>
              simp only [readRange, first, later, bind, Except.bind] at h
              simp only [readRange, extends_ _ _ first, ih later, bind, Except.bind]
              exact h

theorem ofBytes_append (bytes rest : List UInt8) (i : Nat) (b : UInt8)
    (h : ofBytes bytes i = .ok b) : ofBytes (bytes ++ rest) i = .ok b := by
  rw [ofBytes_ok] at h ⊢
  obtain ⟨inside, -⟩ := List.getElem?_eq_some_iff.mp h
  rwa [List.getElem?_append_left inside]

theorem readRange_outside {bytes : List UInt8} {offset count : Nat} (positive : 0 < count)
    (h : bytes.length < offset + count) :
    readRange (ofBytes bytes) offset count = .error .outOfBounds := by
  induction count generalizing offset with
  | zero => omega
  | succ count ih =>
      by_cases inside : offset < bytes.length
      · have later : 0 < count := by omega
        rw [readRange, ofBytes_of_lt inside, ih later (by omega)]
        rfl
      · rw [readRange, ofBytes_of_ge (by omega)]
        rfl

end Memory

structure Buffer (size : Nat) where
  bytes : List UInt8
  full : bytes.length = size
  deriving DecidableEq

namespace Buffer

variable {size : Nat}

theorem eq_of_bytes {buffer buffer' : Buffer size} (same : buffer.bytes = buffer'.bytes) :
    buffer = buffer' := by
  cases buffer
  cases buffer'
  simpa using same

def receive (buffer : Buffer size) (received : List UInt8) (fits : received.length ≤ size) :
    Buffer size where
  bytes := received ++ buffer.bytes.drop received.length
  full := by
    rw [List.length_append, List.length_drop, buffer.full]
    omega

theorem receive_bytes (buffer : Buffer size) (received : List UInt8) (fits : received.length ≤ size) :
    (buffer.receive received fits).bytes = received ++ buffer.bytes.drop received.length := rfl

def zeros (size : Nat) : Buffer size where
  bytes := List.replicate size 0
  full := List.length_replicate

def clearFrom (buffer : Buffer size) (offset : Nat) : Buffer size where
  bytes := buffer.bytes.take offset ++ List.replicate (size - offset) 0
  full := by
    rw [List.length_append, List.length_take, List.length_replicate, buffer.full]
    omega

theorem memcpy_receive (buffer : Buffer size) (received : List UInt8)
    (fits : received.length ≤ size) :
    memcpy buffer.bytes 0 received = .ok (buffer.receive received fits).bytes := by
  rw [memcpy_ok, Nat.zero_add, buffer.full]
  exact ⟨fits, rfl⟩

theorem memcpy_clearFrom (buffer : Buffer size) {offset : Nat} (inside : offset ≤ size) :
    memcpy buffer.bytes offset (List.replicate (size - offset) 0) =
      .ok (buffer.clearFrom offset).bytes := by
  have all : offset + (size - offset) = size := by omega
  have nothing : buffer.bytes.drop size = [] := List.drop_eq_nil_of_le (Nat.le_of_eq buffer.full)
  rw [memcpy_ok, List.length_replicate, all, buffer.full, nothing, List.append_nil]
  exact ⟨Nat.le_refl _, rfl⟩

end Buffer

end SimpleP2P.Library
