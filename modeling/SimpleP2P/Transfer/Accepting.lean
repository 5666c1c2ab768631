import SimpleP2P.Transfer.RequestServer

namespace SimpleP2P
open Library

inductive Slot
  /-- The worker of an accept, whose `send_data` is not set. -/
  | accepting
  | started (w : RequestWorker)
  | deleted
  deriving DecidableEq

def Slot.worker? : Slot → Option RequestWorker
  | .started w => some w
  | .accepting | .deleted => none

/-- The workers are in the order in which they were made. -/
structure Acceptor where
  files : FileManager := {}
  slots : List Slot := []
  deriving DecidableEq

namespace Acceptor

def startAccept (a : Acceptor) : Acceptor := { a with slots := a.slots ++ [.accepting] }

def start : Acceptor := startAccept {}

inductive Event
  /-- `malloc` finds memory for `send_data`, with any content, or returns a null pointer. -/
  | accepted (i : Nat) (recvData : RecvData) (sendData : Option (Buffer segmentSize))
  /-- `null` is whether the pointer that was never set happens to be null. -/
  | acceptError (i : Nat) (null : Bool)
  | read (i : Nat) (received : Bytes) (disk : Option Bytes)
  | readError (i : Nat)
  | written (i : Nat) (ok : Bool)
  deriving DecidableEq

def worker? (a : Acceptor) (i : Nat) : Option RequestWorker := a.slots[i]?.bind Slot.worker?

def set (a : Acceptor) (i : Nat) (slot : Slot) : Acceptor := { a with slots := a.slots.set i slot }

/-- The handlers delete a worker with its buffer, which the destructor frees unless it is null. -/
def step (a : Acceptor) : Event → Except Halt Acceptor
  | .accepted i recvData sendData =>
      if a.slots[i]? = some .accepting then
        match sendData with
        | some sendData => .ok (a.set i (.started { recvData, sendData })).startAccept
        | none => .ok (a.set i .deleted).startAccept
      else .error .blocked
  | .acceptError i null =>
      if a.slots[i]? = some .accepting then
        if null then .ok (a.set i .deleted).startAccept else .error (.fault .expiredPointer)
      else .error .blocked
  | .read i received disk =>
      match a.worker? i with
      | some w =>
          if w.pending = .reading ∧ received ≠ [] then
            if fits : received.length ≤ maxRecvDataLength then do
              let w := { w with recvData := w.recvData.receive received fits }
              let handled ← (w.handleRead a.files disk).mapError .fault
              return { a.set i (.started handled.1) with files := handled.2 }
            else .error .blocked
          else .error .blocked
      | none => .error .blocked
  | .readError i =>
      match a.worker? i with
      | some w =>
          if w.pending = .reading then .ok (a.set i (.started { w with pending := .deleted }))
          else .error .blocked
      | none => .error .blocked
  | .written i ok =>
      match a.worker? i with
      | some w =>
          if w.pending = .writing then
            .ok (a.set i (.started { w with pending := if ok then .reading else .deleted }))
          else .error .blocked
      | none => .error .blocked

/-! ## The server without failing accepts -/

def server (a : Acceptor) : RequestServer where
  files := a.files
  workers := a.slots.filterMap Slot.worker?

def index (a : Acceptor) (i : Nat) : Nat := ((a.slots.take i).filterMap Slot.worker?).length

def serves (a : Acceptor) : Event → Option RequestServer.Event
  | .accepted i recvData sendData =>
      if a.slots[i]? = some .accepting then sendData.map (.accept recvData) else none
  | .acceptError _ _ => none
  | .read i received disk => (a.worker? i).map fun _ => .read (a.index i) received disk
  | .readError i => (a.worker? i).map fun _ => .readError (a.index i)
  | .written i ok => (a.worker? i).map fun _ => .written (a.index i) ok

def OneAccept (a : Acceptor) : Prop := ∃ slots, a.slots = slots ++ [.accepting] ∧ .accepting ∉ slots

variable {a a' : Acceptor} {i : Nat} {w w' : RequestWorker} {e : Event} {e' : RequestServer.Event}

theorem worker?_eq_some : a.worker? i = some w ↔ a.slots[i]? = some (.started w) := by
  rw [worker?, Option.bind_eq_some_iff]
  constructor
  · rintro ⟨slot, there, same⟩
    cases slot with
    | started u => exact Option.some.inj same ▸ there
    | accepting | deleted => contradiction
  · exact fun there => ⟨_, there, rfl⟩

theorem workers_around (before after : List Slot) (w : RequestWorker) :
    (before ++ .started w :: after).filterMap Slot.worker? =
      before.filterMap Slot.worker? ++ w :: after.filterMap Slot.worker? := by
  simp [Slot.worker?]

theorem slots_split (there : a.worker? i = some w) :
    a.slots = a.slots.take i ++ .started w :: a.slots.drop (i + 1) := by
  obtain ⟨inside, same⟩ := List.getElem?_eq_some_iff.mp (worker?_eq_some.mp there)
  rw [← same, List.cons_getElem_drop_succ, List.take_append_drop]

theorem workers_split (there : a.worker? i = some w) : a.server.workers =
    (a.slots.take i).filterMap Slot.worker? ++ w :: (a.slots.drop (i + 1)).filterMap Slot.worker? :=
  (congrArg _ (slots_split there)).trans (workers_around _ _ w)

theorem server_worker (there : a.worker? i = some w) : a.server.workers[a.index i]? = some w := by
  rw [workers_split there, index, List.getElem?_append_right (Nat.le_refl _), Nat.sub_self]
  rfl

theorem server_set (there : a.worker? i = some w) (w' : RequestWorker) :
    (a.set i (.started w')).server.workers = a.server.workers.set (a.index i) w' := by
  obtain ⟨inside, -⟩ := List.getElem?_eq_some_iff.mp (worker?_eq_some.mp there)
  have replaced : (a.set i (.started w')).slots =
      a.slots.take i ++ .started w' :: a.slots.drop (i + 1) := by
    rw [set, List.set_eq_take_append_cons_drop, if_pos inside]
  have workers : (a.set i (.started w')).server.workers = (a.slots.take i).filterMap Slot.worker? ++
      w' :: (a.slots.drop (i + 1)).filterMap Slot.worker? :=
    (congrArg _ replaced).trans (workers_around _ _ w')
  rw [workers, workers_split there, index, List.set_append_right _ _ (Nat.le_refl _), Nat.sub_self]
  rfl

theorem OneAccept.last {slots : List Slot} (split : a.slots = slots ++ [.accepting])
    (started : .accepting ∉ slots) (there : a.slots[i]? = some .accepting) : i = slots.length := by
  rw [split] at there
  rcases Nat.lt_trichotomy i slots.length with before | here | after
  · rw [List.getElem?_append_left before] at there
    exact absurd (List.mem_of_getElem? there) started
  · exact here
  · have outside : (slots ++ [Slot.accepting]).length ≤ i := by
      rw [List.length_append, List.length_singleton]
      exact after
    rw [List.getElem?_eq_none outside] at there
    contradiction

theorem OneAccept.accepted (one : a.OneAccept) (there : a.slots[i]? = some .accepting) (slot : Slot)
    (other : slot ≠ .accepting) : (a.set i slot).startAccept.OneAccept ∧
      (a.set i slot).startAccept.server =
        { a.server with workers := a.server.workers ++ slot.worker?.toList } := by
  obtain ⟨slots, split, started⟩ := one
  obtain rfl := OneAccept.last split started there
  have replaced : (a.set slots.length slot).slots = slots ++ [slot] := by
    rw [set, split, List.set_append_right _ _ (Nat.le_refl _), Nat.sub_self]
    rfl
  refine ⟨⟨slots ++ [slot], by rw [startAccept, replaced], ?_⟩, ?_⟩
  · simp [started, Ne.symm other]
  · have before : a.server.workers = slots.filterMap Slot.worker? := by
      simp [server, split, Slot.worker?]
    have after : (a.set slots.length slot).startAccept.server.workers =
        slots.filterMap Slot.worker? ++ slot.worker?.toList := by
      rw [server, startAccept, replaced]
      cases slot <;> simp [Slot.worker?]
    rw [before, ← after]
    rfl

theorem OneAccept.set (one : a.OneAccept) (there : a.worker? i = some w) (w' : RequestWorker) :
    (a.set i (.started w')).OneAccept := by
  obtain ⟨slots, split, started⟩ := one
  have here := worker?_eq_some.mp there
  have before : i < slots.length := by
    obtain ⟨inside, same⟩ := List.getElem?_eq_some_iff.mp here
    rcases Nat.lt_or_ge i slots.length with before | after
    · exact before
    · rw [split, List.getElem?_append_right after, List.getElem?_singleton] at here
      split at here <;> simp at here
  refine ⟨slots.set i (.started w'), ?_, fun member => ?_⟩
  · rw [Acceptor.set, split, List.set_append_left _ _ before]
  · rcases List.mem_or_eq_of_mem_set member with old | new
    · exact started old
    · contradiction

/-! ## What the plain server does -/

theorem serves_step (one : a.OneAccept) (serves : a.serves e = some e') :
    a.server.step e' = (a.step e).map server := by
  cases e with
  | accepted i recvData sendData =>
      simp only [Acceptor.serves] at serves
      split at serves
      · rename_i there
        obtain ⟨sendData, rfl, rfl⟩ := Option.map_eq_some_iff.mp serves
        have moved := (one.accepted there (.started { recvData, sendData }) nofun).2
        simp only [step, if_pos there, Except.map, moved, RequestServer.step]
        rfl
      · contradiction
  | acceptError i null => contradiction
  | read i received disk =>
      obtain ⟨w, there, rfl⟩ := Option.map_eq_some_iff.mp serves
      simp only [step, there, RequestServer.step, server_worker there]
      by_cases ready : w.pending = .reading ∧ received ≠ []
      · by_cases fits : received.length ≤ maxRecvDataLength
        · rw [dif_pos ⟨ready.1, ready.2, fits⟩, if_pos ready, dif_pos fits]
          cases handled : RequestWorker.handleRead
              { w with recvData := w.recvData.receive received fits } a.files disk with
          | error f => simp [handled, server, Except.map, Except.mapError, bind, Except.bind]
          | ok result =>
              have workers := server_set there result.1
              simp [handled, server, Except.map, Except.mapError, bind, Except.bind, pure, Except.pure]
              exact workers.symm
        · rw [dif_neg fun all => fits all.2.2, if_pos ready, dif_neg fits]
          rfl
      · rw [dif_neg fun all => ready ⟨all.1, all.2.1⟩, if_neg ready]
        rfl
  | readError i =>
      obtain ⟨w, there, rfl⟩ := Option.map_eq_some_iff.mp serves
      simp only [step, there, RequestServer.step, server_worker there]
      split
      · simp only [Except.map, ← server_set there]
        rfl
      · rfl
  | written i ok =>
      obtain ⟨w, there, rfl⟩ := Option.map_eq_some_iff.mp serves
      simp only [step, there, RequestServer.step, server_worker there]
      split
      · simp only [Except.map, ← server_set there]
        rfl
      · rfl

theorem step_silent (one : a.OneAccept) (silent : a.serves e = none) (ok : a.step e = .ok a') :
    a'.OneAccept ∧ a'.server = a.server := by
  have dropped {i : Nat} (there : a.slots[i]? = some .accepting) :
      (a.set i .deleted).startAccept.OneAccept ∧ (a.set i .deleted).startAccept.server = a.server := by
    obtain ⟨next, same⟩ := one.accepted there .deleted nofun
    exact ⟨next, same.trans (congrArg _ (List.append_nil _))⟩
  cases e with
  | accepted i recvData sendData =>
      simp only [step] at ok
      split at ok
      · rename_i there
        cases sendData with
        | none =>
            obtain rfl := Except.ok.inj ok
            exact dropped there
        | some sendData => simp [Acceptor.serves, there] at silent
      · contradiction
  | acceptError i null =>
      simp only [step] at ok
      split at ok
      · rename_i there
        split at ok
        · obtain rfl := Except.ok.inj ok
          exact dropped there
        · contradiction
      · contradiction
  | read i received disk | readError i | written i done =>
      have missing : a.worker? i = none := by simpa [Acceptor.serves] using silent
      simp [step, missing] at ok

theorem OneAccept.step (one : a.OneAccept) (ok : a.step e = .ok a') : a'.OneAccept := by
  cases e with
  | accepted i recvData sendData =>
      simp only [Acceptor.step] at ok
      split at ok
      · rename_i there
        cases sendData with
        | none => exact Except.ok.inj ok ▸ (one.accepted there .deleted nofun).1
        | some sendData =>
            exact Except.ok.inj ok ▸ (one.accepted there (.started { recvData, sendData }) nofun).1
      · contradiction
  | acceptError i null => exact (step_silent one rfl ok).1
  | read i received disk =>
      simp only [Acceptor.step] at ok
      split at ok
      · rename_i w there
        split at ok
        · split at ok
          · obtain ⟨handled, -, eq⟩ := bind_eq_ok.mp ok
            obtain rfl := Except.ok.inj eq
            exact one.set there handled.1
          · contradiction
        · contradiction
      · contradiction
  | readError i | written i done =>
      simp only [Acceptor.step] at ok
      split at ok
      · rename_i w there
        split at ok
        · exact Except.ok.inj ok ▸ one.set there _
        · contradiction
      · contradiction

theorem fault_iff (one : a.OneAccept) {f : Fault} : a.step e = .error (.fault f) ↔
    (∃ e' ∈ a.serves e, a.server.step e' = .error (.fault f)) ∨
      ∃ i, e = .acceptError i false ∧ a.slots[i]? = some .accepting ∧ f = .expiredPointer := by
  cases serves : a.serves e with
  | some e' =>
      have same := serves_step one serves
      have kept : ∀ i, e ≠ .acceptError i false := by
        rintro i rfl
        contradiction
      cases moved : a.step e <;> simp [same, moved, kept, Except.map]
  | none =>
      cases e with
      | acceptError i null =>
          simp only [step]
          split
          · rename_i there
            cases null <;> simp [there, eq_comm]
          · rename_i other
            simp [other]
      | accepted i recvData sendData =>
          simp only [step]
          split
          · rename_i there
            cases sendData with
            | none => simp
            | some sendData => simp [Acceptor.serves, there] at serves
          · simp
      | read i received disk | readError i | written i done =>
          have missing : a.worker? i = none := by simpa [Acceptor.serves] using serves
          simp [step, missing]

end Acceptor

end SimpleP2P
