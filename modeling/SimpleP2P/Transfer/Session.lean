import SimpleP2P.Transfer.RequestServer

namespace SimpleP2P
open Library

inductive Operation
  | read
  | write
  deriving DecidableEq, Repr

inductive Completion
  | received (bytes : Bytes) (files : FileManager) (disk : Option Bytes)
  | readError
  | written
  | writeError
  deriving DecidableEq

def Completion.operation : Completion → Operation
  | .received _ _ _ | .readError => .read
  | .written | .writeError => .write

structure Session where
  recvData : RecvData
  sendData : Buffer segmentSize
  outstanding : List Operation
  deleted : Bool := false
  deriving DecidableEq

namespace Session

def start (recvData : RecvData) (sendData : Buffer segmentSize) : Session :=
  { recvData, sendData, outstanding := [.read] }

def arm (s : Session) (operation : Operation) : Session :=
  { s with outstanding := s.outstanding ++ [operation] }

def delete (s : Session) : Session := { s with deleted := true }

def handleRead (s : Session) (files : FileManager) (disk : Option Bytes) : Except Fault Session :=
  match SimpleP2P.handleRead s.recvData with
  | .answer request => do
      let (ok, _, sendData) ← files.serve request disk s.sendData
      return if ok then { s with sendData }.arm .write else { s with sendData }.delete
  | .quit fileName => do
      let _ ← files.readUnlock fileName
      return s.delete
  | .nothing => .ok s

def handle (s : Session) : Completion → Except Halt Session
  | .received bytes files disk =>
      if fits : bytes ≠ [] ∧ bytes.length ≤ maxRecvDataLength then
        ({ s with recvData := s.recvData.receive bytes fits.2 }.handleRead files disk).mapError .fault
      else .error .blocked
  | .written => .ok (s.arm .read)
  | .readError | .writeError => .ok s.delete

def step (s : Session) (c : Completion) : Except Halt Session :=
  if c.operation ∈ s.outstanding then
    -- the handler is bound to `this`
    if s.deleted then .error (.fault .expiredPointer)
    else handle { s with outstanding := s.outstanding.erase c.operation } c
  else .error .blocked

structure Armed (s : Session) : Prop where
  waits : s.deleted = true ∧ s.outstanding = [] ∨ s.deleted = false ∧ ∃ o, s.outstanding = [o]
  live : ∀ c : Completion, c.operation ∈ s.outstanding → s.deleted = false

def KnownCommand (_ : Session) : Completion → Prop
  | .received bytes _ _ => bytes.head? = some reqSegment ∨ bytes.head? = some quitConn
  | _ => True

instance (s : Session) : (c : Completion) → Decidable (s.KnownCommand c)
  | .received bytes _ _ =>
      inferInstanceAs (Decidable (bytes.head? = some reqSegment ∨ bytes.head? = some quitConn))
  | .readError | .written | .writeError => .isTrue trivial

variable {s s' : Session} {c : Completion}

theorem armed_iff : s.Armed ↔
    s.deleted = true ∧ s.outstanding = [] ∨ s.deleted = false ∧ ∃ o, s.outstanding = [o] := by
  constructor
  · exact Armed.waits
  · intro waits
    refine ⟨waits, fun c member => ?_⟩
    rcases waits with ⟨-, none⟩ | ⟨live, -⟩
    · simp [none] at member
    · exact live

theorem armed_delete (idle : s.outstanding = []) : s.delete.Armed :=
  armed_iff.mpr (.inl ⟨rfl, idle⟩)

theorem armed_arm (idle : s.outstanding = []) (live : s.deleted = false) (operation : Operation) :
    (s.arm operation).Armed := by
  refine armed_iff.mpr (.inr ⟨live, operation, ?_⟩)
  rw [arm, idle, List.nil_append]

theorem not_armed_of_idle (idle : s.outstanding = []) (live : s.deleted = false) : ¬s.Armed := by
  intro armed
  rcases armed.waits with ⟨deleted, -⟩ | ⟨-, o, one⟩
  · simp [live] at deleted
  · simp [idle] at one

theorem handleRead_armed_iff {files : FileManager} {disk : Option Bytes} (idle : s.outstanding = [])
    (live : s.deleted = false) (ok : s.handleRead files disk = .ok s') :
    s'.Armed ↔ s.recvData.command = reqSegment ∨ s.recvData.command = quitConn := by
  rw [← handleRead_nothing_iff]
  cases reaction : SimpleP2P.handleRead s.recvData with
  | answer request =>
      simp only [handleRead, reaction] at ok
      obtain ⟨⟨served, files', sendData⟩, -, eq⟩ := bind_eq_ok.mp ok
      obtain rfl := Except.ok.inj eq
      refine iff_of_true ?_ (by simp)
      cases served with
      | true => exact armed_arm (s := { s with sendData }) idle live .write
      | false => exact armed_delete (s := { s with sendData }) idle
  | quit fileName =>
      simp only [handleRead, reaction] at ok
      obtain ⟨files', -, eq⟩ := bind_eq_ok.mp ok
      obtain rfl := Except.ok.inj eq
      exact iff_of_true (armed_delete idle) (by simp)
  | nothing =>
      simp only [handleRead, reaction] at ok
      obtain rfl := Except.ok.inj ok
      exact iff_of_false (not_armed_of_idle idle live) (· rfl)

theorem command_receive (recvData : RecvData) {bytes : Bytes} (some_ : bytes ≠ [])
    (fits : bytes.length ≤ maxRecvDataLength) :
    bytes.head? = some (RecvData.command (recvData.receive bytes fits)) := by
  cases bytes with
  | nil => contradiction
  | cons b rest => rfl

theorem step_armed_iff (armed : s.Armed) (ok : s.step c = .ok s') :
    s'.Armed ↔ s.KnownCommand c := by
  unfold step at ok
  split at ok
  · rename_i completes
    have live := armed.live c completes
    rw [if_neg (by simp [live])] at ok
    have idle : s.outstanding.erase c.operation = [] := by
      rcases armed.waits with ⟨deleted, -⟩ | ⟨-, o, one⟩
      · simp [live] at deleted
      · rw [one] at completes ⊢
        rw [List.mem_singleton.mp completes, List.erase_cons_head]
    cases c with
    | received bytes files disk =>
        simp only [handle] at ok
        split at ok
        · rename_i fits
          have handled := handleRead_armed_iff (by exact idle) (by exact live) (mapError_ok.mp ok)
          rw [handled, KnownCommand, command_receive s.recvData fits.1 fits.2, Option.some.injEq,
            Option.some.injEq]
        · contradiction
    | written =>
        obtain rfl := Except.ok.inj ok
        exact iff_of_true (armed_arm (by exact idle) (by exact live) .read) trivial
    | readError | writeError =>
        obtain rfl := Except.ok.inj ok
        exact iff_of_true (armed_delete idle) trivial
  · contradiction

theorem reach_armed {recvData : RecvData} {sendData : Buffer segmentSize}
    (h : Reach step KnownCommand (start recvData sendData) s) : s.Armed :=
  h.invariant (armed_iff.mpr (.inr ⟨rfl, .read, rfl⟩)) fun _ _ _ armed known ok =>
    (step_armed_iff armed ok).mpr known

theorem writing_armed : ∃ s : Session, s.outstanding = [.write] ∧ s.Armed := by
  obtain ⟨s, run, writing⟩ := exists_reach_of_exec step KnownCommand (start (.zeros _) (.zeros _))
    [.received RequestServer.requestA {} (some [1, 2, 3])] (fun s => s.outstanding = [.write])
    (by decide +kernel)
  exact ⟨s, of_decide_eq_true writing, reach_armed run⟩

/-- The client sends a zero and waits for ever, and so does the worker. -/
theorem armed_fails : ¬∀ (recvData : RecvData) (sendData : Buffer segmentSize) (s : Session),
    Reach step Anything (start recvData sendData) s → s.Armed := by
  intro claim
  obtain ⟨s, run, idle⟩ := exists_reach_of_exec step (fun _ _ => True)
    (start (.zeros _) (.zeros _)) [.received [0] {} none]
    (fun s => s.outstanding = [] ∧ s.deleted = false) (by decide +kernel)
  obtain ⟨idle, live⟩ := of_decide_eq_true idle
  exact not_armed_of_idle idle live (claim _ _ s run)

end Session

/-! ## The sessions of a server -/

namespace RequestWorker

def session (w : RequestWorker) : Session where
  recvData := w.recvData
  sendData := w.sendData
  outstanding :=
    match w.pending with
    | .reading => [.read]
    | .writing => [.write]
    | .nothing | .deleted => []
  deleted := w.pending = .deleted

theorem handleRead_session {w w' : RequestWorker} {m m' : FileManager} {disk : Option Bytes}
    (live : w.pending = .reading) (ok : w.handleRead m disk = .ok (w', m')) :
    Session.handleRead { w.session with outstanding := [] } m disk = .ok w'.session := by
  have here : w.session.deleted = false := by simp [session, live]
  unfold handleRead at ok
  cases reaction : SimpleP2P.handleRead w.recvData with
  | answer request =>
      simp only [reaction] at ok
      obtain ⟨⟨served, files, sendData⟩, done, eq⟩ := bind_eq_ok.mp ok
      obtain ⟨rfl, -⟩ := Prod.mk.inj (Except.ok.inj eq)
      have done' : m.serve request disk w.session.sendData = .ok (served, files, sendData) := done
      have reaction' : SimpleP2P.handleRead w.session.recvData = .answer request := reaction
      simp only [Session.handleRead, reaction', done', bind, Except.bind]
      cases served <;> simp [pure, Except.pure, Session.arm, Session.delete, session, live]
  | quit fileName =>
      simp only [reaction] at ok
      obtain ⟨files, done, eq⟩ := bind_eq_ok.mp ok
      obtain ⟨rfl, -⟩ := Prod.mk.inj (Except.ok.inj eq)
      have reaction' : SimpleP2P.handleRead w.session.recvData = .quit fileName := reaction
      simp only [Session.handleRead, reaction', done, bind, Except.bind]
      simp [pure, Except.pure, Session.delete, session]
  | nothing =>
      simp only [reaction] at ok
      obtain ⟨rfl, -⟩ := Prod.mk.inj (Except.ok.inj ok)
      have reaction' : SimpleP2P.handleRead w.session.recvData = .nothing := reaction
      simp only [Session.handleRead, reaction']
      simp [session, live]

end RequestWorker

namespace RequestServer

def Event.completion (files : FileManager) : Event → Option (Nat × Completion)
  | .accept _ _ => none
  | .read i received disk => some (i, .received received files disk)
  | .readError i => some (i, .readError)
  | .written i ok => some (i, if ok then .written else .writeError)

variable {s s' : RequestServer}

theorem step_session {e : Event} (ok : s.step e = .ok s') {i : Nat} {c : Completion}
    (about : e.completion s.files = some (i, c)) : ∃ w w', s.workers[i]? = some w ∧
      s'.workers = s.workers.set i w' ∧ w.session.step c = .ok w'.session := by
  cases step_move ok with
  | accept => contradiction
  | @read j received disk w w' files there reading some_ fits handled =>
      obtain ⟨rfl, rfl⟩ := Prod.mk.inj (Option.some.inj about)
      have handled := RequestWorker.handleRead_session (by exact reading) handled
      refine ⟨w, w', there, rfl, ?_⟩
      have waits : w.session.outstanding = [.read] := by simp [RequestWorker.session, reading]
      have live : w.session.deleted = false := by simp [RequestWorker.session, reading]
      rw [Session.step, if_pos (by simp [waits, Completion.operation]), if_neg (by simp [live])]
      simp only [Session.handle, dif_pos (And.intro some_ fits), waits, Completion.operation,
        List.erase_cons_head]
      exact mapError_ok.mpr handled
  | readError there reading =>
      obtain ⟨rfl, rfl⟩ := Prod.mk.inj (Option.some.inj about)
      refine ⟨_, _, there, rfl, ?_⟩
      simp [Session.step, RequestWorker.session, reading, Completion.operation, Session.handle,
        Session.delete]
  | @written j done w there writing =>
      obtain ⟨rfl, rfl⟩ := Prod.mk.inj (Option.some.inj about)
      refine ⟨w, _, there, rfl, ?_⟩
      cases done <;> simp [Session.step, RequestWorker.session, writing, Completion.operation,
        Session.handle, Session.delete, Session.arm]

theorem reach_session (h : Reach step Anything {} s) : ∀ w ∈ s.workers, ∃ recvData sendData,
    Reach Session.step Anything (Session.start recvData sendData) w.session := by
  induction h with
  | refl => simp
  | @tail s s' e before guard ok ih =>
      cases about : e.completion s.files with
      | none =>
          cases e with
          | accept recvData sendData =>
              obtain rfl := Except.ok.inj ok
              intro w member
              rcases List.mem_append.mp member with old | new
              · exact ih w old
              · obtain rfl := List.mem_singleton.mp new
                exact ⟨recvData, sendData, .refl⟩
          | read i received disk | readError i | written i done => contradiction
      | some target =>
          obtain ⟨w, w', there, workers, moved⟩ := step_session ok about
          rw [workers]
          refine Threads.forall_step ih ?_
          obtain ⟨recvData, sendData, reached⟩ := ih w (List.mem_of_getElem? there)
          exact ⟨recvData, sendData, reached.tail guard moved⟩

end RequestServer

end SimpleP2P
