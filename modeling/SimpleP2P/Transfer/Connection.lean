import SimpleP2P.Transfer.RequestWorker
import SimpleP2P.Library.Transition
import SimpleP2P.Library.Threads

namespace SimpleP2P
open Library

inductive Pending
  | reading
  | writing
  | nothing
  | deleted
  deriving DecidableEq, Repr

structure Connection where
  recvData : RecvData
  pending : Pending := .reading
  /-- The bytes sent by the downloader and not read by the server. -/
  inFlight : Bytes := []
  sent : List SegmentRequest := []
  answered : List SegmentRequest := []

namespace Connection

def start (recvData : RecvData) : Connection where
  recvData := recvData

inductive Event
  | request (id : SegmentId)
  /-- A read of the server completes with this many bytes; `served` is the result of the file manager. -/
  | read (count : Nat) (served : Bool)
  | written (ok : Bool)
  deriving DecidableEq, Repr

def step (resource : Resource) (c : Connection) : Event → Except Halt Connection
  | .request id =>
      if c.answered.length = c.sent.length then do
        let data ← (serializeSegmentRequest resource id).mapError .fault
        return { c with
          inFlight := c.inFlight ++ data
          sent := c.sent ++
            [{ fileName := resource.name, fileSize := resource.size, segment := id }] }
      else .error .blocked
  | .read count served =>
      if fits : c.pending = .reading ∧ 0 < count ∧ count ≤ c.inFlight.length ∧
          (c.inFlight.take count).length ≤ maxRecvDataLength then
        let recvData := c.recvData.receive (c.inFlight.take count) fits.2.2.2
        let c := { c with recvData, inFlight := c.inFlight.drop count }
        match handleRead recvData with
        | .answer request =>
            if served then .ok { c with pending := .writing, answered := c.answered ++ [request] }
            else .ok { c with pending := .deleted }
        | .quit _ => .ok { c with pending := .deleted }
        | .nothing => .ok { c with pending := .nothing }
      else .error .blocked
  | .written ok =>
      if c.pending = .writing then .ok { c with pending := if ok then .reading else .deleted }
      else .error .blocked

variable {resource : Resource} {c c' : Connection}

/-- The server answers the requests in the order they were sent, with the data they were made from,
and each request is answered when its bytes have been read. -/
structure AnswersAll (c : Connection) : Prop where
  inOrder : c.answered <+: c.sent
  complete : c.inFlight = [] → c.answered = c.sent

def Serves (_ : Connection) : Event → Prop
  | .read _ served => served = true
  | _ => True

def ReadsWhole (c : Connection) : Event → Prop
  | .read count served => count = c.inFlight.length ∧ served = true
  | _ => True

instance (c : Connection) : (e : Event) → Decidable (c.Serves e)
  | .read _ served => inferInstanceAs (Decidable (served = true))
  | .request _ => .isTrue trivial
  | .written _ => .isTrue trivial

instance (c : Connection) : (e : Event) → Decidable (c.ReadsWhole e)
  | .read count served => inferInstanceAs (Decidable (count = c.inFlight.length ∧ served = true))
  | .request _ => .isTrue trivial
  | .written _ => .isTrue trivial

def InTurn (resource : Resource) (c : Connection) : Prop :=
  c.inFlight = [] ∧ c.answered = c.sent ∨
    ∃ id, serializeSegmentRequest resource id = .ok c.inFlight ∧ c.sent = c.answered ++
      [{ fileName := resource.name, fileSize := resource.size, segment := id }]

theorem InTurn.answersAll (named : resource.WellNamed) (h : c.InTurn resource) : c.AnswersAll := by
  rcases h with ⟨empty, same⟩ | ⟨id, serialized, one⟩
  · exact ⟨same ▸ List.prefix_rfl, fun _ => same⟩
  · refine ⟨one ▸ List.prefix_append _ _, fun empty => ?_⟩
    rw [named.serialized id, empty] at serialized
    exact absurd (Except.ok.inj serialized) (List.cons_ne_nil _ _)

theorem InTurn.request (h : c.InTurn resource) {id : SegmentId}
    (ok : c.step resource (.request id) = .ok c') : c'.InTurn resource := by
  simp only [step] at ok
  split at ok
  · rename_i replied
    obtain ⟨data, serialized, eq⟩ := bind_eq_ok.mp ok
    have serialized := mapError_ok.mp serialized
    obtain rfl := Except.ok.inj eq
    rcases h with ⟨empty, same⟩ | ⟨other, -, one⟩
    · exact .inr ⟨id, by simpa [empty] using serialized, by simp [same]⟩
    · simp [one] at replied
  · contradiction

theorem InTurn.read (named : resource.WellNamed) (h : c.InTurn resource) {count : Nat} {served : Bool}
    (whole : c.ReadsWhole (.read count served)) (ok : c.step resource (.read count served) = .ok c') :
    c'.InTurn resource := by
  obtain ⟨rfl, rfl⟩ := whole
  simp only [step] at ok
  split at ok
  · rename_i fits
    rcases h with ⟨empty, -⟩ | ⟨id, serialized, one⟩
    · simp [empty] at fits
    · have taken := serialized
      rw [← List.take_length (l := c.inFlight)] at taken
      simp only [handleRead_receive named taken, if_true, Except.ok.injEq] at ok
      subst ok
      exact .inl ⟨List.drop_length, one.symm⟩
  · contradiction

theorem InTurn.step (named : resource.WellNamed) (h : c.InTurn resource) {e : Event}
    (whole : c.ReadsWhole e) (ok : c.step resource e = .ok c') : c'.InTurn resource := by
  cases e with
  | request id => exact h.request ok
  | read count served => exact h.read named whole ok
  | written done =>
      simp only [Connection.step] at ok
      split at ok
      · obtain rfl := Except.ok.inj ok
        exact h
      · contradiction

theorem reach_answersAll {recvData : RecvData} (named : resource.WellNamed)
    (h : Reach (step resource) ReadsWhole (start recvData) c) : c.AnswersAll := by
  have turn : c.InTurn resource :=
    h.invariant (.inl ⟨rfl, rfl⟩) fun _ _ _ turn whole ok => turn.step named whole ok
  exact turn.answersAll named

theorem answered_answersAll : ∃ c : Connection,
    c.answered = [{ fileName := [97], fileSize := 2048, segment := 0 },
      { fileName := [97], fileSize := 2048, segment := 1 },
      { fileName := [97], fileSize := 2048, segment := 0 }] ∧ c.AnswersAll := by
  obtain ⟨c, run, answered⟩ := exists_reach_of_exec (step { size := 2048, name := [97] }) ReadsWhole
    (start (.zeros _)) [.request 0, .read 267 true, .written true, .request 1, .read 267 true,
      .written true, .request 0, .read 267 true]
    (fun c => c.answered = [{ fileName := [97], fileSize := 2048, segment := 0 },
      { fileName := [97], fileSize := 2048, segment := 1 },
      { fileName := [97], fileSize := 2048, segment := 0 }]) (by decide +kernel)
  exact ⟨c, of_decide_eq_true answered, reach_answersAll (by decide) run⟩

/-- The last byte of the second request arrives late, and the first segment is sent again. -/
theorem answersAll_fails : ¬∀ (resource : Resource) (recvData : RecvData) (c : Connection),
    resource.WellNamed → Reach (step resource) Serves (start recvData) c → c.AnswersAll := by
  intro claim
  obtain ⟨c, run, wrong⟩ := exists_reach_of_exec (step { size := 2048, name := [97] }) Serves
    (start (.zeros _)) [.request 0, .read 267 true, .written true, .request 1, .read 266 true]
    (fun c => ¬c.answered <+: c.sent) (by decide +kernel)
  exact of_decide_eq_true wrong (claim _ _ c (by decide) run).inOrder

end Connection

end SimpleP2P
