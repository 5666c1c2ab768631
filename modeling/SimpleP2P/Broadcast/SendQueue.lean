import SimpleP2P.GeneralTypes
import SimpleP2P.Library.Transition
import SimpleP2P.Library.Threads

namespace SimpleP2P
open Library

abbrev Packet := Bytes

inductive SendResult
  | success
  | operationAborted
  | failure
  deriving DecidableEq, Repr

structure SendQueue where
  txQueue : List Packet := []
  /-- The packets of the sends that are started and not completed. -/
  outstanding : List Packet := []
  /-- All arguments of `send` so far. -/
  packets : List Packet := []
  /-- All packets handed to the socket so far. -/
  handed : List Packet := []
  deriving DecidableEq, Repr

namespace SendQueue

/-- The address of the first byte is taken, which an empty packet does not have. -/
def transmit (q : SendQueue) : Except Fault SendQueue :=
  match q.txQueue with
  | [] | [] :: _ => .error .outOfBounds
  | front :: _ =>
      .ok { q with outstanding := q.outstanding ++ [front], handed := q.handed ++ [front] }

def send (q : SendQueue) (packet : Packet) : Except Fault SendQueue :=
  let queueEmpty := q.txQueue.isEmpty
  let q := { q with txQueue := q.txQueue ++ [packet], packets := q.packets ++ [packet] }
  if queueEmpty then q.transmit else .ok q

def writeHandler (q : SendQueue) (error : SendResult) : Except Fault SendQueue :=
  match q.txQueue with
  | [] => .error .outOfBounds
  | _ :: rest =>
      let q := { q with txQueue := rest }
      if error = .success ∧ ¬rest.isEmpty then q.transmit else .ok q

def writeCallback (q : SendQueue) (error : SendResult) : Except Fault SendQueue :=
  if error ≠ .operationAborted then q.writeHandler error else .ok q

inductive Event
  | send (packet : Packet)
  | completed (i : Nat) (error : SendResult)
  deriving DecidableEq, Repr

def step (q : SendQueue) : Event → Except Halt SendQueue
  | .send packet => (q.send packet).mapError .fault
  | .completed i error =>
      if i < q.outstanding.length then
        ({ q with outstanding := q.outstanding.eraseIdx i }.writeCallback error).mapError .fault
      else .error .blocked

variable {q q' : SendQueue}

/-- A queue with packets has one send outstanding, for its front; the socket gets the packets in
order, and all of them before it falls quiet. -/
structure SendsInTurn (q : SendQueue) : Prop where
  busy : q.txQueue ≠ [] ↔ q.outstanding.length = 1
  front : ∀ packet ∈ q.outstanding, q.txQueue.head? = some packet
  inOrder : q.handed <+: q.packets
  complete : q.outstanding = [] → q.handed = q.packets

def NotAborted (_ : SendQueue) : Event → Prop
  | .completed _ error => error ≠ .operationAborted
  | .send _ => True

def FailsLast (q : SendQueue) : Event → Prop
  | .completed _ error =>
      error ≠ .operationAborted ∧ (error = .failure → q.txQueue.length ≤ 1)
  | .send _ => True

instance (q : SendQueue) : (e : Event) → Decidable (q.NotAborted e)
  | .completed _ error => inferInstanceAs (Decidable (error ≠ .operationAborted))
  | .send _ => .isTrue trivial

instance (q : SendQueue) : (e : Event) → Decidable (q.FailsLast e)
  | .completed _ error => inferInstanceAs (Decidable (error ≠ .operationAborted ∧
      (error = .failure → q.txQueue.length ≤ 1)))
  | .send _ => .isTrue trivial

inductive Flowing (q : SendQueue) : Prop
  | idle : q.txQueue = [] → q.outstanding = [] → q.packets = q.handed → Flowing q
  | sending {front : Packet} {rest : List Packet} : q.txQueue = front :: rest →
      q.outstanding = [front] → q.packets = q.handed ++ rest → Flowing q

theorem Flowing.sendsInTurn (h : q.Flowing) : q.SendsInTurn := by
  cases h with
  | idle queue outstanding packets =>
      exact ⟨by simp [queue, outstanding], by simp [outstanding], packets ▸ List.prefix_rfl,
        fun _ => packets.symm⟩
  | sending queue outstanding packets =>
      exact ⟨by simp [queue, outstanding], by simp [queue, outstanding],
        packets ▸ List.prefix_append _ _, fun quiet => by simp [outstanding] at quiet⟩

theorem transmit_flowing {front : Packet} {rest : List Packet} (ok : q.transmit = .ok q')
    (queue : q.txQueue = front :: rest) (quiet : q.outstanding = [])
    (packets : q.packets = q.handed ++ front :: rest) : q'.Flowing := by
  unfold transmit at ok
  split at ok
  · contradiction
  · contradiction
  · rename_i first _ same
    obtain ⟨rfl, rfl⟩ := List.cons.inj (same.symm.trans queue)
    obtain rfl := Except.ok.inj ok
    exact .sending queue (by simp [quiet]) (by simp [packets])

theorem Flowing.send (h : q.Flowing) {packet : Packet} (ok : q.send packet = .ok q') :
    q'.Flowing := by
  unfold SendQueue.send at ok
  cases h with
  | idle queue quiet packets =>
      simp only [queue, List.isEmpty_nil, if_true, List.nil_append] at ok
      exact transmit_flowing ok rfl quiet (by simp [packets])
  | @sending front rest queue outstanding packets =>
      simp only [queue, List.isEmpty_cons, Bool.false_eq_true, if_false] at ok
      obtain rfl := Except.ok.inj ok
      exact .sending (List.cons_append ..) outstanding (by simp [packets])

theorem Flowing.completed (h : q.Flowing) {i : Nat} {error : SendResult}
    (last : q.FailsLast (.completed i error)) (ok : q.step (.completed i error) = .ok q') :
    q'.Flowing := by
  obtain ⟨kept, failed⟩ := last
  simp only [SendQueue.step] at ok
  split at ok
  · rename_i inside
    have handled := mapError_ok.mp ok
    cases h with
    | idle queue quiet packets => simp [quiet] at inside
    | @sending front rest queue outstanding packets =>
        obtain rfl : i = 0 := by simpa [outstanding] using inside
        simp only [writeCallback, if_pos kept, writeHandler, queue, outstanding,
          List.eraseIdx_cons_zero] at handled
        split at handled
        · rename_i next
          obtain ⟨second, others, rfl⟩ := List.exists_cons_of_ne_nil (by simpa using next.2)
          exact transmit_flowing handled rfl rfl packets
        · rename_i stops
          obtain rfl := Except.ok.inj handled
          -- a success stops at an empty queue, and a failure leaves one
          have empty : rest = [] := by
            cases error with
            | success => simpa using stops
            | operationAborted => contradiction
            | failure => simpa [queue] using failed rfl
          exact .idle empty rfl (by simp [packets, empty])
  · contradiction

theorem Flowing.step (h : q.Flowing) {e : Event} (last : q.FailsLast e) (ok : q.step e = .ok q') :
    q'.Flowing := by
  cases e with
  | send packet => exact h.send (mapError_ok.mp ok)
  | completed i error => exact h.completed last ok

theorem reach_sendsInTurn (h : Reach step FailsLast {} q) : q.SendsInTurn := by
  have flowing : q.Flowing :=
    h.invariant (.idle rfl rfl rfl) fun _ _ _ flowing last ok => flowing.step last ok
  exact flowing.sendsInTurn

theorem sending_sendsInTurn : ∃ q : SendQueue, q.handed = [[1], [2]] ∧ q.SendsInTurn := by
  obtain ⟨q, run, handed⟩ := exists_reach_of_exec step FailsLast {}
    [.send [1], .send [2], .completed 0 .success] (fun q => q.handed = [[1], [2]]) (by decide)
  exact ⟨q, of_decide_eq_true handed, reach_sendsInTurn run⟩

/-- A transmission fails while another packet waits, which then stays in the queue for good. -/
theorem sendsInTurn_fails : ¬∀ q : SendQueue, Reach step NotAborted {} q → q.SendsInTurn := by
  intro claim
  obtain ⟨q, run, stranded⟩ := exists_reach_of_exec step NotAborted {}
    [.send [1], .send [2], .completed 0 .failure]
    (fun q => q.outstanding = [] ∧ q.handed ≠ q.packets) (by decide)
  obtain ⟨quiet, left⟩ := of_decide_eq_true stranded
  exact left ((claim q run).complete quiet)

end SendQueue

end SimpleP2P
