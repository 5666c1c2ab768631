import SimpleP2P.HostBans
import SimpleP2P.Download.Model

namespace SimpleP2P
open Library

/-- The time point for which the wait is meant: the present one. -/
def HostDelays.getBanTimePoint (_ : HostDelays) (now : Int) : Int := now

inductive SuspensionPc
  | loopTest
  | banTest
  | deadline
  | waiting (deadline : Int)
  | calling
  /-- In `get_segment` or with the segment it returned. -/
  | inside
  | finished
  deriving DecidableEq, Repr

def SuspensionPc.isWaiting : SuspensionPc → Bool
  | .waiting _ => true
  | _ => false

structure Suspension where
  host : HostDelays
  now : Int
  closed : Bool := false
  pc : SuspensionPc := .loopTest
  deriving DecidableEq, Repr

namespace Suspension

def start (host : HostDelays) (now : Int) : Suspension := { host, now }

/-- A step of the worker; `again` is whether it goes back to the head of its loop. -/
def advance (s : Suspension) (again : Bool) : Except Halt SuspensionPc :=
  match s.pc with
  | .loopTest => .ok (if s.closed then .finished else .banTest)
  | .banTest => .ok (if s.host.isRetarded s.now then .deadline else .calling)
  | .deadline => .ok (.waiting (s.host.getBanTimePoint s.now))
  | .waiting deadline => if s.closed ∨ deadline ≤ s.now then .ok .calling else .error .blocked
  | .calling => .ok .inside
  | .inside => .ok (if again then .loopTest else .finished)
  | .finished => .error .blocked

inductive Event
  | worker (again : Bool)
  | tick (now : Int)
  | timeout
  | close
  deriving DecidableEq, Repr

def step (s : Suspension) : Event → Except Halt Suspension
  | .worker again => do return { s with pc := ← s.advance again }
  | .tick now => if s.now ≤ now then .ok { s with now } else .error .blocked
  | .timeout => .ok { s with host := s.host.increaseTimeoutCounter s.now }
  | .close => .ok { s with closed := true }

def Free (s : Suspension) : Prop := s.host.isRetarded s.now = false ∨ s.closed = true

instance (s : Suspension) : Decidable s.Free :=
  inferInstanceAs (Decidable (s.host.isRetarded s.now = false ∨ s.closed = true))

def CallsRightly (s : Suspension) : Prop := s.pc = .calling → s.Free

/-- The wait is not left before the ban is over, and no ban comes between the test and the call. -/
def SuspendsRightly (s : Suspension) : Event → Prop
  | .worker _ => s.pc.isWaiting = true → s.Free
  | .timeout => s.pc = .calling →
      s.closed = true ∨ (s.host.timeoutCounter + 1).toInt < timeoutCounterLimit
  | .tick _ | .close => True

instance (s : Suspension) : (e : Event) → Decidable (s.SuspendsRightly e)
  | .worker _ => inferInstanceAs (Decidable (s.pc.isWaiting = true → s.Free))
  | .timeout => inferInstanceAs (Decidable (s.pc = .calling →
      s.closed = true ∨ (s.host.timeoutCounter + 1).toInt < timeoutCounterLimit))
  | .tick _ | .close => .isTrue trivial

variable {s s' : Suspension}

theorem isRetarded_later {host : HostDelays} {now later : Int} (free : host.isRetarded now = false)
    (after : now ≤ later) : host.isRetarded later = false := by
  have ended : ¬now < host.banTime := of_decide_eq_false free
  exact decide_eq_false (by omega)

theorem isRetarded_increase {host : HostDelays} {now : Int} (free : host.isRetarded now = false) :
    (host.increaseTimeoutCounter now).isRetarded now = false ↔
      (host.timeoutCounter + 1).toInt < timeoutCounterLimit := by
  unfold HostDelays.increaseTimeoutCounter
  dsimp only
  split
  · rename_i limit
    have banned : ¬decide (now < now + 1) = false := by simp
    exact iff_of_false banned (by omega)
  · rename_i below
    exact iff_of_true free (by omega)

theorem advance_callsRightly_iff {again : Bool} {pc : SuspensionPc} (ok : s.advance again = .ok pc) :
    CallsRightly { s with pc } ↔ (s.pc.isWaiting = true → s.Free) := by
  unfold advance at ok
  cases here : s.pc with
  | waiting deadline =>
      simp only [here] at ok
      split at ok
      · obtain rfl := Except.ok.inj ok
        simp [CallsRightly, SuspensionPc.isWaiting, Free]
      · contradiction
  | banTest =>
      simp only [here] at ok
      obtain rfl := Except.ok.inj ok
      cases banned : s.host.isRetarded s.now <;>
        simp [CallsRightly, SuspensionPc.isWaiting, Free, banned]
  | loopTest | inside =>
      simp only [here] at ok
      obtain rfl := Except.ok.inj ok
      split <;> simp [CallsRightly, SuspensionPc.isWaiting]
  | deadline | calling =>
      simp only [here] at ok
      obtain rfl := Except.ok.inj ok
      simp [CallsRightly, SuspensionPc.isWaiting]
  | finished =>
      simp only [here] at ok
      contradiction

theorem step_callsRightly_iff (h : s.CallsRightly) {e : Event} (ok : s.step e = .ok s') :
    s'.CallsRightly ↔ s.SuspendsRightly e := by
  cases e with
  | worker again =>
      obtain ⟨pc, advanced, eq⟩ := bind_eq_ok.mp ok
      obtain rfl := Except.ok.inj eq
      exact advance_callsRightly_iff advanced
  | tick now =>
      simp only [step] at ok
      split at ok
      · rename_i later
        obtain rfl := Except.ok.inj ok
        refine iff_of_true (fun calling => ?_) trivial
        exact (h calling).imp_left fun free => isRetarded_later free later
      · contradiction
  | timeout =>
      obtain rfl := Except.ok.inj ok
      refine forall_congr' fun calling => ?_
      rcases h calling with free | closed
      · rw [Free, isRetarded_increase free, or_comm]
      · exact iff_of_true (.inr closed) (.inl closed)
  | close =>
      obtain rfl := Except.ok.inj ok
      exact iff_of_true (fun _ => .inr rfl) trivial

theorem reach_callsRightly {host : HostDelays} {now : Int}
    (h : Reach step SuspendsRightly (start host now) s) : s.CallsRightly := by
  induction h with
  | refl => exact fun calling => by contradiction
  | tail _ rightly ok ih => exact (step_callsRightly_iff ih ok).mpr rightly

/-- A host that has timed out twenty times is banned for a second, which the worker waits for. -/
theorem waited_callsRightly : ∃ s : Suspension, s.pc = .calling ∧ s.CallsRightly := by
  obtain ⟨s, run, calling⟩ := exists_reach_of_exec step SuspendsRightly
    (start (.constructed 0) 5)
    (List.replicate 20 .timeout ++
      [.worker true, .worker true, .worker true, .tick 6, .worker true])
    (fun s => s.pc = .calling) (by decide +kernel)
  exact ⟨s, of_decide_eq_true calling, reach_callsRightly run⟩

/-- The same host, and a worker whose wait is over at once. -/
theorem callsRightly_fails : ¬∀ (host : HostDelays) (now : Int) (s : Suspension),
    Reach step Anything (start host now) s → s.CallsRightly := by
  intro claim
  obtain ⟨s, run, banned⟩ := exists_reach_of_exec step (fun _ _ => True)
    (start (.constructed 0) 5)
    (List.replicate 20 .timeout ++ [.worker true, .worker true, .worker true, .worker true])
    (fun s => s.pc = .calling ∧ ¬s.Free) (by decide +kernel)
  obtain ⟨calling, notFree⟩ := of_decide_eq_true banned
  exact notFree (claim _ _ s run calling)

/-! ## The workers of a download -/

def ofWorker (w : DownloadWorker) (host : HostDelays) (now : Int) : Option Suspension :=
  match w.pc with
  | .loopTest => some { host, now, closed := w.closed, pc := .loopTest }
  | .banTest => some { host, now, closed := w.closed, pc := .banTest }
  | .banWait => some { host, now, closed := w.closed, pc := .deadline }
  | .completionTest _ => some { host, now, closed := w.closed, pc := .calling }
  | .finished => some { host, now, closed := w.closed, pc := .finished }
  | _ => none

theorem exec_reach (events : List Event) (run : exec step (fun _ _ => True) s events = some s') :
    Reach step Anything s s' :=
  reach_of_exec step (fun _ _ => True) .refl events run

/-- Up to the call of `get_segment` the steps of a worker are steps of its suspension. -/
theorem advance_reach {w w' : DownloadWorker} {completed : Bool} {host : HostDelays} {choice : Choice}
    (ok : w.advance completed host choice = .ok w') (here : ofWorker w host choice.now = some s)
    (before : s.pc ≠ .calling) : ∃ s', ofWorker w' host choice.now = some s' ∧
      Reach step Anything s s' := by
  unfold DownloadWorker.advance at ok
  cases pc : w.pc with
  | loopTest =>
      simp only [pc] at ok
      obtain rfl := Except.ok.inj ok
      obtain rfl : _ = s := Option.some.inj (by simpa only [ofWorker, pc] using here)
      cases closed : w.closed <;>
        exact ⟨_, rfl, exec_reach [.worker true] (by simp [exec, step, advance])⟩
  | banTest =>
      simp only [pc] at ok
      obtain rfl := Except.ok.inj ok
      obtain rfl : _ = s := Option.some.inj (by simpa only [ofWorker, pc] using here)
      cases banned : host.isRetarded choice.now <;>
        exact ⟨_, rfl, exec_reach [.worker true] (by simp [exec, step, advance, banned])⟩
  | banWait =>
      simp only [pc] at ok
      obtain rfl := Except.ok.inj ok
      obtain rfl : _ = s := Option.some.inj (by simpa only [ofWorker, pc] using here)
      exact ⟨_, rfl, exec_reach [.worker true, .worker true]
        (by simp [exec, step, advance, bind, Except.bind, pure, Except.pure, HostDelays.getBanTimePoint])⟩
  | completionTest notified =>
      obtain rfl : _ = s := Option.some.inj (by simpa only [ofWorker, pc] using here)
      contradiction
  | finished => simp [pc] at ok
  | _ => simp [ofWorker, pc] at here

end Suspension

end SimpleP2P
