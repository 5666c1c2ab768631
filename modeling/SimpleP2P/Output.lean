import SimpleP2P.GeneralTypes
import SimpleP2P.Library.Mailbox

namespace SimpleP2P
open Library

inductive Sink
  | printer
  | logger
  deriving DecidableEq, Repr

namespace Sink

def write : Sink → Bytes → Bytes
  | .printer, line => line
  | .logger, line => line ++ "\n".toUTF8.toList

end Sink

/-- The element that `add_log_line` makes of a line. `ctime` ends its text with a newline, which is cut
off. -/
def logLine (ctime : Int → Bytes) (line : Bytes) (time : Int) : Bytes :=
  "[".toUTF8.toList ++ (ctime time).dropLast ++ "] ".toUTF8.toList ++ line

structure Output where
  mailbox : Sink → Mailbox Bytes := fun _ => {}

namespace Output

inductive Event
  | print (line : Bytes)
  | addLogLine (line : Bytes) (time : Int)
  /-- A step of the thread of the printer or of the logging module. -/
  | worker (sink : Sink)
  | wake (sink : Sink)
  deriving DecidableEq, Repr

def deliver (o : Output) (sink : Sink) (e : Mailbox.Event Bytes) : Except Halt Output := do
  let mailbox ← (o.mailbox sink).step e
  return { mailbox := Function.update o.mailbox sink mailbox }

def step (ctime : Int → Bytes) (o : Output) : Event → Except Halt Output
  | .print line => o.deliver .printer (.push line)
  | .addLogLine line time => o.deliver .logger (.push (logLine ctime line time))
  | .worker sink => o.deliver sink .consume
  | .wake sink => o.deliver sink .wake

def stream (o : Output) (sink : Sink) : Bytes := (o.mailbox sink).taken.flatMap sink.write

def requested (o : Output) (sink : Sink) : List Bytes :=
  (o.mailbox sink).early ++ (o.mailbox sink).later

/-- A stream has a first part of what was requested; it lacks something while its thread waits only if
nothing has been requested since the thread first waited. -/
structure Faithful (o : Output) (sink : Sink) : Prop where
  order : (o.requested sink).flatMap sink.write =
    o.stream sink ++ (o.mailbox sink).queue.flatMap sink.write
  waiting : (o.mailbox sink).pc = .waiting →
    o.stream sink = (o.requested sink).flatMap sink.write ∨
      o.stream sink = [] ∧ (o.mailbox sink).later = []

variable {ctime : Int → Bytes} {o o' : Output} {sink : Sink}

inductive Move (o o' : Output) (sink : Sink) (e : Event) : Prop
  | other : o'.mailbox sink = o.mailbox sink → e ≠ .worker sink → Move o o' sink e
  | own {e' : Mailbox.Event Bytes} : (o.mailbox sink).step e' = .ok (o'.mailbox sink) →
      (e = .worker sink → e' = .consume) → Move o o' sink e

theorem deliver_move {chosen : Sink} {e : Event} {e' : Mailbox.Event Bytes}
    (ok : o.deliver chosen e' = .ok o') (own : e = .worker sink → e' = .consume)
    (other : e = .worker sink → chosen = sink) : Move o o' sink e := by
  obtain ⟨mailbox, moved, ended⟩ := bind_eq_ok.mp ok
  obtain rfl := Except.ok.inj ended
  by_cases mine : sink = chosen
  · subst mine
    exact .own (by simpa using moved) own
  · exact .other (Function.update_of_ne mine _ _) fun same => mine (other same).symm

theorem step_move {e : Event} (ok : o.step ctime e = .ok o') (sink : Sink) : Move o o' sink e := by
  cases e with
  | print line => exact deliver_move ok nofun nofun
  | addLogLine line time => exact deliver_move ok nofun nofun
  | worker chosen => exact deliver_move ok (fun _ => rfl) fun same => Event.worker.inj same
  | wake chosen => exact deliver_move ok nofun nofun

theorem reach_inOrder (h : Reach (step ctime) Anything {} o) (sink : Sink) :
    (o.mailbox sink).InOrder := by
  induction h with
  | refl => exact .empty
  | tail _ _ ok ih =>
      cases step_move ok sink with
      | other same _ => exact same ▸ ih
      | own moved _ => exact ih.step moved

theorem reach_faithful (h : Reach (step ctime) Anything {} o) (sink : Sink) : o.Faithful sink := by
  have inOrder := reach_inOrder h sink
  refine ⟨?_, fun waiting => ?_⟩
  · rw [requested, ← inOrder.order, List.flatMap_append, stream]
  · rcases inOrder.waiting waiting with empty | ⟨untaken, quiet⟩
    · left
      rw [requested, ← inOrder.order, empty, List.append_nil, stream]
    · right
      exact ⟨by rw [stream, untaken]; rfl, quiet⟩

theorem lines_before_wait_faithful : ∃ o : Output, (o.mailbox .logger).pc = .waiting ∧
    (o.mailbox .logger).queue ≠ [] ∧ o.Faithful .logger := by
  obtain ⟨o, run, ended⟩ := exists_reach_of_exec (step fun _ => [48, 10]) Anything {}
    [.addLogLine [65] 0, .print [66], .addLogLine [67] 0, .worker .logger]
    (fun o => (o.mailbox .logger).pc = .waiting ∧ (o.mailbox .logger).queue ≠ []) (by decide +kernel)
  obtain ⟨waiting, queue⟩ := of_decide_eq_true ended
  exact ⟨o, waiting, queue, reach_faithful run .logger⟩

/-! ## Delivery -/

theorem due_run (inOrder : (o.mailbox sink).InOrder) (since : (o.mailbox sink).later ≠ []) {count : Nat}
    (pushed : count ≤ (o.requested sink).length) {events : List Event}
    (run : events.foldlM (step ctime) o = .ok o') :
    (o'.mailbox sink).due count ≤ (o.mailbox sink).due count - events.count (.worker sink) ∧
      (o'.mailbox sink).InOrder ∧ o.requested sink <+: o'.requested sink := by
  induction events generalizing o with
  | nil =>
      obtain rfl := Except.ok.inj run
      exact ⟨by simp, inOrder, List.prefix_refl _⟩
  | cons e rest ih =>
      obtain ⟨next, first, later⟩ := bind_eq_ok.mp ((List.foldlM_cons ..).symm.trans run)
      cases step_move first sink with
      | other same foreign =>
          have kept : next.requested sink = o.requested sink := by rw [requested, same, requested]
          rw [← same] at inOrder since ⊢
          rw [← kept] at pushed ⊢
          rw [List.count_cons_of_ne foreign]
          exact ih inOrder since pushed later
      | @own e' moved own =>
          obtain ⟨since', grown⟩ := inOrder.pushed since moved
          obtain ⟨less, consumed⟩ := inOrder.due_step since pushed moved
          obtain ⟨rest', ended, grown'⟩ :=
            ih (inOrder.step moved) since' (Nat.le_trans pushed grown.length_le) later
          refine ⟨?_, ended, grown.trans grown'⟩
          by_cases mine : e = .worker sink
          · have := consumed (own mine)
            rw [mine, List.count_cons_self]
            omega
          · rw [List.count_cons_of_ne mine]
            omega

theorem reach_delivered (h : Reach (step ctime) Anything {} o) (sink : Sink)
    (since : (o.mailbox sink).later ≠ []) {events : List Event}
    (run : events.foldlM (step ctime) o = .ok o')
    (often : (o.mailbox sink).queue.length + 1 ≤ events.count (.worker sink)) :
    (o.requested sink).flatMap sink.write <+: o'.stream sink := by
  have inOrder := reach_inOrder h sink
  obtain ⟨due, inOrder', ⟨rest, grown⟩⟩ := due_run inOrder since (Nat.le_refl _) run
  have soon : (o.mailbox sink).due (o.requested sink).length ≤ (o.mailbox sink).queue.length + 1 :=
    inOrder.due_le
  have taken : (o.requested sink).length ≤ (o'.mailbox sink).taken.length :=
    Mailbox.due_eq_zero.mp (by omega)
  have order : o.requested sink ++ rest = (o'.mailbox sink).taken ++ (o'.mailbox sink).queue :=
    grown.trans inOrder'.order.symm
  obtain ⟨more, same⟩ := List.prefix_of_prefix_length_le ⟨rest, order⟩ (List.prefix_append _ _) taken
  rw [stream, ← same, List.flatMap_append]
  exact List.prefix_append _ _

/-- The text that came before the first wait goes out with the next one. -/
theorem late_text_delivered : ∃ o o' : Output, o.requested .printer = [[72], [73]] ∧
    (o.requested .printer).flatMap Sink.printer.write <+: o'.stream .printer := by
  let steps : List Event := List.replicate 3 (.worker .printer)
  obtain ⟨o, reached, ended⟩ := exists_reach_of_exec (step fun _ => [48, 10]) Anything {}
    [.print [72], .worker .printer, .print [73]]
    (fun o => o.requested .printer = [[72], [73]] ∧ (o.mailbox .printer).later ≠ [] ∧
      (o.mailbox .printer).queue.length + 1 ≤ steps.count (.worker .printer) ∧
      (steps.foldlM (step fun _ => [48, 10]) o).toBool = true) (by decide +kernel)
  obtain ⟨requested, since, often, ok⟩ := of_decide_eq_true ended
  cases run : steps.foldlM (step fun _ => [48, 10]) o with
  | error e => simp [run, Except.toBool] at ok
  | ok o' => exact ⟨o, o', requested, reach_delivered reached .printer since run often⟩

end Output

end SimpleP2P
