import SimpleP2P.Library.Threads
import SimpleP2P.Library.Transition

namespace SimpleP2P.Library

inductive ConsumerPc
  | starting
  | waiting
  | woken
  /-- The consumer has the mutex. -/
  | emptying
  deriving DecidableEq, Repr

/-- `early` and `later` are history: the items pushed before and since the first wait. -/
structure Mailbox (α : Type) where
  queue : List α := []
  taken : List α := []
  pc : ConsumerPc := .starting
  early : List α := []
  later : List α := []
  deriving DecidableEq

namespace Mailbox

variable {α : Type}

inductive Event (α : Type)
  | push (item : α)
  | consume
  /-- The wait ends without a notification. -/
  | wake
  deriving DecidableEq

def push (m : Mailbox α) (item : α) : Except Halt (Mailbox α) :=
  match m.pc with
  | .starting => .ok { m with queue := m.queue ++ [item], early := m.early ++ [item] }
  | .waiting | .woken =>
      .ok { m with queue := m.queue ++ [item], later := m.later ++ [item], pc := .woken }
  | .emptying => .error .blocked

def consume (m : Mailbox α) : Except Halt (Mailbox α) :=
  match m.pc, m.queue with
  | .starting, _ => .ok { m with pc := .waiting }
  | .waiting, _ => .error .blocked
  | .woken, _ => .ok { m with pc := .emptying }
  | .emptying, [] => .ok { m with pc := .waiting }
  | .emptying, item :: rest => .ok { m with queue := rest, taken := m.taken ++ [item] }

def step (m : Mailbox α) : Event α → Except Halt (Mailbox α)
  | .push item => m.push item
  | .consume => m.consume
  | .wake => if m.pc = .waiting then .ok { m with pc := .woken } else .error .blocked

inductive Move (m : Mailbox α) : Event α → Mailbox α → Prop
  | early (item : α) : m.pc = .starting →
      Move m (.push item) { m with queue := m.queue ++ [item], early := m.early ++ [item] }
  | later (item : α) : m.pc = .waiting ∨ m.pc = .woken → Move m (.push item)
      { m with queue := m.queue ++ [item], later := m.later ++ [item], pc := .woken }
  | start : m.pc = .starting → Move m .consume { m with pc := .waiting }
  | enter : m.pc = .woken → Move m .consume { m with pc := .emptying }
  | take {item : α} {rest : List α} : m.pc = .emptying → m.queue = item :: rest →
      Move m .consume { m with queue := rest, taken := m.taken ++ [item] }
  | wait : m.pc = .emptying → m.queue = [] → Move m .consume { m with pc := .waiting }
  | wake : m.pc = .waiting → Move m .wake { m with pc := .woken }

variable {m m' : Mailbox α} {e : Event α}

theorem step_move (ok : m.step e = .ok m') : Move m e m' := by
  cases e with
  | push item =>
      simp only [step, push] at ok
      cases pc : m.pc with
      | starting =>
          simp only [pc, Except.ok.injEq] at ok
          subst ok
          simpa only [pc] using Move.early item pc
      | waiting =>
          simp only [pc, Except.ok.injEq] at ok
          exact ok ▸ .later item (.inl pc)
      | woken =>
          simp only [pc, Except.ok.injEq] at ok
          exact ok ▸ .later item (.inr pc)
      | emptying => simp [pc] at ok
  | consume =>
      simp only [step, consume] at ok
      cases pc : m.pc with
      | starting =>
          simp only [pc, Except.ok.injEq] at ok
          exact ok ▸ .start pc
      | waiting => simp [pc] at ok
      | woken =>
          simp only [pc, Except.ok.injEq] at ok
          exact ok ▸ .enter pc
      | emptying =>
          cases queue : m.queue with
          | nil =>
              simp only [pc, queue, Except.ok.injEq] at ok
              subst ok
              simpa only [queue] using Move.wait pc queue
          | cons item rest =>
              simp only [pc, queue, Except.ok.injEq] at ok
              subst ok
              simpa only [pc] using Move.take pc queue
  | wake =>
      simp only [step] at ok
      split at ok
      · rename_i waiting
        exact Except.ok.inj ok ▸ .wake waiting
      · contradiction

/-- Nothing is lost or taken twice, and the consumer waits with items in the queue only where all of
them are older than its first wait. -/
structure InOrder (m : Mailbox α) : Prop where
  order : m.taken ++ m.queue = m.early ++ m.later
  starting : m.pc = .starting → m.taken = [] ∧ m.later = []
  waiting : m.pc = .waiting → m.queue = [] ∨ m.taken = [] ∧ m.later = []

theorem InOrder.empty : ({} : Mailbox α).InOrder := ⟨rfl, fun _ => ⟨rfl, rfl⟩, nofun⟩

theorem InOrder.step (h : m.InOrder) (ok : m.step e = .ok m') : m'.InOrder := by
  cases step_move ok with
  | early item starting =>
      obtain ⟨-, later⟩ := h.starting starting
      refine ⟨?_, h.starting, fun waiting => absurd (starting.symm.trans waiting) nofun⟩
      have order := h.order
      simp only [later, List.append_nil] at order ⊢
      rw [← List.append_assoc, order]
  | later item _ =>
      refine ⟨?_, nofun, nofun⟩
      rw [← List.append_assoc, h.order, List.append_assoc]
  | start starting => exact ⟨h.order, nofun, fun _ => .inr (h.starting starting)⟩
  | enter _ => exact ⟨h.order, nofun, nofun⟩
  | take emptying queue =>
      refine ⟨?_, fun starting => absurd (emptying.symm.trans starting) nofun,
        fun waiting => absurd (emptying.symm.trans waiting) nofun⟩
      have order := h.order
      rw [queue] at order
      rw [List.append_assoc]
      exact order
  | wait _ queue => exact ⟨h.order, nofun, fun _ => .inl queue⟩
  | wake _ => exact ⟨h.order, nofun, nofun⟩

/-! ## How long it takes -/

def due (m : Mailbox α) (count : Nat) : Nat :=
  if count ≤ m.taken.length then 0
  else count - m.taken.length + if m.pc = .woken then 1 else 0

theorem due_eq_zero {count : Nat} : m.due count = 0 ↔ count ≤ m.taken.length := by
  unfold due
  split <;> omega

theorem InOrder.due_le (h : m.InOrder) :
    m.due (m.early ++ m.later).length ≤ m.queue.length + 1 := by
  rw [← h.order, List.length_append, due]
  split
  · omega
  · split <;> omega

theorem InOrder.waiting_done (h : m.InOrder) (since : m.later ≠ []) (empty : m.pc = .waiting ∨ m.queue = []) :
    m.taken = m.early ++ m.later := by
  have queue : m.queue = [] := by
    rcases empty with waiting | queue
    · exact (h.waiting waiting).resolve_right fun ⟨_, quiet⟩ => since quiet
    · exact queue
  rw [← h.order, queue, List.append_nil]

theorem InOrder.pushed (h : m.InOrder) (since : m.later ≠ []) (ok : m.step e = .ok m') :
    m'.later ≠ [] ∧ m.early ++ m.later <+: m'.early ++ m'.later := by
  cases step_move ok with
  | early item starting => exact absurd (h.starting starting).2 since
  | later item _ =>
      refine ⟨by simp, [item], ?_⟩
      simp
  | start _ => exact ⟨since, List.prefix_refl _⟩
  | enter _ => exact ⟨since, List.prefix_refl _⟩
  | take _ _ => exact ⟨since, List.prefix_refl _⟩
  | wait _ _ => exact ⟨since, List.prefix_refl _⟩
  | wake _ => exact ⟨since, List.prefix_refl _⟩

theorem InOrder.due_step (h : m.InOrder) (since : m.later ≠ []) {count : Nat}
    (pushed : count ≤ (m.early ++ m.later).length) (ok : m.step e = .ok m') :
    m'.due count ≤ m.due count ∧ (e = .consume → m'.due count ≤ m.due count - 1) := by
  have done : m.pc = .waiting ∨ m.queue = [] → count ≤ m.taken.length := by
    intro empty
    rwa [h.waiting_done since empty]
  cases step_move ok with
  | early item starting => exact absurd (h.starting starting).2 since
  | later item awake =>
      refine ⟨?_, nofun⟩
      rcases awake with waiting | woken
      · have all := done (.inl waiting)
        simp [due, all]
      · simp [due, woken]
  | start starting => exact absurd (h.starting starting).2 since
  | enter woken =>
      simp only [due, woken, reduceCtorEq, if_true, if_false]
      split <;> omega
  | take emptying queue =>
      simp only [due, emptying, reduceCtorEq, if_false, List.length_append, List.length_singleton]
      split <;> split <;> omega
  | wait emptying queue =>
      have all := done (.inr queue)
      simp [due, all]
  | wake waiting =>
      have all := done (.inl waiting)
      simp [due, all]

end Mailbox

end SimpleP2P.Library
