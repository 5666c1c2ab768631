import SimpleP2P.Library.Threads
import SimpleP2P.Library.Transition
import Mathlib.Algebra.Ring.Nat

namespace SimpleP2P.Library

section Runs

variable {σ κ : Type} {ε : Type*} {step : σ → ε → Except κ σ} {allowed : ε → Prop} {Inv : σ → Prop}
variable {measure : σ → Nat}

def Quiet (step : σ → ε → Except κ σ) (allowed : ε → Prop) (s : σ) : Prop :=
  ∀ e s', allowed e → step s e ≠ .ok s'

def Decreases (step : σ → ε → Except κ σ) (allowed : ε → Prop) (Inv : σ → Prop) (measure : σ → Nat) :
    Prop :=
  ∀ s e s', Inv s → allowed e → step s e = .ok s' → Inv s' ∧ measure s' < measure s

theorem Decreases.length_le (h : Decreases step allowed Inv measure) {events : List ε} {s s' : σ}
    (inv : Inv s) (all : ∀ e ∈ events, allowed e) (run : events.foldlM step s = .ok s') :
    events.length + measure s' ≤ measure s ∧ Inv s' := by
  induction events generalizing s with
  | nil =>
      obtain rfl := Except.ok.inj run
      exact ⟨by simp, inv⟩
  | cons e rest ih =>
      obtain ⟨next, first, later⟩ := bind_eq_ok.mp ((List.foldlM_cons ..).symm.trans run)
      obtain ⟨kept, less⟩ := h s e next inv (all e (by simp)) first
      obtain ⟨bound, ended⟩ := ih kept (fun e member => all e (List.mem_cons_of_mem _ member)) later
      refine ⟨?_, ended⟩
      rw [List.length_cons]
      omega

theorem Decreases.exists_quiet (h : Decreases step allowed Inv measure) {s : σ} (inv : Inv s) :
    ∃ (events : List ε) (s' : σ), (∀ e ∈ events, allowed e) ∧ events.foldlM step s = .ok s' ∧
      Inv s' ∧ Quiet step allowed s' := by
  induction left : measure s using Nat.strongRecOn generalizing s with
  | _ n ih =>
      by_cases quiet : Quiet step allowed s
      · exact ⟨[], s, by simp, rfl, inv, quiet⟩
      · simp only [Quiet, not_forall, not_not] at quiet
        obtain ⟨e, next, chosen, first⟩ := quiet
        obtain ⟨kept, less⟩ := h s e next inv chosen first
        obtain ⟨events, s', all, run, ended, quiet⟩ := ih _ (left ▸ less) kept rfl
        refine ⟨e :: events, s', ?_, ?_, ended, quiet⟩
        · intro e' member
          rcases List.mem_cons.mp member with rfl | later
          · exact chosen
          · exact all e' later
        · rw [List.foldlM_cons, first]
          exact run

end Runs

namespace Threads

variable {τ : Type*} {threads threads' : List τ} {t t' : τ} {i : Nat}

theorem sum_step (rank : τ → Nat) (t' : τ) (there : threads[i]? = some t) :
    ((threads.set i t').map rank).sum + rank t = (threads.map rank).sum + rank t' := by
  induction threads generalizing i with
  | nil => simp at there
  | cons head rest ih =>
      cases i with
      | zero =>
          obtain rfl : head = t := by simpa using there
          simp only [List.set_cons_zero, List.map_cons, List.sum_cons]
          omega
      | succ i =>
          have later := ih (i := i) (by simpa using there)
          simp only [List.set_cons_succ, List.map_cons, List.sum_cons]
          omega

theorem sum_le {rank : τ → Nat} {cap : Nat} (bounded : ∀ t, rank t ≤ cap) (threads : List τ) :
    (threads.map rank).sum ≤ threads.length * cap := by
  induction threads with
  | nil => simp
  | cons head rest ih =>
      rw [List.map_cons, List.sum_cons, List.length_cons, Nat.succ_mul]
      have := bounded head
      omega

/-- A thread that has something to spend can once undo what the others have done. -/
def weight (rank : τ → Nat) (cap : Nat) (spends : τ → Bool) (threads : List τ) : Nat :=
  threads.countP spends * (threads.length * cap + 1) + (threads.map rank).sum

variable {rank : τ → Nat} {cap : Nat} {spends : τ → Bool}

theorem weight_own (there : threads[i]? = some t) (less : rank t' < rank t)
    (kept : spends t' = true → spends t = true) :
    weight rank cap spends (threads.set i t') < weight rank cap spends threads := by
  have sum := sum_step rank t' there
  have count := countP_step spends t' there
  have fewer : (threads.set i t').countP spends ≤ threads.countP spends := by
    cases after : spends t' <;> cases before : spends t <;> simp [after, before] at count kept <;> omega
  have scaled := Nat.mul_le_mul_right (threads.length * cap + 1) fewer
  simp only [weight, List.length_set]
  omega

theorem weight_spend (bounded : ∀ t, rank t ≤ cap) (length : threads'.length = threads.length)
    (fewer : threads'.countP spends < threads.countP spends) :
    weight rank cap spends threads' < weight rank cap spends threads := by
  have sum := sum_le bounded threads'
  have scaled := Nat.mul_le_mul_right (threads.length * cap + 1) fewer
  rw [Nat.succ_mul] at scaled
  simp only [weight, length] at sum ⊢
  omega

theorem weight_le (bounded : ∀ t, rank t ≤ cap) (threads : List τ) : weight rank cap spends threads ≤
    threads.length * (threads.length * cap + 1) + threads.length * cap := by
  have sum := sum_le bounded threads
  have scaled := Nat.mul_le_mul_right (threads.length * cap + 1)
    (List.countP_le_length (p := spends) (l := threads))
  simp only [weight]
  omega

end Threads

end SimpleP2P.Library
