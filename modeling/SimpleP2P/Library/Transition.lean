import Mathlib.Logic.Relation

/-!
# Runs of a partial step function

A program is a step function `σ → ε → Except κ σ` on states `σ` and events `ε`; an error of type
`κ` means that the event has no successor state. `Reach` collects the states of the runs all of
whose steps meet a condition on the state before the step, and `Observed` adds a history variable
that no step reads.
-/

namespace SimpleP2P.Library

universe v

variable {σ ε κ η : Type*}

inductive Reach (step : σ → ε → Except κ σ) (allowed : σ → ε → Prop) (start : σ) : σ → Prop
  | refl : Reach step allowed start start
  | tail {s s' : σ} {e : ε} : Reach step allowed start s → allowed s e → step s e = .ok s' →
      Reach step allowed start s'

abbrev Anything (_ : σ) (_ : ε) : Prop := True

namespace Reach

variable {step : σ → ε → Except κ σ} {allowed : σ → ε → Prop} {start s : σ}

theorem invariant {Inv : σ → Prop} (h : Reach step allowed start s) (initial : Inv start)
    (preserved : ∀ s e s', Inv s → allowed s e → step s e = .ok s' → Inv s') : Inv s := by
  induction h with
  | refl => exact initial
  | tail _ guard move ih => exact preserved _ _ _ ih guard move

theorem mono {allowed' : σ → ε → Prop} (h : Reach step allowed start s)
    (weaker : ∀ s e, allowed s e → allowed' s e) : Reach step allowed' start s := by
  induction h with
  | refl => exact .refl
  | tail _ guard move ih => exact ih.tail (weaker _ _ guard) move

end Reach

def exec (step : σ → ε → Except κ σ) (allowed : σ → ε → Prop) [∀ s e, Decidable (allowed s e)] :
    σ → List ε → Option σ
  | s, [] => some s
  | s, e :: rest =>
      if allowed s e then
        match step s e with
        | .ok s' => exec step allowed s' rest
        | .error _ => none
      else none

theorem reach_of_exec (step : σ → ε → Except κ σ) (allowed : σ → ε → Prop)
    [∀ s e, Decidable (allowed s e)] {start s s' : σ} (h : Reach step allowed start s)
    (events : List ε) (run : exec step allowed s events = some s') :
    Reach step allowed start s' := by
  induction events generalizing s with
  | nil =>
      obtain rfl : s = s' := by simpa [exec] using run
      exact h
  | cons e rest ih =>
      simp only [exec] at run
      split at run
      · rename_i guard
        cases move : step s e with
        | error failure => simp [move] at run
        | ok next => exact ih (.tail h guard move) (by simpa [move] using run)
      · contradiction

theorem exists_reach_of_exec (step : σ → ε → Except κ σ) (allowed : σ → ε → Prop)
    [∀ s e, Decidable (allowed s e)] (start : σ) (events : List ε) (test : σ → Bool)
    (run : (exec step allowed start events).any test = true) :
    ∃ s, Reach step allowed start s ∧ test s = true := by
  cases ended : exec step allowed start events with
  | none => simp [ended] at run
  | some s => exact ⟨s, reach_of_exec step allowed .refl events ended, by simpa [ended] using run⟩

def failsWith {α : Type*} [DecidableEq κ] (x : Except κ α) (failure : κ) : Bool :=
  match x with
  | .error e => e = failure
  | .ok _ => false

@[simp] theorem failsWith_iff {α : Type*} [DecidableEq κ] {x : Except κ α} {failure : κ} :
    failsWith x failure = true ↔ x = .error failure := by
  cases x <;> simp [failsWith]

theorem map_eq_ok {α β : Type*} {x : Except κ α} {f : α → β} {b : β} :
    x.map f = .ok b ↔ ∃ a, x = .ok a ∧ f a = b := by
  cases x <;> simp [Except.map]

theorem map_eq_error {α β : Type*} {x : Except κ α} {f : α → β} {e : κ} :
    x.map f = .error e ↔ x = .error e := by
  cases x <;> simp [Except.map]

theorem mapError_ok {α : Type*} {x : Except κ α} {f : κ → ε} {a : α} :
    x.mapError f = .ok a ↔ x = .ok a := by
  cases x with
  | error e => exact iff_of_false (by rintro ⟨⟩) (by rintro ⟨⟩)
  | ok b => exact ⟨by rintro ⟨⟩; rfl, by rintro ⟨⟩; rfl⟩

theorem bind_eq_ok {α β : Type v} {x : Except κ α} {f : α → Except κ β} {b : β} :
    x >>= f = .ok b ↔ ∃ a, x = .ok a ∧ f a = .ok b := by
  cases x <;> simp [bind, Except.bind]

theorem bind_eq_error {α β : Type v} {x : Except κ α} {f : α → Except κ β} {e : κ} :
    x >>= f = .error e ↔ x = .error e ∨ ∃ a, x = .ok a ∧ f a = .error e := by
  cases x <;> simp [bind, Except.bind]

theorem foldlM_invariant {σ κ : Type v} (Inv : σ → Prop) {f : σ → ε → Except κ σ}
    {events : List ε} {s s' : σ} (ok : events.foldlM f s = .ok s') (initial : Inv s)
    (preserved : ∀ s e s', e ∈ events → Inv s → f s e = .ok s' → Inv s') : Inv s' := by
  induction events generalizing s with
  | nil =>
      obtain rfl : s = s' := by simpa [pure, Except.pure] using ok
      exact initial
  | cons e rest ih =>
      rw [List.foldlM_cons] at ok
      obtain ⟨next, first, later⟩ := bind_eq_ok.mp ok
      exact ih later (preserved _ _ _ List.mem_cons_self initial first)
        fun _ _ _ member => preserved _ _ _ (List.mem_cons_of_mem _ member)

def observed (step : σ → ε → Except κ σ) (note : σ → ε → η → η) (p : σ × η) (e : ε) :
    Except κ (σ × η) :=
  (step p.1 e).map fun s => (s, note p.1 e p.2)

theorem observed_ok {step : σ → ε → Except κ σ} {note : σ → ε → η → η} {p q : σ × η} {e : ε} :
    observed step note p e = .ok q ↔ step p.1 e = .ok q.1 ∧ q.2 = note p.1 e p.2 := by
  obtain ⟨s, n⟩ := q
  simp only [observed, map_eq_ok, Prod.mk.injEq]
  constructor
  · rintro ⟨next, move, rfl, rfl⟩
    exact ⟨move, rfl⟩
  · rintro ⟨move, rfl⟩
    exact ⟨s, move, rfl, rfl⟩

end SimpleP2P.Library
