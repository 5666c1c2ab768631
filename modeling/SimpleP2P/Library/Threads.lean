import SimpleP2P.Library.Memory

namespace SimpleP2P.Library

inductive Halt
  | blocked
  | fault (f : Fault)
  deriving DecidableEq, Repr

theorem mapError_fault {α : Type*} {x : Except Fault α} {f : Fault} :
    x.mapError Halt.fault = .error (.fault f) ↔ x = .error f := by
  cases x <;> simp [Except.mapError]

namespace Threads

variable {τ : Type*} {threads : List τ} {t t' u : τ} {i j : Nat}

theorem getElem?_step (h : (threads.set i t')[j]? = some u) :
    (j = i ∧ u = t') ∨ (j ≠ i ∧ threads[j]? = some u) := by
  by_cases same : i = j
  · subst same
    rw [List.getElem?_set_self'] at h
    cases there : threads[i]? with
    | none => simp [there] at h
    | some t => exact .inl ⟨rfl, by simpa [there, eq_comm] using h⟩
  · exact .inr ⟨Ne.symm same, by rwa [List.getElem?_set_ne same] at h⟩

theorem forall_step {P : τ → Prop} (h : ∀ u ∈ threads, P u) (own : P t') :
    ∀ u ∈ threads.set i t', P u := by
  intro u member
  rcases List.mem_or_eq_of_mem_set member with old | rfl
  · exact h u old
  · exact own

theorem exists_step (P : τ → Prop) (there : threads[i]? = some t) (own : P t' → P t)
    (h : ∃ u ∈ threads.set i t', P u) : ∃ u ∈ threads, P u := by
  obtain ⟨u, member, holds⟩ := h
  rcases List.mem_or_eq_of_mem_set member with old | rfl
  · exact ⟨u, old, holds⟩
  · exact ⟨t, List.mem_of_getElem? there, own holds⟩

theorem countP_step (p : τ → Bool) (t' : τ) (there : threads[i]? = some t) :
    (threads.set i t').countP p + (if p t then 1 else 0) =
      threads.countP p + (if p t' then 1 else 0) := by
  obtain ⟨inside, rfl⟩ := List.getElem?_eq_some_iff.mp there
  have member : p threads[i] = true → 0 < threads.countP p := fun holds =>
    List.countP_pos_iff.mpr ⟨_, List.getElem_mem inside, holds⟩
  rw [List.countP_set inside]
  split
  · rename_i holds
    have positive := member holds
    omega
  · omega

theorem exists_set_iff (inside : i < threads.length) (P : τ → Prop) :
    (∃ u ∈ threads.set i t', P u) ↔ P t' ∨ ∃ j u, j ≠ i ∧ threads[j]? = some u ∧ P u := by
  constructor
  · rintro ⟨u, member, holds⟩
    obtain ⟨j, there⟩ := List.mem_iff_getElem?.mp member
    rcases getElem?_step there with ⟨-, rfl⟩ | ⟨other, there⟩
    · exact .inl holds
    · exact .inr ⟨j, u, other, there, holds⟩
  · rintro (own | ⟨j, u, other, there, holds⟩)
    · exact ⟨t', List.mem_set inside t', own⟩
    · refine ⟨u, List.mem_of_getElem? (i := j) ?_, holds⟩
      rwa [List.getElem?_set_ne (Ne.symm other)]

theorem exists_iff (there : threads[i]? = some t) (P : τ → Prop) :
    (∃ u ∈ threads, P u) ↔ P t ∨ ∃ j u, j ≠ i ∧ threads[j]? = some u ∧ P u := by
  obtain ⟨inside, rfl⟩ := List.getElem?_eq_some_iff.mp there
  rw [← exists_set_iff inside, List.set_getElem_self]

/-! ## Two lists of the same threads -/

section Zip

variable {α β : Type*} {as : List α} {bs : List β} {a : α} {b : β}

theorem zip_set (as : List α) (bs : List β) (i : Nat) (a : α) (b : β) :
    (as.set i a).zip (bs.set i b) = (as.zip bs).set i (a, b) := by
  induction as generalizing bs i with
  | nil => simp
  | cons head as ih =>
      cases bs with
      | nil => simp
      | cons head' bs =>
          cases i with
          | zero => simp
          | succ i => simp [ih]

theorem zip_set_left (there : (as.zip bs)[i]? = some (a, b)) (a' : α) :
    (as.set i a').zip bs = (as.zip bs).set i (a', b) := by
  obtain ⟨-, here⟩ := List.getElem?_zip_eq_some.mp there
  obtain ⟨inside, rfl⟩ := List.getElem?_eq_some_iff.mp here
  rw [← zip_set, List.set_getElem_self]

theorem zip_set_right (there : (as.zip bs)[i]? = some (a, b)) (b' : β) :
    as.zip (bs.set i b') = (as.zip bs).set i (a, b') := by
  obtain ⟨here, -⟩ := List.getElem?_zip_eq_some.mp there
  obtain ⟨inside, rfl⟩ := List.getElem?_eq_some_iff.mp here
  rw [← zip_set, List.set_getElem_self]

end Zip

end Threads

end SimpleP2P.Library
