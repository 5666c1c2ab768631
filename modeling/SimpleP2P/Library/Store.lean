import Mathlib.Data.List.Nodup
import Mathlib.Order.Basic

/-!
# Vectors of shared objects

A `Store` is a vector of shared pointers that own their objects. A pointer is the number of the
allocation that made its object, so a weak pointer to a removed object stays different from every
pointer to a later one; `lookup` is the lock of a weak pointer.
-/

namespace SimpleP2P.Library

structure Shared (α : Type*) where
  ptr : Nat
  obj : α
  deriving DecidableEq, Repr

/-- Objects with distinct identities, all of them allocated before `next`. -/
structure Store (α : Type*) where
  objects : List (Shared α)
  next : Nat
  nodup : (objects.map Shared.ptr).Nodup
  fresh : ∀ o ∈ objects, o.ptr < next

namespace Store

variable {α β : Type*}

def empty : Store α := ⟨[], 0, List.nodup_nil, by simp⟩

def lookup (s : Store α) (p : Nat) : Option α :=
  (s.objects.find? fun o => o.ptr == p).map Shared.obj

def find? (s : Store α) (test : α → Bool) : Option (Shared α) :=
  s.objects.find? fun o => test o.obj

def push (s : Store α) (a : α) : Store α where
  objects := s.objects ++ [⟨s.next, a⟩]
  next := s.next + 1
  nodup := by
    rw [List.map_append, List.nodup_append]
    refine ⟨s.nodup, by simp, ?_⟩
    intro p old q new
    obtain ⟨o, member, rfl⟩ := List.mem_map.mp old
    obtain rfl : q = s.next := by simpa using new
    exact Nat.ne_of_lt (s.fresh o member)
  fresh := by
    intro o member
    rcases List.mem_append.mp member with old | new
    · exact Nat.lt_succ_of_lt (s.fresh o old)
    · obtain rfl : o = ⟨s.next, a⟩ := by simpa using new
      exact Nat.lt_succ_self _

def update (p : Nat) (f : α → α) (o : Shared α) : Shared α :=
  if o.ptr = p then ⟨o.ptr, f o.obj⟩ else o

@[simp] theorem update_ptr (p : Nat) (f : α → α) (o : Shared α) : (update p f o).ptr = o.ptr := by
  unfold update
  split <;> rfl

def modify (s : Store α) (p : Nat) (f : α → α) : Store α where
  objects := s.objects.map (update p f)
  next := s.next
  nodup := by
    rw [List.map_map, show Shared.ptr ∘ update p f = Shared.ptr from funext (update_ptr p f)]
    exact s.nodup
  fresh := by
    intro o member
    obtain ⟨old, oldMember, rfl⟩ := List.mem_map.mp member
    rw [update_ptr]
    exact s.fresh old oldMember

def erase (s : Store α) (p : Nat) : Store α where
  objects := s.objects.eraseP fun o => o.ptr == p
  next := s.next
  nodup := s.nodup.sublist (List.eraseP_sublist.map _)
  fresh := fun o member => s.fresh o (List.mem_of_mem_eraseP member)

/-- Change the objects of a list of weak pointers one after the other; each of them is locked. -/
def modifyAll {κ : Type*} (expired : κ) (f : α → α) : Store α → List Nat → Except κ (Store α)
  | s, [] => .ok s
  | s, p :: rest =>
      match s.lookup p with
      | none => .error expired
      | some _ => modifyAll expired f (s.modify p f) rest

variable {s : Store α} {p q : Nat} {a : α}

theorem ptr_injective {o o' : Shared α} (h : o ∈ s.objects) (h' : o' ∈ s.objects)
    (same : o.ptr = o'.ptr) : o = o' :=
  List.inj_on_of_nodup_map s.nodup h h' same

theorem lookup_eq_some : s.lookup p = some a ↔ ⟨p, a⟩ ∈ s.objects := by
  unfold lookup
  constructor
  · intro h
    obtain ⟨o, found, rfl⟩ := Option.map_eq_some_iff.mp h
    obtain rfl : o.ptr = p := by simpa using List.find?_some found
    exact List.mem_of_find?_eq_some found
  · intro member
    cases found : s.objects.find? fun o => o.ptr == p with
    | none => simpa using List.find?_eq_none.mp found _ member
    | some o =>
        have same : o.ptr = p := by simpa using List.find?_some found
        rw [ptr_injective (List.mem_of_find?_eq_some found) member same]
        rfl

theorem lookup_eq_none : s.lookup p = none ↔ ∀ a, (⟨p, a⟩ : Shared α) ∉ s.objects := by
  constructor
  · intro h a member
    rw [lookup_eq_some.mpr member] at h
    contradiction
  · intro h
    cases found : s.lookup p with
    | none => rfl
    | some a => exact absurd (lookup_eq_some.mp found) (h a)

@[simp] theorem lookup_empty : (empty : Store α).lookup p = none := rfl

theorem lookup_next : s.lookup s.next = none :=
  lookup_eq_none.mpr fun _ member => Nat.lt_irrefl _ (s.fresh _ member)

theorem lookup_push : (s.push a).lookup p = if p = s.next then some a else s.lookup p := by
  apply Option.ext
  intro b
  rw [lookup_eq_some]
  simp only [push, List.mem_append, List.mem_singleton, Shared.mk.injEq]
  split
  · rename_i here
    subst here
    have absent := lookup_eq_none.mp (lookup_next (s := s)) b
    simp [absent, eq_comm]
  · rename_i other
    simp [other, lookup_eq_some]

theorem lookup_modify (f : α → α) :
    (s.modify p f).lookup q = if q = p then (s.lookup q).map f else s.lookup q := by
  apply Option.ext
  intro b
  rw [lookup_eq_some]
  simp only [modify, List.mem_map]
  split
  · rename_i here
    subst here
    rw [Option.map_eq_some_iff]
    constructor
    · rintro ⟨o, member, same⟩
      obtain rfl : o.ptr = q := by simpa using congrArg Shared.ptr same
      refine ⟨o.obj, lookup_eq_some.mpr member, ?_⟩
      simpa [update] using congrArg Shared.obj same
    · rintro ⟨old, found, rfl⟩
      exact ⟨⟨q, old⟩, lookup_eq_some.mp found, by simp [update]⟩
  · rename_i other
    rw [lookup_eq_some]
    constructor
    · rintro ⟨o, member, same⟩
      obtain rfl : o.ptr = q := by simpa using congrArg Shared.ptr same
      simpa [update, other, ← same] using member
    · intro member
      exact ⟨⟨q, b⟩, member, by simp [update, other]⟩

theorem modify_eq_self {f : α → α} (there : s.lookup p = some a) (same : f a = a) :
    s.modify p f = s := by
  have objects : (s.modify p f).objects = s.objects := by
    refine (List.map_congr_left fun o member => ?_).trans (List.map_id _)
    unfold update
    split
    · rename_i here
      obtain rfl : o = ⟨p, a⟩ := ptr_injective member (lookup_eq_some.mp there) here
      simp [same]
    · rfl
  simp only [modify] at objects ⊢
  cases s
  simp_all

theorem lookup_erase : (s.erase p).lookup q = if q = p then none else s.lookup q := by
  have sub : (s.erase p).objects = s.objects.eraseP fun o => o.ptr == p := rfl
  split
  · rename_i here
    subst here
    rw [lookup_eq_none]
    intro b member
    rw [sub] at member
    have distinct : s.objects.Pairwise fun o o' => o.ptr ≠ o'.ptr := List.pairwise_map.mp s.nodup
    have old := List.mem_of_mem_eraseP member
    obtain ⟨o, before, after, none, hit, split, rest⟩ :=
      List.exists_of_eraseP old (p := fun o => o.ptr == q) (by simp)
    rw [rest] at member
    rw [split, List.pairwise_append, List.pairwise_cons] at distinct
    have here : o.ptr = q := by simpa using hit
    rcases List.mem_append.mp member with early | late
    · exact none _ early (by simp)
    · exact distinct.2.1.1 _ late (by simpa using here)
  · rename_i other
    apply Option.ext
    intro b
    rw [lookup_eq_some, lookup_eq_some, sub]
    exact List.mem_eraseP_of_neg (by simpa using other)

theorem objects_erase (s : Store α) (p : Nat) :
    (s.erase p).objects = s.objects.filter (·.ptr != p) := by
  have distinct : s.objects.Pairwise fun o o' => o.ptr ≠ o'.ptr := List.pairwise_map.mp s.nodup
  show s.objects.eraseP (·.ptr == p) = _
  generalize s.objects = objects at distinct ⊢
  induction objects with
  | nil => rfl
  | cons o rest ih =>
      obtain ⟨first, later⟩ := List.pairwise_cons.mp distinct
      by_cases here : o.ptr = p
      · have others : rest.filter (·.ptr != p) = rest := by
          refine List.filter_eq_self.mpr fun o' member => ?_
          have different : o'.ptr ≠ p := here ▸ (first o' member).symm
          simpa using different
        rw [List.eraseP_cons_of_pos (by simpa using here),
          List.filter_cons_of_neg (by simpa using here), others]
      · rw [List.eraseP_cons_of_neg (by simpa using here),
          List.filter_cons_of_pos (by simpa using here), ih later]

theorem lookup_modify_map {f : α → α} {g : α → β} (kept : ∀ a, g (f a) = g a) :
    ((s.modify p f).lookup q).map g = (s.lookup q).map g := by
  rw [lookup_modify]
  split
  · cases s.lookup q <;> simp [kept]
  · rfl

theorem exists_lookup_push {Q : α → Prop} : (∃ b, (s.push a).lookup q = some b ∧ Q b) ↔
    (q = s.next ∧ Q a) ∨ ∃ b, s.lookup q = some b ∧ Q b := by
  rw [lookup_push]
  split
  · rename_i here
    simp [here, lookup_next]
  · rename_i other
    simp [other]

theorem exists_lookup_modify {f : α → α} {Q : α → Prop} :
    (∃ b, (s.modify p f).lookup q = some b ∧ Q b) ↔
      ∃ b, s.lookup q = some b ∧ Q (if q = p then f b else b) := by
  rw [lookup_modify]
  split
  · cases s.lookup q <;> simp
  · rfl

theorem exists_lookup_erase {Q : α → Prop} : (∃ b, (s.erase p).lookup q = some b ∧ Q b) ↔
    q ≠ p ∧ ∃ b, s.lookup q = some b ∧ Q b := by
  rw [lookup_erase]
  split <;> simp_all

theorem forall_lookup_push {Q : α → Prop} (h : ∀ q b, s.lookup q = some b → Q b) (new : Q a) :
    ∀ q b, (s.push a).lookup q = some b → Q b := by
  intro q b found
  rw [lookup_push] at found
  split at found
  · exact Option.some.inj found ▸ new
  · exact h q b found

theorem forall_lookup_modify {f : α → α} {Q : α → Prop} (h : ∀ q b, s.lookup q = some b → Q b)
    (kept : ∀ b, s.lookup p = some b → Q b → Q (f b)) :
    ∀ q b, (s.modify p f).lookup q = some b → Q b := by
  intro q b found
  rw [lookup_modify] at found
  split at found
  · rename_i here
    subst here
    obtain ⟨old, there, rfl⟩ := Option.map_eq_some_iff.mp found
    exact kept old there (h q old there)
  · exact h q b found

theorem forall_lookup_erase {Q : α → Prop} (h : ∀ q b, s.lookup q = some b → Q b) :
    ∀ q b, (s.erase p).lookup q = some b → Q b := by
  intro q b found
  rw [lookup_erase] at found
  split at found
  · contradiction
  · exact h q b found

theorem modifyAll_ok {κ : Type*} {expired : κ} {f : α → α} (idempotent : ∀ a, f (f a) = f a)
    {ps : List Nat} {t : Store α} (h : s.modifyAll expired f ps = .ok t) (q : Nat) :
    t.lookup q = if q ∈ ps then (s.lookup q).map f else s.lookup q := by
  induction ps generalizing s with
  | nil =>
      obtain rfl : s = t := by simpa [modifyAll] using h
      simp
  | cons p rest ih =>
      simp only [modifyAll] at h
      split at h
      · contradiction
      · rw [ih h, lookup_modify]
        by_cases here : q = p <;> by_cases later : q ∈ rest <;> simp_all

theorem modifyAll_objects {κ : Type*} {expired : κ} {f : α → α} (idempotent : ∀ a, f (f a) = f a)
    {ps : List Nat} {t : Store α} (h : s.modifyAll expired f ps = .ok t) :
    t.objects = s.objects.map fun o => if o.ptr ∈ ps then ⟨o.ptr, f o.obj⟩ else o := by
  induction ps generalizing s with
  | nil =>
      obtain rfl : s = t := by simpa [modifyAll] using h
      simp
  | cons p rest ih =>
      simp only [modifyAll] at h
      split at h
      · contradiction
      · rw [ih h, modify, List.map_map]
        refine List.map_congr_left fun o _ => ?_
        by_cases here : o.ptr = p <;> by_cases later : o.ptr ∈ rest <;>
          simp [update, here, later, idempotent]

theorem modifyAll_ok_iff {κ : Type*} {expired : κ} {f : α → α} {ps : List Nat} :
    (∃ t, s.modifyAll expired f ps = .ok t) ↔ ∀ p ∈ ps, s.lookup p ≠ none := by
  induction ps generalizing s with
  | nil => simp [modifyAll]
  | cons p rest ih =>
      cases there : s.lookup p with
      | none => simp [modifyAll, there]
      | some a =>
          have kept (q : Nat) : (s.modify p f).lookup q = none ↔ s.lookup q = none := by
            rw [lookup_modify]
            split <;> simp
          simp [modifyAll, there, ih, kept]

theorem modifyAll_eq_self {κ : Type*} {expired : κ} {f : α → α} {ps : List Nat}
    (same : ∀ p ∈ ps, ∃ a, s.lookup p = some a ∧ f a = a) : s.modifyAll expired f ps = .ok s := by
  induction ps with
  | nil => rfl
  | cons p rest ih =>
      obtain ⟨a, there, fixed⟩ := same p List.mem_cons_self
      simp only [modifyAll, there, modify_eq_self there fixed]
      exact ih fun q member => same q (List.mem_cons_of_mem _ member)

theorem modifyAll_error {κ : Type*} {expired e : κ} {f : α → α} {ps : List Nat}
    (h : s.modifyAll expired f ps = .error e) : e = expired ∧ ∃ p ∈ ps, s.lookup p = none := by
  induction ps generalizing s with
  | nil => simp [modifyAll] at h
  | cons p rest ih =>
      simp only [modifyAll] at h
      split at h
      · rename_i gone
        exact ⟨(Except.error.inj h).symm, p, List.mem_cons_self, gone⟩
      · obtain ⟨same, q, member, gone⟩ := ih h
        rw [lookup_modify] at gone
        refine ⟨same, q, List.mem_cons_of_mem _ member, ?_⟩
        split at gone <;> simp_all

theorem find?_some {test : α → Bool} {o : Shared α} (h : s.find? test = some o) :
    s.lookup o.ptr = some o.obj ∧ test o.obj = true := by
  unfold find? at h
  exact ⟨lookup_eq_some.mpr (List.mem_of_find?_eq_some h), by simpa using List.find?_some h⟩

theorem find?_none {test : α → Bool} (h : s.find? test = none) {p : Nat} {a : α}
    (found : s.lookup p = some a) : test a = false := by
  simpa using List.find?_eq_none.mp h _ (lookup_eq_some.mp found)

theorem find?_eq {test : α → Bool} {o : Shared α} (h : o ∈ s.objects) (passes : test o.obj = true)
    (only : ∀ o' ∈ s.objects, test o'.obj = true → o'.ptr = o.ptr) : s.find? test = some o := by
  cases found : s.find? test with
  | none =>
      have differs := find?_none found (lookup_eq_some.mpr h)
      simp [passes] at differs
  | some o' =>
      obtain ⟨there, passes'⟩ := find?_some found
      have member := lookup_eq_some.mp there
      exact congrArg some (ptr_injective member h (only o' member passes'))

theorem find?_push {test : α → Bool} : (s.push a).find? test =
    (s.find? test).or (if test a then some ⟨s.next, a⟩ else none) := by
  simp only [find?, push, List.find?_append, List.find?_singleton]

theorem find?_push_key {κ : Type*} [BEq κ] [LawfulBEq κ] [DecidableEq κ] {g : α → κ} {k : κ}
    (named : g a = k) (missing : s.find? (g · == k) = none) (k' : κ) : (s.push a).find? (g · == k') =
      if k' = k then some ⟨s.next, a⟩ else s.find? (g · == k') := by
  rw [find?_push, named]
  by_cases here : k' = k
  · subst here
    simp [missing]
  · simp [here, Ne.symm here]

theorem find?_modify {test : α → Bool} {f : α → α} (kept : ∀ a, test (f a) = test a) :
    (s.modify p f).find? test = (s.find? test).map (update p f) := by
  have same : ((fun o => test o.obj) ∘ update p f) = fun o => test o.obj := by
    funext o
    simp only [Function.comp, update]
    split <;> simp [kept]
  simp only [find?, modify, List.find?_map, same]

theorem nodup_map {f : α → β} (injective : ∀ o ∈ s.objects, ∀ o' ∈ s.objects,
    f o.obj = f o'.obj → o.ptr = o'.ptr) : (s.objects.map fun o => f o.obj).Nodup :=
  s.nodup.of_map.map_on fun o member o' member' same =>
    ptr_injective member member' (injective o member o' member' same)

theorem lookup_of_getElem? {i : Nat} {o : Shared α} (h : s.objects[i]? = some o) :
    s.lookup o.ptr = some o.obj :=
  lookup_eq_some.mpr (List.mem_of_getElem? h)

end Store

end SimpleP2P.Library
