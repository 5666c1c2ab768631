import Mathlib.Data.List.Perm.Basic

namespace SimpleP2P.Library

variable {σ α : Type*}

structure OrderFree (f : σ → α → σ) : Prop where
  comm : ∀ s a b, f (f s a) b = f (f s b) a
  twice : ∀ s a, f (f s a) a = f s a

namespace OrderFree

variable {f : σ → α → σ} {l l' : List α}

theorem foldl_perm (h : OrderFree f) (perm : l.Perm l') (s : σ) : l.foldl f s = l'.foldl f s :=
  perm.foldl_eq' (fun a _ b _ s => h.comm s a b) s

theorem apply_foldl (h : OrderFree f) (s : σ) (a : α) : f (l.foldl f s) a = l.foldl f (f s a) := by
  simpa using h.foldl_perm (List.perm_append_singleton a l) s

theorem absorb (h : OrderFree f) (s : σ) {a : α} (member : a ∈ l) :
    f (l.foldl f s) a = l.foldl f s := by
  obtain ⟨before, after, rfl⟩ := List.append_of_mem member
  rw [List.foldl_append, List.foldl_cons, h.apply_foldl, h.twice]

theorem foldl_of_subset (h : OrderFree f) (s : σ) (sub : l' ⊆ l) :
    l'.foldl f (l.foldl f s) = l.foldl f s := by
  induction l' with
  | nil => rfl
  | cons a rest ih =>
      rw [List.foldl_cons, h.absorb s (sub List.mem_cons_self)]
      exact ih fun b member => sub (List.mem_cons_of_mem a member)

theorem foldl_congr (h : OrderFree f) (s : σ) (same : ∀ a, a ∈ l ↔ a ∈ l') :
    l.foldl f s = l'.foldl f s :=
  calc
    l.foldl f s = l'.foldl f (l.foldl f s) := (h.foldl_of_subset s fun a => (same a).mpr).symm
    _ = l.foldl f (l'.foldl f s) := by
      simpa using h.foldl_perm (@List.perm_append_comm _ l l') s
    _ = l'.foldl f s := h.foldl_of_subset s fun a => (same a).mp

end OrderFree

end SimpleP2P.Library
