import Mathlib.Order.Basic

namespace SimpleP2P.Library

@[ext] structure LinkGraph (α β : Type*) where
  left : α → Prop
  right : β → Prop
  frozen : β → Prop
  forward : α → β → Prop
  backward : β → α → Prop

namespace LinkGraph

variable {α β : Type*} {G : LinkGraph α β} {a : α} {b : β}

def addLeft (G : LinkGraph α β) (a : α) : LinkGraph α β :=
  { G with left := fun x => G.left x ∨ x = a }

def addRight (G : LinkGraph α β) (b : β) : LinkGraph α β :=
  { G with right := fun y => G.right y ∨ y = b }

def link (G : LinkGraph α β) (a : α) (b : β) : LinkGraph α β :=
  { G with
    forward := fun x y => G.forward x y ∨ (x = a ∧ y = b)
    backward := fun y x => G.backward y x ∨ (y = b ∧ x = a) }

def unlink (G : LinkGraph α β) (a : α) (b : β) : LinkGraph α β :=
  { G with
    forward := fun x y => G.forward x y ∧ ¬(x = a ∧ y = b)
    backward := fun y x => G.backward y x ∧ ¬(y = b ∧ x = a) }

/-- Freeze `b` and cut the links to it from everything it lists. -/
def freeze (G : LinkGraph α β) (b : β) : LinkGraph α β :=
  { G with
    frozen := fun y => G.frozen y ∨ y = b
    forward := fun x y => G.forward x y ∧ ¬(y = b ∧ G.backward b x) }

def dropLeft (G : LinkGraph α β) (a : α) : LinkGraph α β :=
  { G with
    left := fun x => G.left x ∧ x ≠ a
    forward := fun x y => G.forward x y ∧ x ≠ a
    backward := fun y x => G.backward y x ∧ ¬(x = a ∧ G.forward a y) }

def Stale (G : LinkGraph α β) (a : α) : Prop := ∃ b, G.backward b a ∧ ¬G.forward a b

structure Linked (G : LinkGraph α β) : Prop where
  ends : ∀ a b, G.forward a b → G.left a ∧ G.right b ∧ G.backward b a
  listed : ∀ b a, G.backward b a → G.right b
  answered : ∀ b a, G.backward b a → ¬G.frozen b → G.left a ∧ G.forward a b

structure Sound (G : LinkGraph α β) : Prop extends Linked G where
  present : ∀ b a, G.backward b a → G.left a

theorem Linked.addLeft (h : Linked G) (a : α) : Linked (G.addLeft a) where
  ends x y edge := ⟨Or.inl (h.ends x y edge).1, (h.ends x y edge).2⟩
  listed := h.listed
  answered y x edge thawed := ⟨Or.inl (h.answered y x edge thawed).1, (h.answered y x edge thawed).2⟩

theorem Linked.addRight (h : Linked G) (b : β) : Linked (G.addRight b) where
  ends x y edge := ⟨(h.ends x y edge).1, Or.inl (h.ends x y edge).2.1, (h.ends x y edge).2.2⟩
  listed y x edge := Or.inl (h.listed y x edge)
  answered := h.answered

theorem Linked.link (h : Linked G) (ha : G.left a) (hb : G.right b) : Linked (G.link a b) where
  ends := by
    rintro x y (edge | ⟨rfl, rfl⟩)
    · exact ⟨(h.ends x y edge).1, (h.ends x y edge).2.1, Or.inl (h.ends x y edge).2.2⟩
    · exact ⟨ha, hb, Or.inr ⟨rfl, rfl⟩⟩
  listed := by
    rintro y x (edge | ⟨rfl, rfl⟩)
    · exact h.listed y x edge
    · exact hb
  answered := by
    rintro y x (edge | ⟨rfl, rfl⟩) thawed
    · exact ⟨(h.answered y x edge thawed).1, Or.inl (h.answered y x edge thawed).2⟩
    · exact ⟨ha, Or.inr ⟨rfl, rfl⟩⟩

theorem Linked.unlink (h : Linked G) (a : α) (b : β) : Linked (G.unlink a b) where
  ends := by
    rintro x y ⟨edge, kept⟩
    obtain ⟨hx, hy, back⟩ := h.ends x y edge
    exact ⟨hx, hy, back, fun ⟨eqY, eqX⟩ => kept ⟨eqX, eqY⟩⟩
  listed y x edge := h.listed y x edge.1
  answered := by
    rintro y x ⟨edge, kept⟩ thawed
    obtain ⟨hx, forth⟩ := h.answered y x edge thawed
    exact ⟨hx, forth, fun ⟨eqX, eqY⟩ => kept ⟨eqY, eqX⟩⟩

theorem Linked.freeze (h : Linked G) (b : β) : Linked (G.freeze b) where
  ends x y edge := h.ends x y edge.1
  listed := h.listed
  answered := by
    intro y x edge thawed
    obtain ⟨hx, forth⟩ := h.answered y x edge fun cold => thawed (Or.inl cold)
    exact ⟨hx, forth, fun same => thawed (Or.inr same.1)⟩

theorem Linked.dropLeft (h : Linked G) (a : α) : Linked (G.dropLeft a) where
  ends := by
    rintro x y ⟨edge, other⟩
    obtain ⟨hx, hy, back⟩ := h.ends x y edge
    exact ⟨⟨hx, other⟩, hy, back, fun same => other same.1⟩
  listed y x edge := h.listed y x edge.1
  answered := by
    rintro y x ⟨edge, kept⟩ thawed
    obtain ⟨hx, forth⟩ := h.answered y x edge thawed
    have other : x ≠ a := by
      rintro rfl
      exact kept ⟨rfl, forth⟩
    exact ⟨⟨hx, other⟩, forth, other⟩

theorem Linked.freeze_forward (h : Linked G) (b : β) (x : α) : ¬(G.freeze b).forward x b :=
  fun ⟨edge, kept⟩ => kept ⟨rfl, (h.ends x b edge).2.2⟩

theorem Sound.addLeft (h : Sound G) (a : α) : Sound (G.addLeft a) :=
  ⟨h.toLinked.addLeft a, fun y x edge => Or.inl (h.present y x edge)⟩

theorem Sound.addRight (h : Sound G) (b : β) : Sound (G.addRight b) :=
  ⟨h.toLinked.addRight b, h.present⟩

theorem Sound.link (h : Sound G) (ha : G.left a) (hb : G.right b) : Sound (G.link a b) := by
  refine ⟨h.toLinked.link ha hb, ?_⟩
  rintro y x (edge | ⟨rfl, rfl⟩)
  · exact h.present y x edge
  · exact ha

theorem Sound.unlink (h : Sound G) (a : α) (b : β) : Sound (G.unlink a b) :=
  ⟨h.toLinked.unlink a b, fun y x edge => h.present y x edge.1⟩

theorem Sound.freeze (h : Sound G) (b : β) : Sound (G.freeze b) :=
  ⟨h.toLinked.freeze b, h.present⟩

theorem Sound.dropLeft_iff (h : Sound G) (a : α) : Sound (G.dropLeft a) ↔ ¬G.Stale a := by
  constructor
  · rintro sound ⟨b, back, missing⟩
    exact (sound.present b a ⟨back, fun same => missing same.2⟩).2 rfl
  · intro clean
    refine ⟨h.toLinked.dropLeft a, ?_⟩
    rintro y x ⟨edge, kept⟩
    refine ⟨h.present y x edge, ?_⟩
    rintro rfl
    exact clean ⟨y, edge, fun forth => kept ⟨rfl, forth⟩⟩

theorem Stale.of_dropLeft {x : α} (h : (G.dropLeft a).Stale x) : G.Stale x := by
  obtain ⟨b, ⟨back, kept⟩, missing⟩ := h
  refine ⟨b, back, fun forth => missing ⟨forth, ?_⟩⟩
  rintro rfl
  exact kept ⟨rfl, forth⟩

end LinkGraph

end SimpleP2P.Library
