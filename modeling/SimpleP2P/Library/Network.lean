import SimpleP2P.Library.Transition
import Mathlib.Logic.Function.Basic

/-!
# Nodes that send messages to each other

Every node runs the same program. The network keeps all that was ever sent, so a message may arrive
late, out of order, more than once or never. The history is read by no step. An invariant of a node
may rely on the messages that arrive as long as the nodes guarantee the messages that they send.
-/

namespace SimpleP2P.Library

variable {ν σ ε μ κ : Type*}

/-- What a node does of itself, with the messages it sends, and what it does with one it receives. -/
structure Protocol (ν σ ε μ κ : Type*) where
  act : ν → σ → ε → Except κ (σ × List μ)
  receive : ν → σ → ν → μ → Except κ σ

inductive Input (ν ε μ : Type*)
  | act (e : ε)
  | receive (sender : ν) (message : μ)
  deriving DecidableEq

structure Record (ν σ ε μ : Type*) where
  node : ν
  state : σ
  input : Input ν ε μ

structure Network (ν σ ε μ : Type*) where
  node : ν → σ
  sent : List (ν × μ) := []
  past : List (Record ν σ ε μ) := []

theorem cut_snoc {α : Type*} {l before after : List α} {a b : α}
    (cut : l ++ [a] = before ++ b :: after) :
    before = l ∧ b = a ∨ ∃ earlier, after = earlier ++ [a] ∧ l = before ++ b :: earlier := by
  rcases List.eq_nil_or_concat after with rfl | ⟨earlier, last, rfl⟩
  · obtain ⟨rfl, same⟩ := List.append_inj' cut rfl
    exact Or.inl ⟨rfl, (List.singleton_inj.mp same).symm⟩
  · rw [List.concat_eq_append, ← List.cons_append, ← List.append_assoc] at cut
    obtain ⟨rfl, same⟩ := List.append_inj' cut rfl
    exact Or.inr ⟨earlier, by rw [List.concat_eq_append, List.singleton_inj.mp same], rfl⟩

namespace Network

inductive Event (ν ε μ : Type*)
  | act (node : ν) (e : ε)
  | deliver (receiver sender : ν) (message : μ)

variable [DecidableEq ν]

def put (w : Network ν σ ε μ) (i : ν) (input : Input ν ε μ) (s : σ) (out : List μ) :
    Network ν σ ε μ where
  node := Function.update w.node i s
  sent := w.sent ++ out.map (i, ·)
  past := w.past ++ [⟨i, w.node i, input⟩]

@[simp] theorem put_node_self (w : Network ν σ ε μ) (i : ν) (input : Input ν ε μ) (s : σ)
    (out : List μ) : (w.put i input s out).node i = s := by
  simp [put]

theorem put_node_other (w : Network ν σ ε μ) {i j : ν} (other : j ≠ i) (input : Input ν ε μ) (s : σ)
    (out : List μ) : (w.put i input s out).node j = w.node j := by
  simp [put, other]

theorem mem_put_sent {w : Network ν σ ε μ} {i j : ν} {input : Input ν ε μ} {s : σ} {out : List μ} {message : μ} :
    (j, message) ∈ (w.put i input s out).sent ↔
      (j, message) ∈ w.sent ∨ j = i ∧ message ∈ out := by
  simp only [put, List.mem_append, List.mem_map, Prod.mk.injEq]
  refine or_congr Iff.rfl ⟨?_, ?_⟩
  · rintro ⟨m, member, rfl, rfl⟩
    exact ⟨rfl, member⟩
  · rintro ⟨rfl, member⟩
    exact ⟨message, member, rfl, rfl⟩

variable [DecidableEq μ]

def step (p : Protocol ν σ ε μ κ) (absent : κ) (w : Network ν σ ε μ) :
    Event ν ε μ → Except κ (Network ν σ ε μ)
  | .act i e => (p.act i (w.node i) e).map fun done => w.put i (.act e) done.1 done.2
  | .deliver i j message =>
      if (j, message) ∈ w.sent then
        (p.receive i (w.node i) j message).map fun s => w.put i (.receive j message) s []
      else .error absent

def Permitted (permits : ν → σ → ε → Prop) (w : Network ν σ ε μ) : Event ν ε μ → Prop
  | .act i e => permits i (w.node i) e
  | .deliver _ _ _ => True

instance {permits : ν → σ → ε → Prop} [∀ i s e, Decidable (permits i s e)] (w : Network ν σ ε μ) :
    (e : Event ν ε μ) → Decidable (Permitted permits w e)
  | .act i e => inferInstanceAs (Decidable (permits i (w.node i) e))
  | .deliver _ _ _ => .isTrue trivial

variable {p : Protocol ν σ ε μ κ} {absent : κ} {w w' start : Network ν σ ε μ}
  {permits : ν → σ → ε → Prop}

/-! ## One step -/

inductive Move (p : Protocol ν σ ε μ κ) (w : Network ν σ ε μ) :
    Event ν ε μ → Network ν σ ε μ → Prop
  | act {i : ν} {e : ε} {s : σ} {out : List μ} : p.act i (w.node i) e = .ok (s, out) →
      Move p w (.act i e) (w.put i (.act e) s out)
  | deliver {i j : ν} {message : μ} {s : σ} : (j, message) ∈ w.sent →
      p.receive i (w.node i) j message = .ok s →
      Move p w (.deliver i j message) (w.put i (.receive j message) s [])

theorem step_move {e : Event ν ε μ} (ok : step p absent w e = .ok w') : Move p w e w' := by
  cases e with
  | act i e =>
      obtain ⟨⟨s, out⟩, done, rfl⟩ := map_eq_ok.mp ok
      exact .act done
  | deliver i j message =>
      simp only [step] at ok
      split at ok
      · rename_i sent
        obtain ⟨s, done, rfl⟩ := map_eq_ok.mp ok
        exact .deliver sent done
      · contradiction

/-! ## What the nodes assume and guarantee -/

/-- An invariant of a node that its steps keep as long as the messages it receives are good, where
good is also every message it sends. Both may speak about the past, and neither is lost as it grows. -/
structure Guarantee (p : Protocol ν σ ε μ κ) (permits : ν → σ → ε → Prop)
    (Node : List (Record ν σ ε μ) → ν → σ → Prop)
    (Good : List (Record ν σ ε μ) → ν → μ → Prop) : Prop where
  node_grows : ∀ past r i s, r.node ≠ i → Node past i s → Node (past ++ [r]) i s
  good_grows : ∀ past r j m, Good past j m → Good (past ++ [r]) j m
  act : ∀ past i s e s' out, Node past i s → permits i s e → p.act i s e = .ok (s', out) →
    Node (past ++ [⟨i, s, .act e⟩]) i s' ∧ ∀ m ∈ out, Good (past ++ [⟨i, s, .act e⟩]) i m
  receive : ∀ past i s j m s', Node past i s → Good past j m → p.receive i s j m = .ok s' →
    Node (past ++ [⟨i, s, .receive j m⟩]) i s'

structure Holds (Node : List (Record ν σ ε μ) → ν → σ → Prop)
    (Good : List (Record ν σ ε μ) → ν → μ → Prop) (w : Network ν σ ε μ) : Prop where
  node : ∀ i, Node w.past i (w.node i)
  sent : ∀ j m, (j, m) ∈ w.sent → Good w.past j m
  past : ∀ before r after, w.past = before ++ r :: after → Node before r.node r.state

variable {Node : List (Record ν σ ε μ) → ν → σ → Prop}
  {Good : List (Record ν σ ε μ) → ν → μ → Prop}

omit [DecidableEq μ] in
theorem Holds.put (h : w.Holds Node Good)
    (node_grows : ∀ past r i s, r.node ≠ i → Node past i s → Node (past ++ [r]) i s)
    (good_grows : ∀ past r j m, Good past j m → Good (past ++ [r]) j m) {i : ν}
    {input : Input ν ε μ} {s : σ} {out : List μ}
    (own : Node (w.past ++ [⟨i, w.node i, input⟩]) i s)
    (made : ∀ m ∈ out, Good (w.past ++ [⟨i, w.node i, input⟩]) i m) :
    (w.put i input s out).Holds Node Good := by
  refine ⟨fun j => ?_, fun j m member => ?_, fun before r after cut => ?_⟩
  · by_cases same : j = i
    · subst same
      rw [put_node_self]
      exact own
    · rw [put_node_other _ same]
      exact node_grows _ _ _ _ (Ne.symm same) (h.node j)
  · rcases mem_put_sent.mp member with old | ⟨rfl, new⟩
    · exact good_grows _ _ _ _ (h.sent j m old)
    · exact made m new
  · rcases cut_snoc cut with ⟨rfl, rfl⟩ | ⟨earlier, -, old⟩
    · exact h.node i
    · exact h.past before r earlier old

namespace Guarantee

theorem step (g : Guarantee p permits Node Good) (h : w.Holds Node Good) {e : Event ν ε μ}
    (permitted : w.Permitted permits e) (ok : w.step p absent e = .ok w') : w'.Holds Node Good := by
  cases step_move ok with
  | @act i e s out done =>
      obtain ⟨own, made⟩ := g.act _ _ _ _ _ _ (h.node i) permitted done
      exact h.put g.node_grows g.good_grows own made
  | @deliver i j message s sent done =>
      have own := g.receive _ _ _ _ _ _ (h.node i) (h.sent j message sent) done
      exact h.put g.node_grows g.good_grows own (by simp)

theorem reach (g : Guarantee p permits Node Good) (initial : start.Holds Node Good)
    (run : Reach (Network.step p absent) (Permitted permits) start w) : w.Holds Node Good :=
  run.invariant initial fun _ _ _ h permitted ok => g.step h permitted ok

end Guarantee

theorem step_error {e : Event ν ε μ} {failure : κ}
    (act : ∀ i e' f, e = .act i e' → p.act i (w.node i) e' = .error f → f = absent)
    (receive : ∀ i j m f, (j, m) ∈ w.sent → p.receive i (w.node i) j m = .error f → f = absent)
    (failed : w.step p absent e = .error failure) : failure = absent := by
  cases e with
  | act i e => exact act i e failure rfl (map_eq_error.mp failed)
  | deliver i j message =>
      simp only [step] at failed
      split at failed
      · rename_i sent
        exact receive i j message failure sent (map_eq_error.mp failed)
      · exact (Except.error.inj failed).symm

theorem received_sent {allowed : Network ν σ ε μ → Event ν ε μ → Prop} {me : ν → σ}
    (run : Reach (step p absent) allowed { node := me } w) {r : Record ν σ ε μ} (member : r ∈ w.past)
    {j : ν} {message : μ} (received : r.input = .receive j message) : (j, message) ∈ w.sent := by
  let Inv (w : Network ν σ ε μ) : Prop :=
    ∀ r ∈ w.past, ∀ j message, r.input = .receive j message → (j, message) ∈ w.sent
  have kept : Inv w := by
    refine run.invariant (by simp [Inv]) fun w e w' old _ ok r member j message received => ?_
    cases step_move ok with
    | @act i e s out done =>
        rcases List.mem_append.mp member with earlier | new
        · exact mem_put_sent.mpr (Or.inl (old r earlier j message received))
        · rw [List.mem_singleton.mp new] at received
          contradiction
    | @deliver i j' message' s sent done =>
        rcases List.mem_append.mp member with earlier | new
        · exact mem_put_sent.mpr (Or.inl (old r earlier j message received))
        · rw [List.mem_singleton.mp new] at received
          obtain ⟨rfl, rfl⟩ := Input.receive.inj received
          exact mem_put_sent.mpr (Or.inl sent)
  exact kept r member j message received

/-! ## The steps of one node -/

/-- Something of the list holds, and nothing after it undoes it. -/
def Stands {α : Type*} (holds undoes : α → Prop) (l : List α) : Prop :=
  ∃ before a after, l = before ++ a :: after ∧ holds a ∧ ∀ b ∈ after, ¬undoes b

theorem stands_append_singleton {α : Type*} {holds undoes : α → Prop} {l : List α} {a : α} :
    Stands holds undoes (l ++ [a]) ↔ holds a ∨ Stands holds undoes l ∧ ¬undoes a := by
  constructor
  · rintro ⟨before, b, after, cut, held, kept⟩
    rcases cut_snoc cut with ⟨rfl, rfl⟩ | ⟨earlier, rfl, rfl⟩
    · exact Or.inl held
    · refine Or.inr ⟨⟨before, b, earlier, rfl, held, fun c member => ?_⟩, ?_⟩
      · exact kept c (List.mem_append_left _ member)
      · exact kept a (List.mem_append_right _ List.mem_cons_self)
  · rintro (held | ⟨⟨before, b, after, rfl, held, kept⟩, stays⟩)
    · exact ⟨l, a, [], rfl, held, by simp⟩
    · refine ⟨before, b, after ++ [a], by simp, held, fun c member => ?_⟩
      rcases List.mem_append.mp member with member | member
      · exact kept c member
      · rwa [List.mem_singleton.mp member]

def stepsOf (past : List (Record ν σ ε μ)) (i : ν) : List (Record ν σ ε μ) :=
  past.filter (·.node = i)

omit [DecidableEq μ] in
theorem stepsOf_self (past : List (Record ν σ ε μ)) (r : Record ν σ ε μ) :
    stepsOf (past ++ [r]) r.node = stepsOf past r.node ++ [r] := by
  simp [stepsOf]

omit [DecidableEq μ] in
theorem stepsOf_other {past : List (Record ν σ ε μ)} {r : Record ν σ ε μ} {i : ν}
    (other : r.node ≠ i) : stepsOf (past ++ [r]) i = stepsOf past i := by
  simp [stepsOf, other]

end Network

end SimpleP2P.Library
