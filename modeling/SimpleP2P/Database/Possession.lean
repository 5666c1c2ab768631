import SimpleP2P.Host
import SimpleP2P.Library.LinkGraph
import Mathlib.Logic.Function.Basic

namespace SimpleP2P
open Library

abbrev ResourceKey := FileName × UInt64

def Resource.key (r : Resource) : ResourceKey := (r.name, r.size)

@[ext] structure Possession where
  graph : LinkGraph HostPtr ResourcePtr
  address : HostPtr → Option IpAddress
  key : ResourcePtr → Option ResourceKey

namespace Possession

inductive Label
  | addHost (ip : IpAddress)
  | addResource (key : ResourceKey)
  | link (ip : IpAddress) (key : ResourceKey)
  | unlink (ip : IpAddress) (key : ResourceKey)
  | freeze (key : ResourceKey)
  | drop (host : HostPtr)

def addHost (P : Possession) (h : HostPtr) (ip : IpAddress) : Possession :=
  { P with graph := P.graph.addLeft h, address := Function.update P.address h (some ip) }

def addResource (P : Possession) (r : ResourcePtr) (key : ResourceKey) : Possession :=
  { P with graph := P.graph.addRight r, key := Function.update P.key r (some key) }

def link (P : Possession) (h : HostPtr) (r : ResourcePtr) : Possession :=
  { P with graph := P.graph.link h r }

def unlink (P : Possession) (h : HostPtr) (r : ResourcePtr) : Possession :=
  { P with graph := P.graph.unlink h r }

def freeze (P : Possession) (r : ResourcePtr) : Possession :=
  { P with graph := P.graph.freeze r }

def drop (P : Possession) (h : HostPtr) : Possession :=
  { P with graph := P.graph.dropLeft h, address := Function.update P.address h none }

inductive Step : Label → Possession → Possession → Prop
  | addHost {P : Possession} {h : HostPtr} {ip : IpAddress} : P.address h = none →
      (∀ p, P.address p ≠ some ip) → Step (.addHost ip) P (P.addHost h ip)
  | addResource {P : Possession} {r : ResourcePtr} {key : ResourceKey} : P.key r = none →
      (∀ q, P.key q ≠ some key) → Step (.addResource key) P (P.addResource r key)
  | link {P : Possession} {h : HostPtr} {r : ResourcePtr} {ip : IpAddress} {key : ResourceKey} :
      P.address h = some ip → P.key r = some key → Step (.link ip key) P (P.link h r)
  | unlink {P : Possession} {h : HostPtr} {r : ResourcePtr} {ip : IpAddress} {key : ResourceKey} :
      P.address h = some ip → P.key r = some key → Step (.unlink ip key) P (P.unlink h r)
  | freeze {P : Possession} {r : ResourcePtr} {key : ResourceKey} :
      P.key r = some key → Step (.freeze key) P (P.freeze r)
  | drop {P : Possession} {h : HostPtr} {ip : IpAddress} :
      P.address h = some ip → Step (.drop h) P (P.drop h)

inductive Steps (permits : Label → Prop) : Possession → Possession → Prop
  | refl {P : Possession} : Steps permits P P
  | tail {P Q R : Possession} {l : Label} : Steps permits P Q → permits l → Step l Q R →
      Steps permits P R

structure Valid (me : HostPtr) (myIp : IpAddress) (P : Possession) : Prop where
  linked : P.graph.Linked
  left_iff : ∀ p, P.graph.left p ↔ P.address p ≠ none
  right_iff : ∀ r, P.graph.right r ↔ P.key r ≠ none
  address_inj : ∀ p q a, P.address p = some a → P.address q = some a → p = q
  key_inj : ∀ r s k, P.key r = some k → P.key s = some k → r = s
  localhost : P.address me = some myIp

namespace Steps

variable {permits permits' : Label → Prop} {P Q R : Possession}

theorem single {l : Label} (permitted : permits l) (step : Step l P Q) : Steps permits P Q :=
  .tail .refl permitted step

theorem trans (h : Steps permits P Q) (h' : Steps permits Q R) : Steps permits P R := by
  induction h' with
  | refl => exact h
  | tail _ permitted step ih => exact .tail ih permitted step

theorem mono (h : Steps permits P Q) (weaker : ∀ l, permits l → permits' l) :
    Steps permits' P Q := by
  induction h with
  | refl => exact .refl
  | tail _ permitted step ih => exact .tail ih (weaker _ permitted) step

theorem invariant {Inv : Possession → Prop} (h : Steps permits P Q) (initial : Inv P)
    (preserved : ∀ l P Q, Inv P → permits l → Step l P Q → Inv Q) : Inv Q := by
  induction h with
  | refl => exact initial
  | tail _ permitted step ih => exact preserved _ _ _ ih permitted step

theorem created (h : Steps permits P Q)
    (only : ∀ l, permits l → ∃ ip key, l = .addHost ip ∨ l = .addResource key) :
    Q.graph.forward = P.graph.forward ∧ Q.graph.backward = P.graph.backward := by
  induction h with
  | refl => exact ⟨rfl, rfl⟩
  | tail _ permitted step ih =>
      obtain ⟨ip, key, rfl | rfl⟩ := only _ permitted
      · cases step
        exact ih
      · cases step
        exact ih

end Steps

variable {me : HostPtr} {myIp : IpAddress} {P Q : Possession}

theorem Valid.addHost (v : Valid me myIp P) {h : HostPtr} {ip : IpAddress} (free : P.address h = none)
    (new : ∀ p, P.address p ≠ some ip) : Valid me myIp (P.addHost h ip) where
  linked := v.linked.addLeft h
  left_iff p := by
    simp only [Possession.addHost, LinkGraph.addLeft, Function.update_apply]
    split <;> simp_all [v.left_iff p]
  right_iff := v.right_iff
  address_inj p q a := by
    simp only [Possession.addHost, Function.update_apply]
    intro hp hq
    split at hp <;> split at hq
    · simp_all
    · exact absurd (hq.trans hp.symm) (new q)
    · exact absurd (hp.trans hq.symm) (new p)
    · exact v.address_inj p q a hp hq
  key_inj := v.key_inj
  localhost := by
    have other : me ≠ h := by
      rintro rfl
      simp [v.localhost] at free
    simpa [Possession.addHost, Function.update_apply, other] using v.localhost

theorem Valid.addResource (v : Valid me myIp P) {r : ResourcePtr} {key : ResourceKey}
    (new : ∀ q, P.key q ≠ some key) : Valid me myIp (P.addResource r key) where
  linked := v.linked.addRight r
  left_iff := v.left_iff
  right_iff q := by
    simp only [Possession.addResource, LinkGraph.addRight, Function.update_apply]
    split <;> simp_all [v.right_iff q]
  address_inj := v.address_inj
  key_inj p q k := by
    simp only [Possession.addResource, Function.update_apply]
    intro hp hq
    split at hp <;> split at hq
    · simp_all
    · exact absurd (hq.trans hp.symm) (new q)
    · exact absurd (hp.trans hq.symm) (new p)
    · exact v.key_inj p q k hp hq
  localhost := v.localhost

theorem Valid.drop (v : Valid me myIp P) {h : HostPtr} (other : h ≠ me) :
    Valid me myIp (P.drop h) where
  linked := v.linked.dropLeft h
  left_iff p := by
    simp only [Possession.drop, LinkGraph.dropLeft, Function.update_apply]
    split <;> simp_all [v.left_iff p]
  right_iff := v.right_iff
  address_inj p q a := by
    simp only [Possession.drop, Function.update_apply]
    intro hp hq
    split at hp <;> split at hq <;> try contradiction
    exact v.address_inj p q a hp hq
  key_inj := v.key_inj
  localhost := by simpa [Possession.drop, Function.update_apply, other.symm] using v.localhost

theorem Valid.step (v : Valid me myIp P) {l : Label} (kept : l ≠ .drop me) (step : Step l P Q) :
    Valid me myIp Q := by
  cases step with
  | addHost free new => exact v.addHost free new
  | addResource free new => exact v.addResource new
  | @link _ h r _ _ hh hr =>
      have left := (v.left_iff h).mpr (by simp [hh])
      have right := (v.right_iff r).mpr (by simp [hr])
      exact ⟨v.linked.link left right, v.left_iff, v.right_iff, v.address_inj, v.key_inj, v.localhost⟩
  | unlink hh hr =>
      exact ⟨v.linked.unlink _ _, v.left_iff, v.right_iff, v.address_inj, v.key_inj, v.localhost⟩
  | freeze hr =>
      exact ⟨v.linked.freeze _, v.left_iff, v.right_iff, v.address_inj, v.key_inj, v.localhost⟩
  | drop hh => exact v.drop fun same => kept (by rw [same])

theorem address_step {p : HostPtr} {a : IpAddress} (h : P.address p = some a) {l : Label}
    (kept : l ≠ .drop p) (step : Step l P Q) : Q.address p = some a := by
  cases step with
  | @addHost _ q ip free new =>
      have other : p ≠ q := by
        rintro rfl
        simp [free] at h
      simpa [Possession.addHost, Function.update_apply, other] using h
  | @drop _ q ip there =>
      have other : p ≠ q := fun same => kept (by rw [same])
      simpa [Possession.drop, Function.update_apply, other] using h
  | _ => exact h

theorem key_step {r : ResourcePtr} {k : ResourceKey} (h : P.key r = some k) {l : Label}
    (step : Step l P Q) : Q.key r = some k := by
  cases step with
  | @addResource _ q key free new =>
      have other : r ≠ q := by
        rintro rfl
        simp [free] at h
      simpa [Possession.addResource, Function.update_apply, other] using h
  | _ => exact h

theorem sound_step (v : Valid me myIp P) (sound : P.graph.Sound) {l : Label}
    (clean : ∀ h, l = .drop h → ¬P.graph.Stale h) (step : Step l P Q) : Q.graph.Sound := by
  cases step with
  | addHost free new => exact sound.addLeft _
  | addResource free new => exact sound.addRight _
  | @link _ h r _ _ hh hr =>
      have left := (v.left_iff h).mpr (by simp [hh])
      have right := (v.right_iff r).mpr (by simp [hr])
      exact sound.link left right
  | unlink hh hr => exact sound.unlink _ _
  | freeze hr => exact sound.freeze _
  | drop hh => exact (sound.dropLeft_iff _).mpr (clean _ rfl)

end Possession

end SimpleP2P
