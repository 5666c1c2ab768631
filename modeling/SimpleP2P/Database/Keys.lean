import SimpleP2P.Database.Soundness

namespace SimpleP2P.ResourceDatabase
open Library

variable {db db' : ResourceDatabase}

inductive Change
  | op (op : Op)
  | removeHost (host : HostPtr)
  deriving DecidableEq, Repr

/-- The end iterator that `std::find` returns for a host that is not in the vector is not erased. -/
def change (db : ResourceDatabase) : Change → Except Fault ResourceDatabase
  | .op op => db.apply op
  | .removeHost p =>
      match db.hosts.lookup p with
      | some host => db.removeHost ⟨p, host⟩
      | none => .error .outOfBounds

def Change.added : Change → List ResourceKey
  | .op (.addFile res _) => [res.key]
  | .op (.updateHost _ possesed) => possesed.map Resource.key
  | _ => []

def noteAdded (_ : ResourceDatabase) (c : Change) (added : List ResourceKey) : List ResourceKey :=
  added ++ c.added

structure Unambiguous (db : ResourceDatabase) (added : List ResourceKey) : Prop where
  addresses : (db.hosts.objects.map (·.obj.hostIp)).Nodup
  keys : (db.resources.objects.map (·.obj.key)).Nodup
  kept : ∀ k ∈ added, ∃ r ∈ db.resources.objects, r.obj.key = k
  localhost : ∃ h ∈ db.hosts.objects, h.ptr = db.myHost ∧ db.findHost db.myHostIp = some h
  findHost : ∀ h ∈ db.hosts.objects, db.findHost h.obj.hostIp = some h
  findResource : ∀ r ∈ db.resources.objects, db.findResource r.obj = some r

theorem Valid.host_ptr (valid : db.Valid) {h h' : Shared Host} (member : h ∈ db.hosts.objects)
    (member' : h' ∈ db.hosts.objects) (same : h.obj.hostIp = h'.obj.hostIp) : h.ptr = h'.ptr := by
  refine valid.address_inj h.ptr h'.ptr h.obj.hostIp ?_ ?_
  · simp [possession, Store.lookup_eq_some.mpr member]
  · simp [possession, Store.lookup_eq_some.mpr member', same]

theorem Valid.resource_ptr (valid : db.Valid) {r r' : Shared Resource}
    (member : r ∈ db.resources.objects) (member' : r' ∈ db.resources.objects)
    (same : r.obj.key = r'.obj.key) : r.ptr = r'.ptr := by
  refine valid.key_inj r.ptr r'.ptr r.obj.key ?_ ?_
  · simp [possession, Store.lookup_eq_some.mpr member]
  · simp [possession, Store.lookup_eq_some.mpr member', same]

theorem Valid.findHost_eq (valid : db.Valid) {h : Shared Host} (member : h ∈ db.hosts.objects) :
    db.findHost h.obj.hostIp = some h :=
  Store.find?_eq member (by simp) fun _ member' same =>
    valid.host_ptr member' member (by simpa using same)

theorem Valid.findResource_of_mem (valid : db.Valid) {res : Resource} {r : Shared Resource}
    (member : r ∈ db.resources.objects) (same : r.obj.sameAs res = true) :
    db.findResource res = some r :=
  Store.find?_eq member same fun _ member' same' =>
    valid.resource_ptr member' member ((sameAs_iff_key.mp same').trans (sameAs_iff_key.mp same).symm)

theorem Valid.findResource_eq (valid : db.Valid) {r : Shared Resource}
    (member : r ∈ db.resources.objects) : db.findResource r.obj = some r :=
  valid.findResource_of_mem member (by simp)

theorem Valid.localhost_mem (valid : db.Valid) :
    ∃ h ∈ db.hosts.objects, h.ptr = db.myHost ∧ h.obj.hostIp = db.myHostIp := by
  obtain ⟨host, there, same⟩ := Option.map_eq_some_iff.mp valid.localhost
  exact ⟨⟨db.myHost, host⟩, Store.lookup_eq_some.mp there, rfl, same⟩

theorem Valid.unambiguous (valid : db.Valid) {added : List ResourceKey}
    (kept : ∀ k ∈ added, ∃ r, db.possession.key r = some k) : db.Unambiguous added where
  addresses := Store.nodup_map fun _ member _ member' => valid.host_ptr member member'
  keys := Store.nodup_map fun _ member _ member' => valid.resource_ptr member member'
  kept k member := by
    obtain ⟨r, named⟩ := kept k member
    obtain ⟨res, there, same⟩ := Option.map_eq_some_iff.mp named
    exact ⟨⟨r, res⟩, Store.lookup_eq_some.mp there, same⟩
  localhost := by
    obtain ⟨h, member, me, same⟩ := valid.localhost_mem
    exact ⟨h, member, me, same ▸ valid.findHost_eq member⟩
  findHost _ member := valid.findHost_eq member
  findResource _ member := valid.findResource_eq member

/-! ## What a change does -/

theorem Valid.change (valid : db.Valid) {c : Change} (ok : db.change c = .ok db') : db'.Valid := by
  cases c with
  | op op => exact valid.apply ok
  | removeHost p =>
      simp only [ResourceDatabase.change] at ok
      split at ok
      · rename_i host there
        by_cases me : p = db.myHost
        · rw [removeHost_local me] at ok
          exact Except.ok.inj ok ▸ valid
        · obtain ⟨me', ip⟩ := Prod.mk.inj (removeHost_localhost ok)
          unfold Valid
          rw [me', ip, (removeHost_ok there me ok).1]
          exact Possession.Valid.drop valid me
      · contradiction

theorem change_key {c : Change} (ok : db.change c = .ok db') {r : ResourcePtr} {k : ResourceKey}
    (named : db.possession.key r = some k) : db'.possession.key r = some k := by
  cases c with
  | op op => exact key_steps (apply_steps ok) named
  | removeHost p =>
      simp only [change] at ok
      split at ok
      · rename_i host there
        by_cases me : p = db.myHost
        · rw [removeHost_local me] at ok
          exact Except.ok.inj ok ▸ named
        · rw [(removeHost_ok there me ok).1]
          exact named
      · contradiction

theorem change_added {c : Change} (ok : db.change c = .ok db') {k : ResourceKey}
    (member : k ∈ c.added) : ∃ r, db'.possession.key r = some k := by
  cases c with
  | op op =>
      cases op with
      | addFile res ip =>
          obtain rfl : k = res.key := by simpa [Change.added] using member
          exact Except.ok.inj ok ▸ db.addFileInternal_key res ip
      | updateHost ip possesed =>
          obtain ⟨res, listed, rfl⟩ := List.mem_map.mp member
          exact advertise_fold_key ok listed
      | _ => simp [Change.added] at member
  | removeHost p => simp [Change.added] at member

theorem reach_unambiguous {ip : IpAddress} {p : ResourceDatabase × List ResourceKey}
    (h : Reach (observed change noteAdded) Anything (start ip, []) p) : p.1.Unambiguous p.2 := by
  let Inv (p : ResourceDatabase × List ResourceKey) : Prop :=
    p.1.Valid ∧ ∀ k ∈ p.2, ∃ r, p.1.possession.key r = some k
  have kept : Inv p := by
    refine h.invariant ⟨valid_start ip, by simp⟩ fun s c s' ⟨valid, kept⟩ _ ok => ?_
    obtain ⟨changed, noted⟩ := observed_ok.mp ok
    refine ⟨valid.change changed, fun k member => ?_⟩
    rw [noted, noteAdded] at member
    rcases List.mem_append.mp member with old | new
    · obtain ⟨r, named⟩ := kept k old
      exact ⟨r, change_key changed named⟩
    · exact change_added changed new
  exact kept.1.unambiguous kept.2

theorem removed_unambiguous : ∃ p : ResourceDatabase × List ResourceKey,
    p.2 = [([97], 3)] ∧ p.1.Unambiguous p.2 := by
  obtain ⟨p, run, noted⟩ := exists_reach_of_exec (observed change noteAdded) Anything
    (start ⟨[10, 0, 0, 1]⟩, []) [.op (.addFile { size := 3, name := [97] } ⟨[10, 0, 0, 2]⟩), .removeHost 1]
    (fun p => p.2 = [([97], 3)]) (by decide)
  exact ⟨p, of_decide_eq_true noted, reach_unambiguous run⟩

end SimpleP2P.ResourceDatabase
