import SimpleP2P.Database.Soundness

namespace SimpleP2P.ResourceDatabase
open Library

variable {joins joins' : ResourceDatabase → HostPtr → ResourcePtr → Prop}

inductive Edit (joins : ResourceDatabase → HostPtr → ResourcePtr → Prop) (db : ResourceDatabase) :
    ResourceDatabase → Prop
  | addResource {res : Resource} : db.findResource res = none →
      Edit joins db { db with resources := db.resources.push res.copy }
  | addHost {ip : IpAddress} : db.findHost ip = none →
      Edit joins db { db with hosts := db.hosts.push { hostIp := ip } }
  | resetMissed (h : HostPtr) : Edit joins db
      { db with hosts := db.hosts.modify h fun x => { x with noOfMissedUpdates := 0 } }
  | connect {h : HostPtr} {r : ResourcePtr} : db.hosts.lookup h ≠ none → joins db h r →
      Edit joins db (db.connect h r)
  | removeResource (h : HostPtr) (r : ResourcePtr) :
      Edit joins db { db with hosts := db.hosts.modify h (·.removeResource r) }
  | removeHost (r : ResourcePtr) (h : HostPtr) :
      Edit joins db { db with resources := db.resources.modify r (·.removeHost h) }
  | setRevoked (r : ResourcePtr) :
      Edit joins db { db with resources := db.resources.modify r (·.setRevoked) }
  | eraseHost (h : HostPtr) : Edit joins db { db with hosts := db.hosts.erase h }

abbrev Edits (joins : ResourceDatabase → HostPtr → ResourcePtr → Prop) :
    ResourceDatabase → ResourceDatabase → Prop :=
  Relation.ReflTransGen (Edit joins)

variable {db db' : ResourceDatabase}

theorem Edits.invariant {Inv : ResourceDatabase → Prop} (h : Edits joins db db') (initial : Inv db)
    (preserved : ∀ s s', Inv s → Edit joins s s' → Inv s') : Inv db' := by
  induction h with
  | refl => exact initial
  | tail _ edit ih => exact preserved _ _ ih edit

/-! ## Creating and linking -/

theorem ensureResource_edits (db : ResourceDatabase) (res : Resource) :
    Edits joins db (db.ensureResource res).1 := by
  unfold ensureResource
  split
  · exact .refl
  · rename_i missing
    exact .single (.addResource missing)

theorem ensureHost_edits (db : ResourceDatabase) (ip : IpAddress) :
    Edits joins db (db.ensureHost ip).1 := by
  unfold ensureHost
  split
  · exact .refl
  · rename_i missing
    exact .single (.addHost missing)

theorem startUpdate_edits (db : ResourceDatabase) (ip : IpAddress) :
    Edits joins db (db.startUpdate ip) :=
  (db.ensureHost_edits ip).tail (.resetMissed _)

theorem prepare_edits (db : ResourceDatabase) (res : Resource) (ip : IpAddress) :
    Edits joins db (db.prepare res ip) :=
  (db.ensureResource_edits res).trans (ensureHost_edits _ ip)

theorem addFileInternal_edits (db : ResourceDatabase) (res : Resource) (ip : IpAddress)
    (joined : ∀ h r, (db.prepare res ip).possession.address h = some ip →
      (db.prepare res ip).possession.key r = some res.key → joins (db.prepare res ip) h r) :
    Edits joins db (db.addFileInternal res ip) := by
  obtain ⟨h, r, linked, address, key⟩ := db.addFileInternal_connect res ip
  rw [linked]
  exact (db.prepare_edits res ip).tail (.connect (lookup_of_address address) (joined h r address key))

/-! ## Cutting and removing -/

theorem disconnect_edits (db : ResourceDatabase) (h : HostPtr) (r : ResourcePtr) :
    Edits joins db (db.disconnect h r) :=
  (Relation.ReflTransGen.single (.removeResource h r)).tail (.removeHost r h)

theorem removeFile_edits {res : Resource} {ip : IpAddress} {removed : Bool}
    (ok : db.removeFile res ip = .ok (removed, db')) : Edits joins db db' := by
  rcases removeFile_ok ok with ⟨-, rfl⟩ | ⟨h, r, -, rfl, -⟩
  · exact .refl
  · exact db.disconnect_edits h r

theorem removeResource_all_edits {r : ResourcePtr} {ps : List HostPtr} {hosts : Store Host}
    (ok : db.hosts.modifyAll Fault.expiredPointer (·.removeResource r) ps = .ok hosts) :
    Edits joins db { db with hosts } := by
  induction ps generalizing db with
  | nil =>
      obtain rfl : db.hosts = hosts := Except.ok.inj ok
      exact .refl
  | cons p rest ih =>
      simp only [Store.modifyAll] at ok
      split at ok
      · contradiction
      · let next := { db with hosts := db.hosts.modify p (·.removeResource r) }
        have later : Edits joins next { next with hosts } := ih ok
        exact .head (.removeResource p r) later

theorem removeHost_all_edits {h : HostPtr} {rs : List ResourcePtr} {resources : Store Resource}
    (ok : db.resources.modifyAll Fault.expiredPointer (·.removeHost h) rs = .ok resources) :
    Edits joins db { db with resources } := by
  induction rs generalizing db with
  | nil =>
      obtain rfl : db.resources = resources := Except.ok.inj ok
      exact .refl
  | cons r rest ih =>
      simp only [Store.modifyAll] at ok
      split at ok
      · contradiction
      · let next := { db with resources := db.resources.modify r (·.removeHost h) }
        have later : Edits joins next { next with resources } := ih ok
        exact .head (.removeHost r h) later

theorem revokeResource_edits {res : Resource} (ok : db.revokeResource res = .ok db') :
    Edits joins db db' := by
  cases found : db.findResource res with
  | none =>
      obtain rfl : db = db' := Except.ok.inj ((revokeResource_missing found).symm.trans ok)
      exact .refl
  | some r =>
      obtain ⟨hosts, cut, rfl⟩ := (revokeResource_ok found).mp ok
      let revoked := { db with resources := db.resources.modify r.ptr (·.setRevoked) }
      have later : Edits joins revoked { revoked with hosts } := removeResource_all_edits cut
      exact .head (.setRevoked r.ptr) later

theorem removeHost_edits {h : Shared Host} (ok : db.removeHost h = .ok db') :
    Edits joins db db' := by
  by_cases me : h.ptr = db.myHost
  · exact Except.ok.inj ((removeHost_local me).symm.trans ok) ▸ .refl
  · obtain ⟨resources, cut, rfl⟩ := (removeHost_removed me).mp ok
    exact (removeHost_all_edits cut).tail (.eraseHost h.ptr)

theorem checkForGoneHostsLoop_edits {leftMargin : UInt16} {rounds i : Nat}
    (ok : checkForGoneHostsLoop leftMargin rounds i db = .ok db') : Edits joins db db' := by
  induction rounds generalizing i db with
  | zero =>
      obtain rfl : db = db' := by simpa [checkForGoneHostsLoop] using ok
      exact .refl
  | succ rounds ih =>
      cases at_i : db.hosts.objects[i]? with
      | none => simp [checkForGoneHostsLoop, at_i] at ok
      | some h =>
          rcases checkForGoneHostsLoop_succ at_i ok with same | ⟨next, -, step, later⟩
          · exact ih same
          · exact (removeHost_edits step).trans (ih later)

/-! ## Every operation -/

theorem addFileInternal_edits_any (db : ResourceDatabase) (res : Resource) (ip : IpAddress) :
    Edits (fun _ _ _ => True) db (db.addFileInternal res ip) :=
  db.addFileInternal_edits res ip fun _ _ _ _ => trivial

theorem advertise_fold_edits {toUpdate : HostPtr} {ip : IpAddress} {rest : List Resource}
    (ok : rest.foldlM (advertise toUpdate ip) db = .ok db') :
    Edits (fun _ _ _ => True) db db' := by
  refine foldlM_invariant (Edits (fun _ _ _ => True) db) ok .refl
    fun s res s' _ edits round => ?_
  rcases advertise_ok round with rfl | rfl
  · exact edits
  · exact edits.trans (s.addFileInternal_edits_any res ip)

theorem apply_edits {op : Op} (ok : db.apply op = .ok db') :
    Edits (fun _ _ _ => True) db db' := by
  cases op with
  | addFile res ip => exact Except.ok.inj ok ▸ db.addFileInternal_edits_any res ip
  | removeFile res ip =>
      obtain ⟨⟨removed, next⟩, removal, rfl⟩ := map_eq_ok.mp ok
      exact removeFile_edits removal
  | updateHost ip possesed =>
      have later := advertise_fold_edits ok
      exact (db.startUpdate_edits ip).trans later
  | revokeResource res => exact revokeResource_edits ok
  | checkForGoneHosts leftMargin => exact checkForGoneHostsLoop_edits ok

theorem reach_edits {ip : IpAddress} {allowed : ResourceDatabase → Op → Prop}
    {Inv : ResourceDatabase → Prop} (h : Reach apply allowed (start ip) db) (initial : Inv (start ip))
    (preserved : ∀ s s', Inv s → Edit (fun _ _ _ => True) s s' → Inv s') : Inv db :=
  h.invariant initial fun _ _ _ kept _ ok => (apply_edits ok).invariant kept preserved

/-! ## Pointers name objects that were allocated -/

def Allocated (db : ResourceDatabase) : Prop :=
  ∀ r x, db.resources.lookup r = some x → ∀ p ∈ x.hostsInPossession, p < db.hosts.next

theorem Allocated.edit (h : db.Allocated) (edit : Edit joins db db') : db'.Allocated := by
  cases edit with
  | addResource missing => exact Store.forall_lookup_push h (by simp)
  | addHost missing => exact fun r x found p listed => Nat.lt_succ_of_lt (h r x found p listed)
  | resetMissed q => exact h
  | @connect q s there joined =>
      obtain ⟨host, here⟩ := Option.ne_none_iff_exists'.mp there
      have present : q < db.hosts.next := db.hosts.fresh _ (Store.lookup_eq_some.mp here)
      refine Store.forall_lookup_modify h fun x _ old p listed => ?_
      rcases List.mem_append.mp listed with before | new
      · exact old p before
      · exact List.mem_singleton.mp new ▸ present
  | removeResource q s => exact h
  | removeHost s q =>
      exact Store.forall_lookup_modify h fun x _ old p listed => old p (List.mem_of_mem_filter listed)
  | setRevoked s => exact Store.forall_lookup_modify h fun x _ old => old
  | eraseHost q => exact h

theorem Allocated.edits (h : db.Allocated) (edits : Edits joins db db') : db'.Allocated :=
  edits.invariant h fun _ _ kept edit => kept.edit edit

theorem allocated_start (ip : IpAddress) : (start ip).Allocated := by
  simp [Allocated, start]

theorem reach_allocated {ip : IpAddress} {allowed : ResourceDatabase → Op → Prop}
    (h : Reach apply allowed (start ip) db) : db.Allocated :=
  reach_edits h (allocated_start ip) fun _ _ kept edit => kept.edit edit

end SimpleP2P.ResourceDatabase
