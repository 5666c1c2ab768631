import SimpleP2P.Database.Model
import SimpleP2P.Database.Possession
import SimpleP2P.Library.Transition

namespace SimpleP2P.ResourceDatabase
open Library

def possession (db : ResourceDatabase) : Possession where
  graph :=
    { left := fun p => db.hosts.lookup p ≠ none
      right := fun r => db.resources.lookup r ≠ none
      frozen := fun r => ∃ x, db.resources.lookup r = some x ∧ x.invalidated = true
      forward := fun p r => ∃ h, db.hosts.lookup p = some h ∧ r ∈ h.possesedResources
      backward := fun r p => ∃ x, db.resources.lookup r = some x ∧ p ∈ x.hostsInPossession }
  address p := (db.hosts.lookup p).map Host.hostIp
  key r := (db.resources.lookup r).map Resource.key

def Op.Permits (db : ResourceDatabase) : Op → Possession.Label → Prop
  | .addFile res ip, l => l = .addHost ip ∨ l = .addResource res.key ∨ l = .link ip res.key
  | .removeFile res ip, l => l = .unlink ip res.key
  | .updateHost ip possesed, l =>
      l = .addHost ip ∨ ∃ res ∈ possesed, l = .addResource res.key ∨ l = .link ip res.key
  | .revokeResource res, l => l = .freeze res.key
  | .checkForGoneHosts leftMargin, l => ∃ h host, l = .drop h ∧ h ≠ db.myHost ∧
      db.hosts.lookup h = some host ∧ leftMargin ≤ host.noOfMissedUpdates

variable {db db' : ResourceDatabase}

theorem sameAs_iff_key {r other : Resource} : r.sameAs other = true ↔ r.key = other.key := by
  rw [Resource.sameAs_iff, Resource.key, Resource.key, Prod.mk.injEq, and_comm]

theorem findResource_some {res : Resource} {r : Shared Resource} (h : db.findResource res = some r) :
    db.resources.lookup r.ptr = some r.obj ∧ db.possession.key r.ptr = some res.key := by
  obtain ⟨found, same⟩ := Store.find?_some h
  refine ⟨found, ?_⟩
  simp [possession, found, sameAs_iff_key.mp same]

theorem findResource_none {res : Resource} (h : db.findResource res = none) (r : ResourcePtr) :
    db.possession.key r ≠ some res.key := by
  intro named
  obtain ⟨x, found, same⟩ := Option.map_eq_some_iff.mp named
  have differs := Store.find?_none h found
  rw [sameAs_iff_key.mpr same] at differs
  contradiction

theorem findHost_some {ip : IpAddress} {h : Shared Host} (found : db.findHost ip = some h) :
    db.hosts.lookup h.ptr = some h.obj ∧ db.possession.address h.ptr = some ip := by
  obtain ⟨there, same⟩ := Store.find?_some found
  exact ⟨there, by simpa [possession, there] using same⟩

theorem findHost_none {ip : IpAddress} (missing : db.findHost ip = none) (p : HostPtr) :
    db.possession.address p ≠ some ip := by
  intro named
  obtain ⟨x, found, same⟩ := Option.map_eq_some_iff.mp named
  simpa [same] using Store.find?_none missing found

/-! ## Creating resources and hosts -/

theorem possession_pushResource (db : ResourceDatabase) (res : Resource) :
    { db with resources := db.resources.push res.copy }.possession =
      db.possession.addResource db.resources.next res.key := by
  simp only [possession, Possession.addResource, LinkGraph.addRight, Possession.mk.injEq,
    LinkGraph.mk.injEq, true_and]
  refine ⟨⟨?_, ?_, ?_⟩, ?_⟩
  · funext q
    rw [Store.lookup_push]
    split <;> simp_all
  · funext q
    simp [Store.exists_lookup_push]
  · funext q p
    simp [Store.exists_lookup_push]
  · funext q
    rw [Store.lookup_push, Function.update_apply]
    split <;> rfl

theorem possession_pushHost (db : ResourceDatabase) (ip : IpAddress) :
    { db with hosts := db.hosts.push { hostIp := ip } }.possession =
      db.possession.addHost db.hosts.next ip := by
  simp only [possession, Possession.addHost, LinkGraph.addLeft, Possession.mk.injEq,
    LinkGraph.mk.injEq, true_and, and_true]
  refine ⟨⟨?_, ?_⟩, ?_⟩
  · funext q
    rw [Store.lookup_push]
    split <;> simp_all
  · funext p q
    simp [Store.exists_lookup_push]
  · funext q
    rw [Store.lookup_push, Function.update_apply]
    split <;> rfl

theorem ensureResource_steps (db : ResourceDatabase) (res : Resource) :
    Possession.Steps (· = .addResource res.key) db.possession (db.ensureResource res).1.possession ∧
      (db.ensureResource res).1.possession.key (db.ensureResource res).2 = some res.key ∧
      (db.ensureResource res).1.hosts = db.hosts := by
  unfold ensureResource
  split
  · rename_i r found
    exact ⟨.refl, (findResource_some found).2, rfl⟩
  · rename_i missing
    refine ⟨.single rfl ?_, ?_, rfl⟩
    · rw [possession_pushResource]
      exact .addResource (by simp [possession, Store.lookup_next]) (findResource_none missing)
    · rw [possession_pushResource]
      simp [Possession.addResource]

theorem ensureHost_steps (db : ResourceDatabase) (ip : IpAddress) :
    Possession.Steps (· = .addHost ip) db.possession (db.ensureHost ip).1.possession ∧
      (db.ensureHost ip).1.possession.address (db.ensureHost ip).2 = some ip ∧
      (db.ensureHost ip).1.resources = db.resources := by
  unfold ensureHost
  split
  · rename_i h found
    exact ⟨.refl, (findHost_some found).2, rfl⟩
  · rename_i missing
    refine ⟨.single rfl ?_, ?_, rfl⟩
    · rw [possession_pushHost]
      exact .addHost (by simp [possession, Store.lookup_next]) (findHost_none missing)
    · rw [possession_pushHost]
      simp [Possession.addHost]

/-! ## Links -/

theorem possession_connect {h : HostPtr} {r : ResourcePtr} (hh : db.hosts.lookup h ≠ none)
    (hr : db.resources.lookup r ≠ none) :
    (db.connect h r).possession = db.possession.link h r := by
  obtain ⟨host, foundHost⟩ := Option.ne_none_iff_exists'.mp hh
  obtain ⟨res, foundRes⟩ := Option.ne_none_iff_exists'.mp hr
  simp only [possession, connect, Possession.link, LinkGraph.link, Possession.mk.injEq,
    LinkGraph.mk.injEq]
  refine ⟨⟨?_, ?_, ?_, ?_, ?_⟩, ?_, ?_⟩
  · funext p
    rw [Store.lookup_modify]
    split <;> simp
  · funext q
    rw [Store.lookup_modify]
    split <;> simp
  · funext q
    rw [Store.exists_lookup_modify]
    split <;> rfl
  · funext p q
    rw [Store.exists_lookup_modify]
    split
    · rename_i here
      simp [here, foundHost]
    · rename_i other
      simp [other]
  · funext q p
    rw [Store.exists_lookup_modify]
    split
    · rename_i here
      simp [here, foundRes]
    · rename_i other
      simp [other]
  · funext p
    exact Store.lookup_modify_map fun _ => rfl
  · funext q
    exact Store.lookup_modify_map fun _ => rfl

theorem possession_disconnect (db : ResourceDatabase) (h : HostPtr) (r : ResourcePtr) :
    (db.disconnect h r).possession = db.possession.unlink h r := by
  simp only [possession, disconnect, Possession.unlink, LinkGraph.unlink, Possession.mk.injEq,
    LinkGraph.mk.injEq]
  refine ⟨⟨?_, ?_, ?_, ?_, ?_⟩, ?_, ?_⟩
  · funext p
    rw [Store.lookup_modify]
    split <;> simp
  · funext q
    rw [Store.lookup_modify]
    split <;> simp
  · funext q
    rw [Store.exists_lookup_modify]
    split <;> rfl
  · funext p q
    rw [Store.exists_lookup_modify]
    split
    · rename_i here
      simp [here, Host.removeResource, ← and_assoc]
    · rename_i other
      simp [other]
  · funext q p
    rw [Store.exists_lookup_modify]
    split
    · rename_i here
      simp [here, Resource.removeHost, ← and_assoc]
    · rename_i other
      simp [other]
  · funext p
    exact Store.lookup_modify_map fun _ => rfl
  · funext q
    exact Store.lookup_modify_map fun _ => rfl

theorem lookup_of_address {p : HostPtr} {ip : IpAddress} (h : db.possession.address p = some ip) :
    db.hosts.lookup p ≠ none := by
  intro missing
  simp [possession, missing] at h

theorem lookup_of_key {r : ResourcePtr} {k : ResourceKey} (h : db.possession.key r = some k) :
    db.resources.lookup r ≠ none := by
  intro missing
  simp [possession, missing] at h

def prepare (db : ResourceDatabase) (res : Resource) (ip : IpAddress) : ResourceDatabase :=
  ((db.ensureResource res).1.ensureHost ip).1

theorem prepare_steps (db : ResourceDatabase) (res : Resource) (ip : IpAddress) :
    Possession.Steps (fun l => l = .addHost ip ∨ l = .addResource res.key) db.possession
      (db.prepare res ip).possession := by
  obtain ⟨withResource, -, -⟩ := db.ensureResource_steps res
  obtain ⟨withHost, -, -⟩ := (db.ensureResource res).1.ensureHost_steps ip
  exact (withResource.mono fun l same => Or.inr same).trans (withHost.mono fun l same => Or.inl same)

theorem addFileInternal_connect (db : ResourceDatabase) (res : Resource) (ip : IpAddress) :
    ∃ h r, db.addFileInternal res ip = (db.prepare res ip).connect h r ∧
      (db.prepare res ip).possession.address h = some ip ∧
      (db.prepare res ip).possession.key r = some res.key := by
  obtain ⟨-, key, -⟩ := db.ensureResource_steps res
  obtain ⟨-, address, resources⟩ := (db.ensureResource res).1.ensureHost_steps ip
  refine ⟨_, (db.ensureResource res).2, rfl, address, ?_⟩
  simpa only [possession, prepare, resources] using key

theorem addFileInternal_link (db : ResourceDatabase) (res : Resource) (ip : IpAddress) :
    ∃ h r, (db.prepare res ip).possession.address h = some ip ∧
      (db.prepare res ip).possession.key r = some res.key ∧
      (db.addFileInternal res ip).possession = (db.prepare res ip).possession.link h r := by
  obtain ⟨h, r, linked, address, key⟩ := db.addFileInternal_connect res ip
  exact ⟨h, r, address, key,
    linked ▸ possession_connect (lookup_of_address address) (lookup_of_key key)⟩

theorem addFileInternal_steps (db : ResourceDatabase) (res : Resource) (ip : IpAddress) :
    Possession.Steps ((Op.addFile res ip).Permits db) db.possession
      (db.addFileInternal res ip).possession := by
  obtain ⟨h, r, address, key, linked⟩ := db.addFileInternal_link res ip
  rw [linked]
  refine .tail ((db.prepare_steps res ip).mono ?_) (Or.inr (Or.inr rfl)) (.link address key)
  rintro l (host | resource)
  · exact Or.inl host
  · exact Or.inr (Or.inl resource)

theorem addFileInternal_key (db : ResourceDatabase) (res : Resource) (ip : IpAddress) :
    ∃ r, (db.addFileInternal res ip).possession.key r = some res.key := by
  obtain ⟨h, r, -, key, linked⟩ := db.addFileInternal_link res ip
  exact ⟨r, linked ▸ key⟩

/-! ## remove_file -/

theorem findPossessor_ok {ip : IpAddress} {hosts : List HostPtr} {found : Option HostPtr}
    (h : db.findPossessor ip hosts = .ok found) :
    (∀ p ∈ found, p ∈ hosts ∧ db.possession.address p = some ip) ∧
      (found = none → ∀ p ∈ hosts, ∃ a, db.possession.address p = some a ∧ a ≠ ip) := by
  induction hosts with
  | nil =>
      obtain rfl : none = found := by simpa [findPossessor] using h
      simp
  | cons p rest ih =>
      simp only [findPossessor] at h
      cases there : db.hosts.lookup p with
      | none => simp [there] at h
      | some host =>
          simp only [there] at h
          split at h
          · rename_i same
            obtain rfl : some p = found := by simpa using h
            simp [possession, there, same]
          · rename_i differs
            obtain ⟨member, absent⟩ := ih h
            refine ⟨fun q hq => ⟨List.mem_cons_of_mem _ (member q hq).1, (member q hq).2⟩, ?_⟩
            rintro none q (_ | ⟨_, later⟩)
            · exact ⟨host.hostIp, by simp [possession, there], differs⟩
            · exact absent none q later

theorem findPossessor_expired {ip : IpAddress} {hosts : List HostPtr} {e : Fault}
    (h : db.findPossessor ip hosts = .error e) : ∃ p ∈ hosts, db.hosts.lookup p = none := by
  induction hosts with
  | nil => simp [findPossessor] at h
  | cons p rest ih =>
      simp only [findPossessor] at h
      cases there : db.hosts.lookup p with
      | none => exact ⟨p, List.mem_cons_self, there⟩
      | some host =>
          simp only [there] at h
          split at h
          · contradiction
          · obtain ⟨q, member, gone⟩ := ih h
            exact ⟨q, List.mem_cons_of_mem _ member, gone⟩

theorem removeFile_found {res : Resource} {ip : IpAddress} {r : Shared Resource} {removed : Bool}
    (found : db.findResource res = some r) : db.removeFile res ip = .ok (removed, db') ↔
      ∃ holder, db.findPossessor ip r.obj.hostsInPossession = .ok holder ∧
        removed = holder.isSome ∧ db' = holder.elim db (db.disconnect · r.ptr) := by
  simp only [removeFile, found, bind_eq_ok]
  refine exists_congr fun holder => and_congr_right fun _ => ?_
  cases holder <;> simp [pure, Except.pure, eq_comm]

theorem removeFile_ok {res : Resource} {ip : IpAddress} {removed : Bool}
    (h : db.removeFile res ip = .ok (removed, db')) :
    (removed = false ∧ db' = db) ∨ ∃ p r, removed = true ∧ db' = db.disconnect p r ∧
      db.possession.address p = some ip ∧ db.possession.key r = some res.key ∧
      db.possession.graph.backward r p := by
  cases found : db.findResource res with
  | none =>
      simp only [removeFile, found, Except.ok.injEq, Prod.mk.injEq] at h
      exact Or.inl ⟨h.1.symm, h.2.symm⟩
  | some r =>
      obtain ⟨holder, search, rfl, rfl⟩ := (removeFile_found found).mp h
      obtain ⟨member, -⟩ := findPossessor_ok search
      cases holder with
      | none => exact Or.inl ⟨rfl, rfl⟩
      | some p =>
          obtain ⟨there, named⟩ := findResource_some found
          obtain ⟨listed, address⟩ := member p rfl
          exact Or.inr ⟨p, r.ptr, rfl, rfl, address, named, r.obj, there, listed⟩

theorem removeFile_expired {res : Resource} {ip : IpAddress} {e : Fault}
    (h : db.removeFile res ip = .error e) :
    ∃ r p, db.possession.graph.backward r p ∧ ¬db.possession.graph.left p := by
  unfold removeFile at h
  split at h
  · contradiction
  · rename_i r found
    cases search : db.findPossessor ip r.obj.hostsInPossession with
    | error e =>
        obtain ⟨p, listed, gone⟩ := findPossessor_expired search
        exact ⟨r.ptr, p, ⟨r.obj, (findResource_some found).1, listed⟩, fun left => left gone⟩
    | ok possessor =>
        cases possessor <;> simp [search, bind, Except.bind, pure, Except.pure] at h

/-! ## update_host -/

theorem possession_resetMissed (db : ResourceDatabase) (h : HostPtr) :
    { db with hosts := db.hosts.modify h fun x => { x with noOfMissedUpdates := 0 } }.possession =
      db.possession := by
  simp only [possession, Possession.mk.injEq, LinkGraph.mk.injEq, true_and, and_true]
  refine ⟨⟨?_, ?_⟩, ?_⟩
  · funext p
    rw [Store.lookup_modify]
    split <;> simp
  · funext p q
    rw [Store.exists_lookup_modify]
    split <;> rfl
  · funext p
    exact Store.lookup_modify_map fun _ => rfl

theorem countSame_ok {res : Resource} {possesed : List ResourcePtr} {n : Nat}
    (h : db.countSame res possesed = .ok n) :
    n = 0 ↔ ∀ p ∈ possesed, db.possession.key p ≠ some res.key := by
  induction possesed generalizing n with
  | nil =>
      obtain rfl : 0 = n := by simpa [countSame] using h
      simp
  | cons p rest ih =>
      simp only [countSame] at h
      cases there : db.resources.lookup p with
      | none => simp [there] at h
      | some x =>
          simp only [there] at h
          obtain ⟨m, count, counted⟩ := bind_eq_ok.mp h
          obtain rfl := Except.ok.inj counted
          have named : db.possession.key p = some x.key := by simp [possession, there]
          rw [List.forall_mem_cons, ← ih count, named]
          by_cases same : res.sameAs x = true
          · simp [same, sameAs_iff_key.mp same]
          · have differs : x.key ≠ res.key := fun eq => same (sameAs_iff_key.mpr eq.symm)
            simp [same, differs]

theorem countSame_expired {res : Resource} {possesed : List ResourcePtr} {e : Fault}
    (h : db.countSame res possesed = .error e) : ∃ p ∈ possesed, db.resources.lookup p = none := by
  induction possesed generalizing e with
  | nil => simp [countSame] at h
  | cons p rest ih =>
      simp only [countSame] at h
      cases there : db.resources.lookup p with
      | none => exact ⟨p, List.mem_cons_self, there⟩
      | some x =>
          cases count : db.countSame res rest with
          | error e =>
              obtain ⟨q, member, gone⟩ := ih count
              exact ⟨q, List.mem_cons_of_mem _ member, gone⟩
          | ok m => simp [there, count, bind, Except.bind, pure, Except.pure] at h

theorem advertise_cases {h : HostPtr} {ip : IpAddress} {res : Resource}
    (ok : advertise h ip db res = .ok db') :
    (db' = db ∧ ∃ r, db.possession.graph.forward h r ∧ db.possession.key r = some res.key) ∨
      (db' = db.addFileInternal res ip ∧
        ∀ r, db.possession.graph.forward h r → db.possession.key r ≠ some res.key) := by
  unfold advertise at ok
  split at ok
  · contradiction
  · rename_i host there
    obtain ⟨n, count, ok⟩ := bind_eq_ok.mp ok
    split at ok
    · rename_i none
      refine Or.inr ⟨(Except.ok.inj ok).symm, ?_⟩
      rintro r ⟨same, here, listed⟩
      obtain rfl := Option.some.inj (there.symm.trans here)
      exact (countSame_ok count).mp none r listed
    · rename_i listed
      refine Or.inl ⟨(Except.ok.inj ok).symm, ?_⟩
      by_contra absent
      exact listed ((countSame_ok count).mpr fun r member named =>
        absent ⟨r, ⟨host, there, member⟩, named⟩)

theorem advertise_ok {h : HostPtr} {ip : IpAddress} {res : Resource}
    (ok : advertise h ip db res = .ok db') : db' = db ∨ db' = db.addFileInternal res ip := by
  rcases advertise_cases ok with ⟨same, -⟩ | ⟨added, -⟩
  · exact Or.inl same
  · exact Or.inr added

theorem advertise_fold_steps {toUpdate : HostPtr} {ip : IpAddress} {rest : List Resource}
    (ok : rest.foldlM (advertise toUpdate ip) db = .ok db') :
    Possession.Steps ((Op.updateHost ip rest).Permits db) db.possession db'.possession := by
  refine foldlM_invariant (fun db' =>
    Possession.Steps ((Op.updateHost ip rest).Permits db) db.possession db'.possession) ok .refl
    fun s res s' member steps round => ?_
  rcases advertise_ok round with rfl | rfl
  · exact steps
  · refine steps.trans ((s.addFileInternal_steps res ip).mono ?_)
    rintro l (same | named)
    · exact Or.inl same
    · exact Or.inr ⟨res, member, named⟩

theorem advertise_key {h : HostPtr} {ip : IpAddress} {res : Resource}
    (ok : advertise h ip db res = .ok db') : ∃ r, db'.possession.key r = some res.key := by
  rcases advertise_cases ok with ⟨rfl, r, -, named⟩ | ⟨rfl, -⟩
  · exact ⟨r, named⟩
  · exact db.addFileInternal_key res ip

theorem key_steps {permits : Possession.Label → Prop} {P Q : Possession}
    (h : Possession.Steps permits P Q) {r : ResourcePtr} {k : ResourceKey} (named : P.key r = some k) :
    Q.key r = some k := by
  let Inv (P : Possession) : Prop := P.key r = some k
  have kept : Inv Q := h.invariant named fun _ _ _ named _ step => Possession.key_step named step
  exact kept

theorem address_steps {permits : Possession.Label → Prop} {P Q : Possession}
    (h : Possession.Steps permits P Q) {p : HostPtr} {ip : IpAddress} (named : P.address p = some ip)
    (kept : ∀ l, permits l → l ≠ .drop p) : Q.address p = some ip := by
  let Inv (P : Possession) : Prop := P.address p = some ip
  have stays : Inv Q := h.invariant named fun l _ _ named permitted step =>
    Possession.address_step named (kept l permitted) step
  exact stays

theorem advertise_fold_key {toUpdate : HostPtr} {ip : IpAddress} {rest : List Resource}
    (ok : rest.foldlM (advertise toUpdate ip) db = .ok db') {res : Resource} (member : res ∈ rest) :
    ∃ r, db'.possession.key r = some res.key := by
  induction rest generalizing db with
  | nil => simp at member
  | cons first rest ih =>
      rw [List.foldlM_cons] at ok
      obtain ⟨next, round, later⟩ := bind_eq_ok.mp ok
      rcases List.mem_cons.mp member with rfl | member
      · obtain ⟨r, named⟩ := advertise_key round
        exact ⟨r, key_steps (advertise_fold_steps later) named⟩
      · exact ih later member

def startUpdate (db : ResourceDatabase) (ip : IpAddress) : ResourceDatabase :=
  { (db.ensureHost ip).1 with
    hosts := (db.ensureHost ip).1.hosts.modify (db.ensureHost ip).2 fun x =>
      { x with noOfMissedUpdates := 0 } }

theorem updateHost_eq (db : ResourceDatabase) (ip : IpAddress) (possesed : List Resource) :
    db.updateHost ip possesed =
      possesed.foldlM (advertise (db.ensureHost ip).2 ip) (db.startUpdate ip) := rfl

theorem startUpdate_possession (db : ResourceDatabase) (ip : IpAddress) :
    (db.startUpdate ip).possession = (db.ensureHost ip).1.possession :=
  possession_resetMissed _ _

theorem startUpdate_address (db : ResourceDatabase) (ip : IpAddress) :
    (db.startUpdate ip).possession.address (db.ensureHost ip).2 = some ip :=
  db.startUpdate_possession ip ▸ (db.ensureHost_steps ip).2.1

theorem updateHost_steps {ip : IpAddress} {possesed : List Resource}
    (h : db.updateHost ip possesed = .ok db') :
    Possession.Steps ((Op.updateHost ip possesed).Permits db) db.possession db'.possession := by
  obtain ⟨withHost, -, -⟩ := db.ensureHost_steps ip
  have final := advertise_fold_steps h
  rw [possession_resetMissed] at final
  exact (withHost.mono fun l same => Or.inl same).trans final

theorem updateHost_address {ip : IpAddress} {possesed : List Resource}
    (h : db.updateHost ip possesed = .ok db') : ∃ p, db'.possession.address p = some ip := by
  refine ⟨_, address_steps (advertise_fold_steps h) (db.startUpdate_address ip) ?_⟩
  rintro l permitted rfl
  simp [Op.Permits] at permitted

/-! ## revoke_resource -/

theorem revokeResource_ok {res : Resource} {r : Shared Resource}
    (found : db.findResource res = some r) : db.revokeResource res = .ok db' ↔
      ∃ hosts, db.hosts.modifyAll Fault.expiredPointer (·.removeResource r.ptr) r.obj.hostsInPossession =
          .ok hosts ∧
        db' = { db with resources := db.resources.modify r.ptr (·.setRevoked), hosts } := by
  simp only [revokeResource, found, bind_eq_ok]
  refine exists_congr fun hosts => and_congr_right fun _ => ?_
  simp [pure, Except.pure, eq_comm]

theorem revokeResource_found {res : Resource} {r : Shared Resource}
    (found : db.findResource res = some r) (h : db.revokeResource res = .ok db') :
    db'.possession = db.possession.freeze r.ptr := by
  obtain ⟨there, -⟩ := findResource_some found
  obtain ⟨hosts, cut, rfl⟩ := (revokeResource_ok found).mp h
  have lookup := Store.modifyAll_ok (Host.removeResource_twice · r.ptr) cut
  simp only [possession, Possession.freeze, LinkGraph.freeze, Possession.mk.injEq,
    LinkGraph.mk.injEq, lookup]
  refine ⟨⟨?_, ?_, ?_, ?_, ?_⟩, ?_, ?_⟩
  · funext p
    split <;> simp
  · funext q
    rw [Store.lookup_modify]
    split <;> simp
  · funext q
    rw [Store.exists_lookup_modify]
    split
    · rename_i here
      simp [here, Resource.setRevoked, there]
    · rename_i other
      simp [other]
  · funext p q
    split
    · rename_i listed
      cases db.hosts.lookup p with
      | none => simp
      | some host => by_cases here : q = r.ptr <;> simp [Host.removeResource, here, there, listed]
    · rename_i unlisted
      by_cases here : q = r.ptr <;> simp [here, there, unlisted]
  · funext q p
    rw [Store.exists_lookup_modify]
    split <;> rfl
  · funext p
    split
    · cases db.hosts.lookup p <;> rfl
    · rfl
  · funext q
    exact Store.lookup_modify_map fun _ => rfl

theorem revokeResource_missing {res : Resource} (missing : db.findResource res = none) :
    db.revokeResource res = .ok db := by
  simp [revokeResource, missing]

theorem revokeResource_expired {res : Resource} {e : Fault} (h : db.revokeResource res = .error e) :
    ∃ r p, db.possession.graph.backward r p ∧ ¬db.possession.graph.left p := by
  unfold revokeResource at h
  split at h
  · contradiction
  · rename_i r found
    cases cut : db.hosts.modifyAll Fault.expiredPointer (·.removeResource r.ptr)
        r.obj.hostsInPossession with
    | error e =>
        obtain ⟨-, p, listed, gone⟩ := Store.modifyAll_error cut
        exact ⟨r.ptr, p, ⟨r.obj, (findResource_some found).1, listed⟩, fun left => left gone⟩
    | ok hosts => simp [cut, bind, Except.bind, pure, Except.pure] at h

/-! ## check_for_gone_hosts -/

theorem removeHost_removed {h : Shared Host} (other : h.ptr ≠ db.myHost) :
    db.removeHost h = .ok db' ↔ ∃ resources,
      db.resources.modifyAll Fault.expiredPointer (·.removeHost h.ptr) h.obj.possesedResources =
          .ok resources ∧
        db' = { db with resources, hosts := db.hosts.erase h.ptr } := by
  rw [removeHost, if_pos other, bind_eq_ok]
  refine exists_congr fun resources => and_congr_right fun _ => ?_
  simp [pure, Except.pure, eq_comm]

theorem removeHost_ok {h : Shared Host} (there : db.hosts.lookup h.ptr = some h.obj)
    (other : h.ptr ≠ db.myHost) (ok : db.removeHost h = .ok db') :
    db'.possession = db.possession.drop h.ptr ∧ db'.hosts = db.hosts.erase h.ptr ∧
      db'.myHost = db.myHost := by
  obtain ⟨resources, cut, rfl⟩ := (removeHost_removed other).mp ok
  have lookup := Store.modifyAll_ok (Resource.removeHost_twice · h.ptr) cut
  refine ⟨?_, rfl, rfl⟩
  simp only [possession, Possession.drop, LinkGraph.dropLeft, Possession.mk.injEq,
    LinkGraph.mk.injEq, lookup]
  refine ⟨⟨?_, ?_, ?_, ?_, ?_⟩, ?_, ?_⟩
  · funext p
    rw [Store.lookup_erase]
    split <;> simp_all
  · funext q
    split <;> simp
  · funext q
    split
    · cases db.resources.lookup q <;> simp [Resource.removeHost]
    · rfl
  · funext p q
    rw [Store.exists_lookup_erase, and_comm]
  · funext q p
    split
    · rename_i listed
      cases db.resources.lookup q with
      | none => simp
      | some res => by_cases here : p = h.ptr <;> simp [Resource.removeHost, here, there, listed]
    · rename_i unlisted
      by_cases here : p = h.ptr <;> simp [here, there, unlisted]
  · funext p
    rw [Store.lookup_erase, Function.update_apply]
    split <;> rfl
  · funext q
    split
    · cases db.resources.lookup q <;> rfl
    · rfl

theorem removeHost_local {h : Shared Host} (me : h.ptr = db.myHost) : db.removeHost h = .ok db := by
  simp [removeHost, me]

theorem removeHost_expired {h : Shared Host} {e : Fault} (there : db.hosts.lookup h.ptr = some h.obj)
    (failed : db.removeHost h = .error e) :
    ∃ p r, db.possession.graph.forward p r ∧ ¬db.possession.graph.right r := by
  unfold removeHost at failed
  split at failed
  · cases cut : db.resources.modifyAll Fault.expiredPointer (·.removeHost h.ptr)
        h.obj.possesedResources with
    | error e =>
        obtain ⟨-, r, listed, gone⟩ := Store.modifyAll_error cut
        exact ⟨h.ptr, r, ⟨h.obj, there, listed⟩, fun right => right gone⟩
    | ok resources => simp [cut, bind, Except.bind, pure, Except.pure] at failed
  · contradiction

def Gone (db : ResourceDatabase) (leftMargin : UInt16) (h : HostPtr) : Prop :=
  ∃ host, h ≠ db.myHost ∧ db.hosts.lookup h = some host ∧ leftMargin ≤ host.noOfMissedUpdates

theorem checkForGoneHostsLoop_succ {leftMargin : UInt16} {rounds i : Nat} {h : Shared Host}
    (at_i : db.hosts.objects[i]? = some h)
    (ok : checkForGoneHostsLoop leftMargin (rounds + 1) i db = .ok db') :
    checkForGoneHostsLoop leftMargin rounds (i + 1) db = .ok db' ∨
      ∃ next, db.Gone leftMargin h.ptr ∧ db.removeHost h = .ok next ∧
        checkForGoneHostsLoop leftMargin rounds (i + 1) next = .ok db' := by
  have there := Store.lookup_of_getElem? at_i
  simp only [checkForGoneHostsLoop, at_i] at ok
  split at ok
  · rename_i gone
    by_cases me : h.ptr = db.myHost
    · rw [removeHost_local me] at ok
      exact Or.inl ok
    · obtain ⟨next, removed, later⟩ := bind_eq_ok.mp ok
      exact Or.inr ⟨next, ⟨h.obj, me, there, gone⟩, removed, later⟩
  · exact Or.inl ok

theorem checkForGoneHostsLoop_steps {leftMargin : UInt16} {rounds i : Nat}
    (ok : checkForGoneHostsLoop leftMargin rounds i db = .ok db') :
    Possession.Steps (fun l => ∃ h, l = .drop h ∧ db.Gone leftMargin h) db.possession
      db'.possession := by
  induction rounds generalizing i db with
  | zero =>
      obtain rfl : db = db' := by simpa [checkForGoneHostsLoop] using ok
      exact .refl
  | succ rounds ih =>
      cases at_i : db.hosts.objects[i]? with
      | none => simp [checkForGoneHostsLoop, at_i] at ok
      | some h =>
          rcases checkForGoneHostsLoop_succ at_i ok with same | ⟨next, gone, step, later⟩
          · exact ih same
          · have there := Store.lookup_of_getElem? at_i
            obtain ⟨dropped, hosts, me⟩ := removeHost_ok there gone.choose_spec.1 step
            have address : db.possession.address h.ptr = some h.obj.hostIp := by
              simp [possession, there]
            have first : Possession.Steps (fun l => ∃ h, l = .drop h ∧ db.Gone leftMargin h)
                db.possession next.possession :=
              .single ⟨h.ptr, rfl, gone⟩ (dropped ▸ .drop address)
            refine first.trans ((ih later).mono ?_)
            rintro l ⟨p, rfl, host, other, found, margin⟩
            rw [hosts, Store.lookup_erase] at found
            rw [me] at other
            split at found
            · contradiction
            · exact ⟨p, rfl, host, other, found, margin⟩

/-! ## Every operation -/

theorem apply_steps {op : Op} (h : db.apply op = .ok db') :
    Possession.Steps (op.Permits db) db.possession db'.possession := by
  cases op with
  | addFile res ip =>
      obtain rfl := Except.ok.inj h
      exact db.addFileInternal_steps res ip
  | removeFile res ip =>
      obtain ⟨⟨removed, next⟩, ok, rfl⟩ := map_eq_ok.mp h
      rcases removeFile_ok ok with ⟨-, rfl⟩ | ⟨p, r, -, rfl, address, key, -⟩
      · exact .refl
      · exact .single rfl (possession_disconnect db p r ▸ .unlink address key)
  | updateHost ip possesed => exact updateHost_steps h
  | revokeResource res =>
      cases found : db.findResource res with
      | none =>
          obtain rfl := Except.ok.inj ((revokeResource_missing found).symm.trans h)
          exact .refl
      | some r =>
          exact .single rfl (revokeResource_found found h ▸ .freeze (findResource_some found).2)
  | checkForGoneHosts leftMargin =>
      refine (checkForGoneHostsLoop_steps h).mono ?_
      rintro l ⟨p, rfl, host, other, there, margin⟩
      exact ⟨p, host, rfl, other, there, margin⟩

end SimpleP2P.ResourceDatabase
