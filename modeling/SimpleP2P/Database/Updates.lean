import SimpleP2P.Database.Edits
import SimpleP2P.Library.OrderFree

namespace SimpleP2P
open Library

/-- The hosts and the resources of a database, and how often they list each other. Under `holders`, a
host that has left is `none`. -/
@[ext] structure View where
  missed : IpAddress → Option UInt16
  invalidated : ResourceKey → Option Bool
  possessed : IpAddress × ResourceKey → Nat
  holders : ResourceKey × Option IpAddress → Nat

abbrev News := IpAddress × Option ResourceKey

namespace View

def touch (v : View) (ip : IpAddress) : View :=
  { v with missed := Function.update v.missed ip (some 0) }

def create (v : View) (k : ResourceKey) : View :=
  { v with invalidated := Function.update v.invalidated k (some ((v.invalidated k).getD false)) }

def connect (v : View) (ip : IpAddress) (k : ResourceKey) : View :=
  { v with
    possessed := Function.update v.possessed (ip, k) (v.possessed (ip, k) + 1)
    holders := Function.update v.holders (k, some ip) (v.holders (k, some ip) + 1) }

def list (v : View) (ip : IpAddress) (k : ResourceKey) : View :=
  if v.possessed (ip, k) = 0 then (v.create k).connect ip k else v

def hear (v : View) : News → View
  | (ip, none) => v.touch ip
  | (ip, some k) => (v.touch ip).list ip k

theorem touch_comm (v : View) (ip ip' : IpAddress) : (v.touch ip).touch ip' = (v.touch ip').touch ip := by
  by_cases same : ip = ip'
  · rw [same]
  · simp only [touch]
    rw [Function.update_comm same]

theorem create_comm (v : View) (k k' : ResourceKey) :
    (v.create k).create k' = (v.create k').create k := by
  by_cases same : k = k'
  · rw [same]
  · simp only [create, Function.update_of_ne same, Function.update_of_ne (Ne.symm same)]
    rw [Function.update_comm same]

theorem connect_comm (v : View) (ip ip' : IpAddress) (k k' : ResourceKey) :
    (v.connect ip k).connect ip' k' = (v.connect ip' k').connect ip k := by
  by_cases same : (ip, k) = (ip', k')
  · obtain ⟨rfl, rfl⟩ := Prod.mk.inj same
    rfl
  · have back : (k, some ip) ≠ (k', some ip') := by
      intro eq
      obtain ⟨rfl, ips⟩ := Prod.mk.inj eq
      exact same (by rw [Option.some.inj ips])
    simp only [connect, Function.update_of_ne same, Function.update_of_ne (Ne.symm same),
      Function.update_of_ne back, Function.update_of_ne back.symm]
    rw [Function.update_comm same, Function.update_comm back]

theorem connect_possessed (v : View) {ip ip' : IpAddress} {k k' : ResourceKey}
    (other : (ip', k') ≠ (ip, k)) : (v.connect ip k).possessed (ip', k') = v.possessed (ip', k') :=
  Function.update_of_ne other _ _

theorem list_new {v : View} {ip : IpAddress} {k : ResourceKey} (new : v.possessed (ip, k) = 0) :
    v.list ip k = (v.create k).connect ip k :=
  if_pos new

theorem list_old {v : View} {ip : IpAddress} {k : ResourceKey} (old : v.possessed (ip, k) ≠ 0) :
    v.list ip k = v :=
  if_neg old

theorem list_possessed (v : View) {ip ip' : IpAddress} {k k' : ResourceKey}
    (other : (ip', k') ≠ (ip, k)) : (v.list ip k).possessed (ip', k') = v.possessed (ip', k') := by
  unfold list
  split
  · exact (v.create k).connect_possessed other
  · rfl

theorem list_comm (v : View) (ip ip' : IpAddress) (k k' : ResourceKey) :
    (v.list ip k).list ip' k' = (v.list ip' k').list ip k := by
  by_cases same : (ip, k) = (ip', k')
  · obtain ⟨rfl, rfl⟩ := Prod.mk.inj same
    rfl
  · have after := v.list_possessed (Ne.symm same)
    have after' := v.list_possessed same
    by_cases new : v.possessed (ip, k) = 0
    · by_cases new' : v.possessed (ip', k') = 0
      · rw [list_new (after.trans new'), list_new (after'.trans new), list_new new, list_new new']
        calc
          (((v.create k).create k').connect ip k).connect ip' k' =
              (((v.create k).create k').connect ip' k').connect ip k := connect_comm _ _ _ _ _
          _ = (((v.create k').create k).connect ip' k').connect ip k := by rw [v.create_comm]
      · rw [list_old (fun eq => new' (after.symm.trans eq)), list_old new']
    · rw [list_old new, list_old (fun eq => new (after'.symm.trans eq))]

theorem touch_list (v : View) (ip ip' : IpAddress) (k : ResourceKey) :
    (v.list ip k).touch ip' = (v.touch ip').list ip k := by
  by_cases new : v.possessed (ip, k) = 0
  · have new' : (v.touch ip').possessed (ip, k) = 0 := new
    rw [list_new new, list_new new']
    rfl
  · have old' : (v.touch ip').possessed (ip, k) ≠ 0 := new
    rw [list_old new, list_old old']

theorem list_possessed_self (v : View) (ip : IpAddress) (k : ResourceKey) :
    (v.list ip k).possessed (ip, k) ≠ 0 := by
  by_cases new : v.possessed (ip, k) = 0
  · simp [list_new new, connect]
  · rwa [list_old new]

theorem list_twice (v : View) (ip : IpAddress) (k : ResourceKey) :
    (v.list ip k).list ip k = v.list ip k :=
  list_old (v.list_possessed_self ip k)

def listAll (v : View) (ip : IpAddress) (ks : List ResourceKey) : View :=
  ks.foldl (·.list ip) v

theorem orderFree_list (ip : IpAddress) : OrderFree fun (v : View) k => v.list ip k where
  comm v k k' := v.list_comm ip ip k k'
  twice v k := v.list_twice ip k

theorem listAll_possessed (v : View) (ip : IpAddress) {ks : List ResourceKey} {k : ResourceKey}
    (member : k ∈ ks) : (v.listAll ip ks).possessed (ip, k) ≠ 0 := by
  have listed := (v.listAll ip ks).list_possessed_self ip k
  rwa [listAll, (orderFree_list ip).absorb v member] at listed

@[simp] theorem list_missed (v : View) (ip : IpAddress) (k : ResourceKey) :
    (v.list ip k).missed = v.missed := by
  unfold list
  split <;> rfl

theorem touch_of_missed {v : View} {ip : IpAddress} (h : v.missed ip = some 0) : v.touch ip = v := by
  simp [touch, ← h]

theorem create_of_invalidated {v : View} {k : ResourceKey} {b : Bool} (h : v.invalidated k = some b) :
    v.create k = v := by
  have same : some ((v.invalidated k).getD false) = v.invalidated k := by simp [h]
  simp [create, same]

theorem touch_twice (v : View) (ip : IpAddress) : (v.touch ip).touch ip = v.touch ip := by
  simp [touch]

theorem orderFree : OrderFree hear where
  comm v a b := by
    obtain ⟨ip, _ | k⟩ := a <;> obtain ⟨ip', _ | k'⟩ := b <;> simp only [hear]
    · exact v.touch_comm ip ip'
    · rw [touch_list, v.touch_comm]
    · rw [touch_list, v.touch_comm]
    · rw [touch_list, touch_list, v.touch_comm, list_comm]
  twice v a := by
    obtain ⟨ip, _ | k⟩ := a <;> simp only [hear]
    · exact v.touch_twice ip
    · rw [touch_list, touch_twice, list_twice]

theorem hear_possessed (v : View) (n : News) {ip : IpAddress} {k : ResourceKey} :
    (v.hear n).possessed (ip, k) ≠ 0 ↔ v.possessed (ip, k) ≠ 0 ∨ n = (ip, some k) := by
  obtain ⟨ip', _ | k'⟩ := n
  · simp [hear, touch]
  · by_cases same : (ip, k) = (ip', k')
    · obtain ⟨rfl, rfl⟩ := Prod.mk.inj same
      simpa [hear] using (v.touch ip).list_possessed_self ip k
    · have other : (ip', some k') ≠ (ip, some k) := by
        rintro ⟨rfl, rfl⟩
        exact same rfl
      rw [hear, list_possessed _ same]
      simp [touch, other]

theorem foldl_hear_possessed (v : View) (ns : List News) {ip : IpAddress} {k : ResourceKey} :
    (ns.foldl hear v).possessed (ip, k) ≠ 0 ↔ v.possessed (ip, k) ≠ 0 ∨ (ip, some k) ∈ ns := by
  induction ns generalizing v with
  | nil => simp
  | cons n rest ih =>
      rw [List.foldl_cons, ih, hear_possessed, List.mem_cons, or_assoc, @eq_comm _ n]

def news (ip : IpAddress) (ks : List ResourceKey) : List News :=
  (ip, none) :: ks.map fun k => (ip, some k)

theorem hear_news (v : View) (ip : IpAddress) (ks : List ResourceKey) :
    (news ip ks).foldl hear v = (v.touch ip).listAll ip ks := by
  have touched : (v.touch ip).missed ip = some 0 := by simp [touch]
  simp only [news, List.foldl_cons, List.foldl_map, hear, listAll]
  generalize v.touch ip = w at touched
  induction ks generalizing w with
  | nil => rfl
  | cons k rest ih =>
      rw [List.foldl_cons, List.foldl_cons, touch_of_missed touched]
      exact ih _ (by simpa using touched)

end View

namespace ResourceDatabase

def ofKey (db : ResourceDatabase) (k : ResourceKey) : Option (Shared Resource) :=
  db.resources.find? (·.key == k)

def view (db : ResourceDatabase) : View where
  missed ip := (db.findHost ip).map (·.obj.noOfMissedUpdates)
  invalidated k := (db.ofKey k).map (·.obj.invalidated)
  possessed e := ((db.findHost e.1).elim [] (·.obj.possesedResources)).countP
    (db.possession.key · = some e.2)
  holders e := ((db.ofKey e.1).elim [] (·.obj.hostsInPossession)).countP
    (db.possession.address · = e.2)

variable {db db' : ResourceDatabase}

theorem findResource_eq_ofKey (db : ResourceDatabase) (res : Resource) :
    db.findResource res = db.ofKey res.key := by
  unfold findResource ofKey
  congr 1
  funext x
  rw [Bool.eq_iff_iff, sameAs_iff_key, beq_iff_eq]

theorem ofKey_some {k : ResourceKey} {r : Shared Resource} (found : db.ofKey k = some r) :
    db.resources.lookup r.ptr = some r.obj ∧ db.possession.key r.ptr = some k := by
  obtain ⟨there, same⟩ := Store.find?_some found
  exact ⟨there, by simpa [possession, there] using same⟩

theorem Valid.ofKey_of_key (valid : db.Valid) {r : ResourcePtr} {k : ResourceKey}
    (named : db.possession.key r = some k) : ∃ x ∈ db.ofKey k, x.ptr = r := by
  obtain ⟨x, there, rfl⟩ := Option.map_eq_some_iff.mp named
  obtain ⟨found, member, same⟩ := valid.findResource_of_key named
  exact ⟨found, db.findResource_eq_ofKey x ▸ member, same⟩

/-! ## Creating -/

theorem view_pushHost (allocated : db.Allocated) {ip : IpAddress} (missing : db.findHost ip = none) :
    { db with hosts := db.hosts.push { hostIp := ip } }.view = db.view.touch ip := by
  have found (ip' : IpAddress) : { db with hosts := db.hosts.push { hostIp := ip } }.findHost ip' =
      if ip' = ip then some ⟨db.hosts.next, { hostIp := ip }⟩ else db.findHost ip' :=
    Store.find?_push_key (g := Host.hostIp) (k := ip) rfl missing ip'
  ext x
  · simp only [view, View.touch, found, Function.update_apply]
    split <;> simp
  · rfl
  · obtain ⟨ip', k⟩ := x
    simp only [view, View.touch, found]
    split
    · rename_i same
      simp [same, missing]
    · rfl
  · simp only [view, View.touch]
    refine List.countP_congr fun p listed => ?_
    change p ∈ (db.ofKey x.1).elim [] _ at listed
    have old : p < db.hosts.next := by
      cases at_x : db.ofKey x.1 with
      | none => simp [at_x] at listed
      | some r => exact allocated r.ptr r.obj (ofKey_some at_x).1 p (by simpa [at_x] using listed)
    have same : { db with hosts := db.hosts.push { hostIp := ip } }.possession.address p =
        db.possession.address p := by
      simp [possession, Store.lookup_push, Nat.ne_of_lt old]
    rw [same]

theorem view_pushResource (valid : db.Valid) {res : Resource}
    (missing : db.findResource res = none) :
    { db with resources := db.resources.push res.copy }.view = db.view.create res.key := by
  rw [findResource_eq_ofKey] at missing
  have found (k : ResourceKey) : { db with resources := db.resources.push res.copy }.ofKey k =
      if k = res.key then some ⟨db.resources.next, res.copy⟩ else db.ofKey k :=
    Store.find?_push_key (a := res.copy) (g := Resource.key) (k := res.key) rfl missing k
  ext x
  · rfl
  · simp only [view, View.create, found, Function.update_apply, missing]
    split <;> simp
  · simp only [view, View.create]
    refine List.countP_congr fun r listed => ?_
    change r ∈ (db.findHost x.1).elim [] _ at listed
    have old : r ≠ db.resources.next := by
      rintro rfl
      cases at_x : db.findHost x.1 with
      | none => simp [at_x] at listed
      | some h =>
          exact valid.resource_of_possesed (findHost_some at_x).1 (by simpa [at_x] using listed)
            Store.lookup_next
    have same : { db with resources := db.resources.push res.copy }.possession.key r =
        db.possession.key r := by
      simp [possession, Store.lookup_push, old]
    rw [same]
  · obtain ⟨k, o⟩ := x
    simp only [view, View.create, found]
    split
    · rename_i same
      simp [same, missing]
    · rfl

/-! ## Writing -/

theorem Valid.findHost_modify (valid : db.Valid) {p : HostPtr} {ip : IpAddress}
    (named : db.possession.address p = some ip) {f : Host → Host} (kept : ∀ h, (f h).hostIp = h.hostIp)
    (ip' : IpAddress) : { db with hosts := db.hosts.modify p f }.findHost ip' =
      if ip' = ip then (db.findHost ip').map fun h => ⟨h.ptr, f h.obj⟩ else db.findHost ip' := by
  unfold findHost
  rw [Store.find?_modify (by simp [kept])]
  cases found : db.hosts.find? (·.hostIp == ip') with
  | none => simp
  | some h =>
      have address := (findHost_some found).2
      by_cases same : ip' = ip
      · have here : h.ptr = p := valid.address_inj _ _ _ address (same ▸ named)
        simp [same, Store.update, here]
      · have other : h.ptr ≠ p := by
          rintro rfl
          exact same (Option.some.inj (address.symm.trans named))
        simp [same, Store.update, other]

theorem Valid.ofKey_modify (valid : db.Valid) {r : ResourcePtr} {k : ResourceKey}
    (named : db.possession.key r = some k) {f : Resource → Resource} (kept : ∀ x, (f x).key = x.key)
    (k' : ResourceKey) : { db with resources := db.resources.modify r f }.ofKey k' =
      if k' = k then (db.ofKey k').map fun x => ⟨x.ptr, f x.obj⟩ else db.ofKey k' := by
  unfold ofKey
  rw [Store.find?_modify (by simp [kept])]
  cases found : db.resources.find? (·.key == k') with
  | none => simp
  | some x =>
      have key := (ofKey_some found).2
      by_cases same : k' = k
      · have here : x.ptr = r := valid.key_inj _ _ _ key (same ▸ named)
        simp [same, Store.update, here]
      · have other : x.ptr ≠ r := by
          rintro rfl
          exact same (Option.some.inj (key.symm.trans named))
        simp [same, Store.update, other]

theorem view_resetMissed (valid : db.Valid) {p : HostPtr} {ip : IpAddress}
    (named : db.possession.address p = some ip) :
    { db with hosts := db.hosts.modify p fun x => { x with noOfMissedUpdates := 0 } }.view =
      db.view.touch ip := by
  have found := valid.findHost_modify named (f := fun x => { x with noOfMissedUpdates := 0 })
    (fun _ => rfl)
  have same := possession_resetMissed db p
  obtain ⟨h, there, -⟩ := valid.findHost_of_address named
  ext x
  · simp only [view, View.touch, found, Function.update_apply]
    split
    · rename_i here
      simp [here, Option.mem_def.mp there]
    · rfl
  · rfl
  · simp only [view, View.touch, found, same]
    split
    · cases db.findHost x.1 <;> rfl
    · rfl
  · simp only [view, View.touch, same]
    rfl

theorem view_connect (valid : db.Valid) {p : HostPtr} {r : ResourcePtr} {ip : IpAddress}
    {k : ResourceKey} (address : db.possession.address p = some ip)
    (key : db.possession.key r = some k) : (db.connect p r).view = db.view.connect ip k := by
  have linked := possession_connect (lookup_of_address address) (lookup_of_key key)
  have hosts (ip' : IpAddress) : (db.connect p r).findHost ip' =
      if ip' = ip then (db.findHost ip').map fun h =>
        ⟨h.ptr, { h.obj with possesedResources := h.obj.possesedResources ++ [r] }⟩
      else db.findHost ip' :=
    valid.findHost_modify address
      (f := fun h => { h with possesedResources := h.possesedResources ++ [r] }) (fun _ => rfl) ip'
  have resources (k' : ResourceKey) : (db.connect p r).ofKey k' =
      if k' = k then (db.ofKey k').map fun x =>
        ⟨x.ptr, { x.obj with hostsInPossession := x.obj.hostsInPossession ++ [p] }⟩
      else db.ofKey k' :=
    valid.ofKey_modify key
      (f := fun x => { x with hostsInPossession := x.hostsInPossession ++ [p] }) (fun _ => rfl) k'
  ext x
  · simp only [view, View.connect, hosts]
    split
    · cases db.findHost x <;> rfl
    · rfl
  · simp only [view, View.connect, resources]
    split
    · cases db.ofKey x <;> rfl
    · rfl
  · obtain ⟨ip', k'⟩ := x
    obtain ⟨h, there, -⟩ := valid.findHost_of_address address
    simp only [view, View.connect, hosts, linked, Possession.link, Function.update_apply,
      Prod.mk.injEq]
    by_cases here : ip' = ip
    · simp [here, Option.mem_def.mp there, List.countP_append, key, eq_comm]
      split <;> simp_all
    · simp [here]
  · obtain ⟨k', o⟩ := x
    obtain ⟨x, there, -⟩ := valid.ofKey_of_key key
    simp only [view, View.connect, resources, linked, Possession.link, Function.update_apply,
      Prod.mk.injEq]
    by_cases here : k' = k
    · simp [here, Option.mem_def.mp there, List.countP_append, address, eq_comm]
      split <;> simp_all
    · simp [here]

/-! ## An update -/

theorem possessed_ne_zero {ip : IpAddress} {k : ResourceKey} (valid : db.Valid) {p : HostPtr}
    (address : db.possession.address p = some ip) : db.view.possessed (ip, k) ≠ 0 ↔
      ∃ r, db.possession.graph.forward p r ∧ db.possession.key r = some k := by
  obtain ⟨h, found, rfl⟩ := valid.findHost_of_address address
  have there := (findHost_some found).1
  rw [← Nat.pos_iff_ne_zero]
  simp only [view, Option.mem_def.mp found, Option.elim_some, List.countP_pos_iff, decide_eq_true_eq]
  constructor
  · rintro ⟨r, listed, key⟩
    exact ⟨r, ⟨h.obj, there, listed⟩, key⟩
  · rintro ⟨r, ⟨host, there', listed⟩, key⟩
    obtain rfl := Option.some.inj (there.symm.trans there')
    exact ⟨r, listed, key⟩

theorem view_prepare (valid : db.Valid) {res : Resource} {ip : IpAddress}
    (present : db.findHost ip ≠ none) : (db.prepare res ip).view = db.view.create res.key := by
  have hosts := (db.ensureResource_steps res).2.2
  obtain ⟨h, found⟩ := Option.ne_none_iff_exists'.mp present
  have found' : (db.ensureResource res).1.findHost ip = some h := by
    rw [← found]
    simp only [findHost, hosts]
  have same : db.prepare res ip = (db.ensureResource res).1 := by
    simp only [prepare, ensureHost, found']
  rw [same]
  unfold ensureResource
  split
  · rename_i r known
    rw [findResource_eq_ofKey] at known
    have flagged : db.view.invalidated res.key = some r.obj.invalidated := by simp [view, known]
    exact (View.create_of_invalidated flagged).symm
  · rename_i missing
    exact view_pushResource valid missing

structure Receiving (toUpdate : HostPtr) (ip : IpAddress) (db : ResourceDatabase) : Prop where
  valid : db.Valid
  allocated : db.Allocated
  address : db.possession.address toUpdate = some ip
  touched : db.view.missed ip = some 0

theorem advertise_view (valid : db.Valid) {toUpdate : HostPtr} {ip : IpAddress}
    (address : db.possession.address toUpdate = some ip) {res : Resource}
    (ok : advertise toUpdate ip db res = .ok db') : db'.view = db.view.list ip res.key := by
  rcases advertise_cases ok with ⟨rfl, listed⟩ | ⟨rfl, absent⟩
  · exact (View.list_old ((possessed_ne_zero valid address).mpr listed)).symm
  · have new : db.view.possessed (ip, res.key) = 0 := by
      by_contra old
      obtain ⟨r, forth, key⟩ := (possessed_ne_zero valid address).mp old
      exact absent r forth key
    obtain ⟨h, found, -⟩ := valid.findHost_of_address address
    obtain ⟨p, r, linked, address', key⟩ := db.addFileInternal_connect res ip
    rw [linked, view_connect (valid.prepare res ip) address' key, View.list_new new,
      view_prepare valid (by simp [Option.mem_def.mp found])]

theorem Receiving.advertise {toUpdate : HostPtr} {ip : IpAddress} (h : db.Receiving toUpdate ip)
    {res : Resource} (ok : advertise toUpdate ip db res = .ok db') : db'.Receiving toUpdate ip := by
  have viewed := advertise_view h.valid h.address ok
  rcases advertise_ok ok with rfl | rfl
  · exact h
  · have added : db.apply (.addFile res ip) = .ok (db.addFileInternal res ip) := rfl
    refine ⟨h.valid.apply added, h.allocated.edits (apply_edits added), ?_,
      by simpa [viewed] using h.touched⟩
    refine address_steps (db.addFileInternal_steps res ip) h.address ?_
    rintro l permitted rfl
    simp [Op.Permits] at permitted

theorem view_startUpdate (valid : db.Valid) (allocated : db.Allocated) (ip : IpAddress) :
    (db.startUpdate ip).view = db.view.touch ip := by
  have reset := view_resetMissed (valid.ensureHost ip) (db.ensureHost_steps ip).2.1
  refine Eq.trans reset ?_
  unfold ensureHost
  split
  · rfl
  · rename_i missing
    rw [view_pushHost allocated missing, View.touch_twice]

theorem receiving_start (valid : db.Valid) (allocated : db.Allocated) (ip : IpAddress) :
    (db.startUpdate ip).Receiving (db.ensureHost ip).2 ip :=
  ⟨valid.startUpdate ip, allocated.edits (@startUpdate_edits (fun _ _ _ => True) db ip),
    db.startUpdate_address ip, by simp [view_startUpdate valid allocated, View.touch]⟩

theorem Receiving.again {toUpdate : HostPtr} {ip : IpAddress} (h : db.Receiving toUpdate ip) :
    (db.ensureHost ip).2 = toUpdate ∧ db.startUpdate ip = db := by
  obtain ⟨host, found, rfl⟩ := h.valid.findHost_of_address h.address
  rw [Option.mem_def] at found
  have there := (findHost_some found).1
  have touched : host.obj.noOfMissedUpdates = 0 := by simpa [view, found] using h.touched
  have same : db.ensureHost ip = (db, host.ptr) := by simp only [ensureHost, found]
  refine ⟨by rw [same], ?_⟩
  unfold startUpdate
  rw [same, Store.modify_eq_self there (by simp [← touched])]

theorem receiving_fold {toUpdate : HostPtr} {ip : IpAddress} (h : db.Receiving toUpdate ip)
    {possesed : List Resource} (ok : possesed.foldlM (advertise toUpdate ip) db = .ok db') :
    db'.Receiving toUpdate ip ∧ db'.view = db.view.listAll ip (possesed.map Resource.key) := by
  induction possesed generalizing db with
  | nil =>
      obtain rfl : db = db' := by simpa [pure, Except.pure] using ok
      exact ⟨h, rfl⟩
  | cons res rest ih =>
      rw [List.foldlM_cons] at ok
      obtain ⟨next, round, later⟩ := bind_eq_ok.mp ok
      obtain ⟨received, viewed⟩ := ih (h.advertise round) later
      exact ⟨received, by rw [viewed, advertise_view h.valid h.address round]; rfl⟩

theorem updateHost_receiving (valid : db.Valid) (allocated : db.Allocated) {ip : IpAddress}
    {possesed : List Resource} (ok : db.updateHost ip possesed = .ok db') :
    db'.Receiving (db.ensureHost ip).2 ip ∧
      db'.view = (View.news ip (possesed.map Resource.key)).foldl View.hear db.view := by
  obtain ⟨received, viewed⟩ := receiving_fold (receiving_start valid allocated ip) ok
  rw [viewed, view_startUpdate valid allocated, View.hear_news]
  exact ⟨received, rfl⟩

theorem updateHost_append (valid : db.Valid) (allocated : db.Allocated) (ip : IpAddress)
    (first second : List Resource) :
    (db.updateHost ip first >>= fun db => db.updateHost ip second) =
      db.updateHost ip (first ++ second) := by
  rw [db.updateHost_eq ip (first ++ second), List.foldlM_append, ← updateHost_eq]
  obtain ⟨next, ok⟩ := valid.updateHost_ok ip first
  obtain ⟨toUpdate, start⟩ := (updateHost_receiving valid allocated ok).1.again
  rw [ok]
  simp only [bind, Except.bind]
  rw [updateHost_eq, toUpdate, start]

theorem Receiving.advertise_listed {toUpdate : HostPtr} {ip : IpAddress}
    (h : db.Receiving toUpdate ip) {res : Resource} (listed : db.view.possessed (ip, res.key) ≠ 0) :
    ResourceDatabase.advertise toUpdate ip db res = .ok db := by
  obtain ⟨next, ok⟩ := advertise_fold_ok h.valid h.address [res]
  rw [List.foldlM_cons] at ok
  obtain ⟨db', round, last⟩ := bind_eq_ok.mp ok
  rcases advertise_cases round with ⟨rfl, -⟩ | ⟨-, absent⟩
  · exact round
  · obtain ⟨r, forth, key⟩ := (possessed_ne_zero h.valid h.address).mp listed
    exact absurd key (absent r forth)

theorem updateHost_twice (valid : db.Valid) (allocated : db.Allocated) (ip : IpAddress)
    (possesed : List Resource) :
    (db.updateHost ip possesed >>= fun db => db.updateHost ip possesed) =
      db.updateHost ip possesed := by
  obtain ⟨next, ok⟩ := valid.updateHost_ok ip possesed
  obtain ⟨received, viewed⟩ := receiving_fold (receiving_start valid allocated ip) ok
  obtain ⟨toUpdate, start⟩ := received.again
  have listed : ∀ res ∈ possesed, next.view.possessed (ip, res.key) ≠ 0 := fun res member =>
    viewed ▸ View.listAll_possessed _ ip (List.mem_map_of_mem member)
  rw [ok]
  simp only [bind, Except.bind]
  rw [updateHost_eq, toUpdate, start]
  clear ok viewed
  induction possesed with
  | nil => rfl
  | cons res rest ih =>
      rw [List.foldlM_cons, received.advertise_listed (listed res List.mem_cons_self)]
      exact ih fun other member => listed other (List.mem_cons_of_mem _ member)

/-! ## Packets -/

def receiveAll (db : ResourceDatabase) (packets : List (IpAddress × List Resource)) :
    Except Fault ResourceDatabase :=
  packets.foldlM (fun db packet => db.updateHost packet.1 packet.2) db

def newsOf (packets : List (IpAddress × List Resource)) : List News :=
  packets.flatMap fun packet => View.news packet.1 (packet.2.map Resource.key)

def SameUpToOrder (db db' : ResourceDatabase) : Prop :=
  db.localhost = db'.localhost ∧ db.view = db'.view

theorem receiveAll_view (valid : db.Valid) (allocated : db.Allocated)
    (packets : List (IpAddress × List Resource)) : ∃ db', db.receiveAll packets = .ok db' ∧
      db'.Valid ∧ db'.Allocated ∧ db'.localhost = db.localhost ∧
      db'.view = (newsOf packets).foldl View.hear db.view := by
  induction packets generalizing db with
  | nil => exact ⟨db, rfl, valid, allocated, rfl, rfl⟩
  | cons packet rest ih =>
      obtain ⟨next, ok⟩ := valid.updateHost_ok packet.1 packet.2
      have applied : db.apply (.updateHost packet.1 packet.2) = .ok next := ok
      obtain ⟨received, viewed⟩ := updateHost_receiving valid allocated ok
      obtain ⟨db', later, valid', allocated', localhost, final⟩ := ih received.valid received.allocated
      refine ⟨db', ?_, valid', allocated', localhost.trans (apply_localhost applied), ?_⟩
      · unfold receiveAll at later ⊢
        rw [List.foldlM_cons, ok]
        exact later
      · rw [final, viewed, ← List.foldl_append]
        rfl

theorem receiveAll_congr (valid : db.Valid) (allocated : db.Allocated)
    {packets packets' : List (IpAddress × List Resource)}
    (same : ∀ n, n ∈ newsOf packets ↔ n ∈ newsOf packets') :
    ∃ db₁ db₂, db.receiveAll packets = .ok db₁ ∧ db.receiveAll packets' = .ok db₂ ∧
      db₁.SameUpToOrder db₂ := by
  obtain ⟨db₁, first, -, -, localhost, viewed⟩ := receiveAll_view valid allocated packets
  obtain ⟨db₂, second, -, -, localhost', viewed'⟩ := receiveAll_view valid allocated packets'
  refine ⟨db₁, db₂, first, second, localhost.trans localhost'.symm, ?_⟩
  rw [viewed, viewed', View.orderFree.foldl_congr db.view same]

structure Mergeable (db : ResourceDatabase) : Prop where
  split : ∀ ip first second, (db.updateHost ip first >>= fun db => db.updateHost ip second) =
    db.updateHost ip (first ++ second)
  repeated : ∀ ip possesed, (db.updateHost ip possesed >>= fun db => db.updateHost ip possesed) =
    db.updateHost ip possesed
  swapped : ∀ ip ip' first second, ∃ db₁ db₂,
    (db.updateHost ip first >>= fun db => db.updateHost ip' second) = .ok db₁ ∧
    (db.updateHost ip' second >>= fun db => db.updateHost ip first) = .ok db₂ ∧
    db₁.SameUpToOrder db₂
  packets : ∀ packets packets', (∀ n, n ∈ newsOf packets ↔ n ∈ newsOf packets') →
    ∃ db₁ db₂, db.receiveAll packets = .ok db₁ ∧ db.receiveAll packets' = .ok db₂ ∧
      db₁.SameUpToOrder db₂

theorem receiveAll_pair (db : ResourceDatabase) (ip ip' : IpAddress) (first second : List Resource) :
    db.receiveAll [(ip, first), (ip', second)] =
      db.updateHost ip first >>= fun db => db.updateHost ip' second := by
  simp [receiveAll]

theorem reach_mergeable {me : IpAddress} (run : Reach apply Anything (start me) db) :
    db.Mergeable := by
  have valid := reach_valid run
  have allocated := reach_allocated run
  refine ⟨updateHost_append valid allocated, updateHost_twice valid allocated, ?_,
    fun _ _ same => receiveAll_congr valid allocated same⟩
  intro ip ip' first second
  have same : ∀ n, n ∈ newsOf [(ip, first), (ip', second)] ↔ n ∈ newsOf [(ip', second), (ip, first)] := by
    simp [newsOf, or_comm]
  simpa only [receiveAll_pair] using receiveAll_congr valid allocated same

theorem revoked_mergeable : ∃ db : ResourceDatabase,
    db.resources.objects.map (·.obj.invalidated) = [true] ∧ db.Mergeable := by
  let res : Resource := { size := 3, name := [97] }
  obtain ⟨db, run, revoked⟩ := exists_reach_of_exec apply Anything (start ⟨[10, 0, 0, 1]⟩)
    [.updateHost ⟨[10, 0, 0, 2]⟩ [res], .revokeResource res]
    (fun db => db.resources.objects.map (·.obj.invalidated) = [true]) (by decide)
  exact ⟨db, of_decide_eq_true revoked, reach_mergeable run⟩

end ResourceDatabase

end SimpleP2P
