import SimpleP2P.Database.Edits

namespace SimpleP2P
open Library

inductive InitError
  | noHostHasResource
  | noHostAvailable
  | fault (fault : Fault)
  deriving DecidableEq, Repr

namespace ResourceDatabase

/-- The loop of `create_workers`; `retarded` is what `is_retarded` answers to each of its calls. -/
def workersFor (db : ResourceDatabase) (retarded : Nat → HostPtr → Bool) :
    Nat → List HostPtr → Except Fault (List HostPtr)
  | _, [] => .ok []
  | i, p :: rest =>
      match db.hosts.lookup p with
      | none => .error .expiredPointer
      | some _ => do
          let workers ← db.workersFor retarded (i + 1) rest
          return if retarded i p then workers else p :: workers

def createWorkers (db : ResourceDatabase) (retarded : Nat → HostPtr → Bool) (resource : Resource) :
    Except InitError (List HostPtr) := do
  if resource.hostsInPossession.isEmpty then throw .noHostHasResource
  let workers ← (db.workersFor retarded 0 resource.hostsInPossession).mapError .fault
  if workers.isEmpty then throw .noHostAvailable
  return workers

structure NoParallelEdges (db : ResourceDatabase) : Prop where
  possessed : ∀ p h, db.hosts.lookup p = some h → h.possesedResources.Nodup
  holders : ∀ r x, db.resources.lookup r = some x → x.hostsInPossession.Nodup
  advertised : ∀ h, db.findHost db.myHostIp = some h →
    (h.obj.possesedResources.map db.possession.key).Nodup
  connected : ∀ r x retarded workers, db.resources.lookup r = some x →
    db.createWorkers retarded x = .ok workers → (workers.map db.possession.address).Nodup

/-- `add_file` is called for a host that the resource does not list, and a host advertises no
resource that lists it and that it does not list itself. -/
def JoinsNew (db : ResourceDatabase) : Op → Prop
  | .addFile res ip => ∀ r ∈ db.findResource res, ∀ h ∈ db.findHost ip,
      h.ptr ∉ r.obj.hostsInPossession
  | .updateHost ip possesed => ∀ h ∈ db.findHost ip, ∀ res ∈ possesed, ∀ r ∈ db.findResource res,
      h.ptr ∈ r.obj.hostsInPossession → r.ptr ∈ h.obj.possesedResources
  | _ => True

instance (db : ResourceDatabase) : (op : Op) → Decidable (db.JoinsNew op)
  | .addFile res ip => inferInstanceAs (Decidable (∀ r ∈ db.findResource res, ∀ h ∈ db.findHost ip,
      h.ptr ∉ r.obj.hostsInPossession))
  | .updateHost ip possesed => inferInstanceAs (Decidable (∀ h ∈ db.findHost ip, ∀ res ∈ possesed,
      ∀ r ∈ db.findResource res, h.ptr ∈ r.obj.hostsInPossession → r.ptr ∈ h.obj.possesedResources))
  | .removeFile _ _ | .revokeResource _ | .checkForGoneHosts _ => .isTrue trivial

structure Simple (db : ResourceDatabase) : Prop where
  possessed : ∀ p h, db.hosts.lookup p = some h → h.possesedResources.Nodup
  holders : ∀ r x, db.resources.lookup r = some x → x.hostsInPossession.Nodup

def Unjoined (db : ResourceDatabase) (h : HostPtr) (r : ResourcePtr) : Prop :=
  ¬db.possession.graph.forward h r ∧ ¬db.possession.graph.backward r h

variable {db db' : ResourceDatabase}

theorem Simple.edit (s : db.Simple) (edit : Edit Unjoined db db') : db'.Simple := by
  cases edit with
  | addResource missing => exact ⟨s.possessed, Store.forall_lookup_push s.holders List.nodup_nil⟩
  | addHost missing => exact ⟨Store.forall_lookup_push s.possessed List.nodup_nil, s.holders⟩
  | resetMissed q => exact ⟨Store.forall_lookup_modify s.possessed fun _ _ old => old, s.holders⟩
  | @connect q t present unjoined =>
      constructor
      · refine Store.forall_lookup_modify s.possessed fun host there old => ?_
        have new : t ∉ host.possesedResources := fun listed => unjoined.1 ⟨host, there, listed⟩
        exact old.append (List.nodup_singleton t) (by simpa using new)
      · refine Store.forall_lookup_modify s.holders fun res there old => ?_
        have new : q ∉ res.hostsInPossession := fun listed => unjoined.2 ⟨res, there, listed⟩
        exact old.append (List.nodup_singleton q) (by simpa using new)
  | removeResource q t =>
      exact ⟨Store.forall_lookup_modify s.possessed fun _ _ old => old.filter _, s.holders⟩
  | removeHost t q =>
      exact ⟨s.possessed, Store.forall_lookup_modify s.holders fun _ _ old => old.filter _⟩
  | setRevoked t => exact ⟨s.possessed, Store.forall_lookup_modify s.holders fun _ _ old => old⟩
  | eraseHost q => exact ⟨Store.forall_lookup_erase s.possessed, s.holders⟩

theorem Simple.edits (s : db.Simple) (edits : Edits Unjoined db db') : db'.Simple :=
  edits.invariant s fun _ _ kept edit => kept.edit edit

theorem simple_start (ip : IpAddress) : (start ip).Simple :=
  ⟨Store.forall_lookup_push (by simp) List.nodup_nil, by simp [start]⟩

/-! ## Adding edges -/

theorem prepare_graph (db : ResourceDatabase) (res : Resource) (ip : IpAddress) :
    (db.prepare res ip).possession.graph.forward = db.possession.graph.forward ∧
      (db.prepare res ip).possession.graph.backward = db.possession.graph.backward := by
  refine (db.prepare_steps res ip).created ?_
  rintro l (rfl | rfl)
  · exact ⟨ip, res.key, Or.inl rfl⟩
  · exact ⟨ip, res.key, Or.inr rfl⟩

theorem prepare_key {res other : Resource} {ip : IpAddress} (valid : db.Valid) {r : ResourcePtr}
    (named : (db.prepare res ip).possession.key r = some other.key)
    (present : db.possession.graph.right r) : db.possession.key r = some other.key := by
  obtain ⟨k, old⟩ := Option.ne_none_iff_exists'.mp ((valid.right_iff r).mp present)
  exact old.trans ((key_steps (db.prepare_steps res ip) old).symm.trans named)

theorem prepare_address {res : Resource} {ip : IpAddress} {p : HostPtr} (old : p < db.hosts.next) :
    (db.prepare res ip).possession.address p = db.possession.address p := by
  have hosts := (db.ensureResource_steps res).2.2
  simp only [possession, ResourceDatabase.prepare, ensureHost]
  split
  · rw [hosts]
  · rw [hosts, Store.lookup_push, if_neg (Nat.ne_of_lt old)]

def NotJoined (db : ResourceDatabase) (ip : IpAddress) (k : ResourceKey) : Prop :=
  ∀ h r, db.possession.address h = some ip → db.possession.key r = some k → db.Unjoined h r

theorem Valid.unjoined (valid : db.Valid) {h : HostPtr} {r : ResourcePtr}
    (new : ¬db.possession.graph.backward r h) : db.Unjoined h r :=
  ⟨fun forth => new (valid.linked.ends h r forth).2.2, new⟩

theorem Valid.prepare_notJoined (valid : db.Valid) (allocated : db.Allocated) {res : Resource}
    {ip : IpAddress} (new : db.JoinsNew (.addFile res ip)) :
    (db.prepare res ip).NotJoined ip res.key := by
  intro h r address key
  refine (valid.prepare res ip).unjoined fun joined => ?_
  rw [(db.prepare_graph res ip).2] at joined
  obtain ⟨x, found, listed⟩ := joined
  rw [prepare_address (allocated r x found h listed)] at address
  have named := prepare_key valid key (valid.linked.listed r h ⟨x, found, listed⟩)
  obtain ⟨host, foundHost, rfl⟩ := valid.findHost_of_address address
  obtain ⟨resource, foundResource, rfl⟩ := valid.findResource_of_key named
  obtain rfl := Option.some.inj (found.symm.trans (findResource_some foundResource).1)
  exact new resource foundResource host foundHost listed

theorem Simple.addFileInternal (s : db.Simple) {res : Resource} {ip : IpAddress}
    (new : (db.prepare res ip).NotJoined ip res.key) : (db.addFileInternal res ip).Simple :=
  s.edits (db.addFileInternal_edits res ip fun h r address key => new h r address key)

structure Updating (toUpdate : HostPtr) (ip : IpAddress) (possesed : List Resource)
    (db : ResourceDatabase) : Prop where
  valid : db.Valid
  simple : db.Simple
  address : db.possession.address toUpdate = some ip
  mirrored : ∀ res ∈ possesed, ∀ r, db.possession.key r = some res.key →
    db.possession.graph.backward r toUpdate → db.possession.graph.forward toUpdate r

theorem Updating.notJoined {toUpdate : HostPtr} {ip : IpAddress} {possesed : List Resource}
    (u : db.Updating toUpdate ip possesed) {res : Resource} (member : res ∈ possesed)
    (absent : ∀ r, db.possession.graph.forward toUpdate r → db.possession.key r ≠ some res.key) :
    (db.prepare res ip).NotJoined ip res.key := by
  intro h r address key
  obtain ⟨forward, backward⟩ := db.prepare_graph res ip
  have prepared := u.valid.prepare res ip
  have kept := address_steps (db.prepare_steps res ip) u.address (by simp)
  obtain rfl := prepared.address_inj _ _ _ kept address
  refine prepared.unjoined fun joined => ?_
  rw [backward] at joined
  have named := prepare_key u.valid key (u.valid.linked.listed r toUpdate joined)
  exact absent r (u.mirrored res member r named joined) named

theorem Updating.advertise {toUpdate : HostPtr} {ip : IpAddress} {possesed : List Resource}
    (u : db.Updating toUpdate ip possesed) {res : Resource} (member : res ∈ possesed)
    (ok : advertise toUpdate ip db res = .ok db') : db'.Updating toUpdate ip possesed := by
  rcases advertise_cases ok with ⟨rfl, -⟩ | ⟨rfl, absent⟩
  · exact u
  · have notJoined := u.notJoined member absent
    obtain ⟨forward, backward⟩ := db.prepare_graph res ip
    obtain ⟨h, r, address, key, linked⟩ := db.addFileInternal_link res ip
    have kept := address_steps (db.prepare_steps res ip) u.address (by simp)
    obtain rfl := (u.valid.prepare res ip).address_inj _ _ _ kept address
    have added : db.apply (.addFile res ip) = .ok (db.addFileInternal res ip) := rfl
    refine ⟨u.valid.apply added, u.simple.addFileInternal notJoined, by rw [linked]; exact address, ?_⟩
    intro other listed s named joined
    rw [linked] at named joined ⊢
    rcases joined with old | ⟨rfl, -⟩
    · rw [backward] at old
      have present := u.valid.linked.listed s toUpdate old
      refine Or.inl (forward ▸ u.mirrored other listed s ?_ old)
      exact prepare_key u.valid named present
    · exact Or.inr ⟨rfl, rfl⟩

theorem Updating.start (valid : db.Valid) (simple : db.Simple) (allocated : db.Allocated)
    {ip : IpAddress} {possesed : List Resource} (new : db.JoinsNew (.updateHost ip possesed)) :
    (db.startUpdate ip).Updating (db.ensureHost ip).2 ip possesed := by
  refine ⟨valid.startUpdate ip, simple.edits (db.startUpdate_edits ip), db.startUpdate_address ip, ?_⟩
  rw [startUpdate_possession]
  unfold ensureHost
  split
  · rename_i h found
    intro res listed r named joined
    obtain ⟨x, here, member⟩ := joined
    obtain ⟨resource, foundResource, rfl⟩ := valid.findResource_of_key named
    obtain rfl := Option.some.inj (here.symm.trans (findResource_some foundResource).1)
    exact ⟨h.obj, (findHost_some found).1, new h found res listed resource foundResource member⟩
  · intro res listed r named ⟨x, here, member⟩
    exact absurd (allocated r x here _ member) (Nat.lt_irrefl _)

theorem Simple.apply (s : db.Simple) (valid : db.Valid) (allocated : db.Allocated) {op : Op}
    (new : db.JoinsNew op) (ok : db.apply op = .ok db') : db'.Simple := by
  cases op with
  | addFile res ip =>
      exact Except.ok.inj ok ▸ s.addFileInternal (valid.prepare_notJoined allocated new)
  | removeFile res ip =>
      obtain ⟨⟨removed, next⟩, removal, rfl⟩ := map_eq_ok.mp ok
      exact s.edits (removeFile_edits removal)
  | updateHost ip possesed =>
      have updated := foldlM_invariant (Updating (db.ensureHost ip).2 ip possesed) ok
        (Updating.start valid s allocated new) fun _ _ _ member u round => u.advertise member round
      exact updated.simple
  | revokeResource res => exact s.edits (revokeResource_edits ok)
  | checkForGoneHosts leftMargin => exact s.edits (checkForGoneHostsLoop_edits ok)

/-! ## What follows for beacons and downloads -/

theorem workersFor_sublist {retarded : Nat → HostPtr → Bool} {i : Nat} {hosts workers : List HostPtr}
    (ok : db.workersFor retarded i hosts = .ok workers) :
    workers.Sublist hosts ∧ ∀ p ∈ hosts, db.hosts.lookup p ≠ none := by
  induction hosts generalizing i workers with
  | nil =>
      obtain rfl : [] = workers := Except.ok.inj ok
      simp
  | cons p rest ih =>
      simp only [workersFor] at ok
      split at ok
      · contradiction
      · rename_i host there
        obtain ⟨later, loop, ok⟩ := bind_eq_ok.mp ok
        obtain rfl := Except.ok.inj ok
        obtain ⟨sub, present⟩ := ih loop
        refine ⟨?_, by simpa [there] using present⟩
        split
        · exact sub.cons p
        · exact sub.cons_cons p

theorem createWorkers_ok {retarded : Nat → HostPtr → Bool} {x : Resource} {workers : List HostPtr}
    (ok : db.createWorkers retarded x = .ok workers) :
    db.workersFor retarded 0 x.hostsInPossession = .ok workers := by
  unfold createWorkers at ok
  split at ok
  · contradiction
  · obtain ⟨found, loop, ok⟩ := bind_eq_ok.mp ok
    split at ok
    · contradiction
    · exact Except.ok.inj ok ▸ mapError_ok.mp loop

theorem Simple.noParallelEdges (s : db.Simple) (valid : db.Valid) : db.NoParallelEdges where
  possessed := s.possessed
  holders := s.holders
  advertised h found := by
    obtain ⟨there, -⟩ := findHost_some found
    refine (s.possessed h.ptr h.obj there).map_on fun r member r' member' same => ?_
    have present := valid.resource_of_possesed there member
    obtain ⟨x, here⟩ := Option.ne_none_iff_exists'.mp present
    have named : db.possession.key r = some x.key := by simp [possession, here]
    exact valid.key_inj r r' x.key named (same ▸ named)
  connected r x retarded workers found ok := by
    obtain ⟨sub, present⟩ := workersFor_sublist (createWorkers_ok ok)
    refine ((s.holders r x found).sublist sub).map_on fun p member p' member' same => ?_
    obtain ⟨host, here⟩ := Option.ne_none_iff_exists'.mp (present p (sub.subset member))
    have named : db.possession.address p = some host.hostIp := by simp [possession, here]
    exact valid.address_inj p p' host.hostIp named (same ▸ named)

theorem reach_noParallelEdges {ip : IpAddress} (h : Reach apply JoinsNew (start ip) db) :
    db.NoParallelEdges := by
  let Inv (s : ResourceDatabase) : Prop := s.Valid ∧ s.Allocated ∧ s.Simple
  have kept : Inv db := by
    refine h.invariant ⟨valid_start ip, allocated_start ip, simple_start ip⟩ ?_
    intro s op s' ⟨valid, allocated, simple⟩ new ok
    exact ⟨valid.apply ok, allocated.edits (apply_edits ok), simple.apply valid allocated new ok⟩
  exact kept.2.2.noParallelEdges kept.1

theorem advertised_noParallelEdges : ∃ db : ResourceDatabase,
    db.resources.objects.map (·.obj.hostsInPossession) = [[0, 1]] ∧ db.NoParallelEdges := by
  let res : Resource := { size := 3, name := [97] }
  obtain ⟨db, run, joined⟩ := exists_reach_of_exec apply JoinsNew (start ⟨[10, 0, 0, 1]⟩)
    [.addFile res ⟨[10, 0, 0, 1]⟩, .updateHost ⟨[10, 0, 0, 2]⟩ [res], .updateHost ⟨[10, 0, 0, 2]⟩ [res]]
    (fun db => db.resources.objects.map (·.obj.hostsInPossession) = [[0, 1]]) (by decide)
  exact ⟨db, of_decide_eq_true joined, reach_noParallelEdges run⟩

/-- The same file is added twice, or a download of a file the local host has ends. -/
theorem noParallelEdges_fails : ¬∀ (ip : IpAddress) (db : ResourceDatabase),
    Reach apply Anything (start ip) db → db.NoParallelEdges := by
  intro claim
  let me : IpAddress := ⟨[10, 0, 0, 1]⟩
  let res : Resource := { size := 3, name := [97] }
  obtain ⟨db, run, doubled⟩ := exists_reach_of_exec apply Anything (start me)
    [.addFile res me, .addFile res me]
    (fun db => (db.hosts.lookup 0).map Host.possesedResources = some [0, 0]) (by decide)
  obtain ⟨host, found, twice⟩ := Option.map_eq_some_iff.mp (of_decide_eq_true doubled)
  have nodup := (claim me db run).possessed 0 host found
  simp [twice] at nodup

end ResourceDatabase

end SimpleP2P
