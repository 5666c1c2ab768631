import SimpleP2P.Database.Keys

namespace SimpleP2P.ResourceDatabase
open Library

def PossessesFile (db : ResourceDatabase) (ip : IpAddress) (res : Resource) : Prop :=
  ∃ p h q x, db.hosts.lookup p = some h ∧ h.hostIp = ip ∧ q ∈ h.possesedResources ∧
    db.resources.lookup q = some x ∧ x.sameAs res = true

structure EdgeRemoved (p : HostPtr) (q : ResourcePtr) (db db' : ResourceDatabase) : Prop where
  forward : ∀ h, db'.hosts.lookup p = some h → q ∉ h.possesedResources
  backward : ∀ x, db'.resources.lookup q = some x → p ∉ x.hostsInPossession
  hosts : db'.hosts.objects = db.hosts.objects.map (Store.update p fun h =>
    { h with possesedResources := h.possesedResources.filter (· != q) })
  resources : db'.resources.objects = db.resources.objects.map (Store.update q fun x =>
    { x with hostsInPossession := x.hostsInPossession.filter (· != p) })
  localhost : db'.localhost = db.localhost

def RemovesRightly (db : ResourceDatabase) (res : Resource) (ip : IpAddress) : Prop :=
  ∃ removed db', db.removeFile res ip = .ok (removed, db') ∧
    (removed = true ↔ db.PossessesFile ip res) ∧ (removed = false → db' = db) ∧
    (removed = true → ∃ h r, db.findHost ip = some h ∧ db.findResource res = some r ∧
      EdgeRemoved h.ptr r.ptr db db')

/-- In the list of the resource no pointer before the first to the host has expired, and the host
lists the resource if it is listed there. -/
def AnswersFor (db : ResourceDatabase) (res : Resource) (ip : IpAddress) : Prop :=
  ∀ r ∈ db.resources.objects, r.obj.sameAs res = true →
    (∀ p ∈ r.obj.hostsInPossession.takeWhile (db.possession.address · ≠ some ip),
      db.hosts.lookup p ≠ none) ∧
    ∀ p ∈ r.obj.hostsInPossession, ∀ h ∈ db.hosts.lookup p, h.hostIp = ip →
      r.ptr ∈ h.possesedResources

instance (db : ResourceDatabase) (res : Resource) (ip : IpAddress) : Decidable (db.AnswersFor res ip) :=
  inferInstanceAs (Decidable (∀ r ∈ db.resources.objects, r.obj.sameAs res = true →
    (∀ p ∈ r.obj.hostsInPossession.takeWhile (db.possession.address · ≠ some ip),
      db.hosts.lookup p ≠ none) ∧
    ∀ p ∈ r.obj.hostsInPossession, ∀ h ∈ db.hosts.lookup p, h.hostIp = ip →
      r.ptr ∈ h.possesedResources))

variable {db db' : ResourceDatabase} {res : Resource} {ip : IpAddress} {r : Shared Resource}

theorem findPossessor_ok_iff {hosts : List HostPtr} : (∃ found, db.findPossessor ip hosts = .ok found) ↔
    ∀ p ∈ hosts.takeWhile (db.possession.address · ≠ some ip), db.hosts.lookup p ≠ none := by
  induction hosts with
  | nil => simp [findPossessor]
  | cons p rest ih =>
      cases there : db.hosts.lookup p with
      | none => simp [findPossessor, there, possession]
      | some h =>
          have address : db.possession.address p = some h.hostIp := by simp [possession, there]
          by_cases same : h.hostIp = ip
          · simp [findPossessor, there, address, same]
          · simpa [findPossessor, there, address, same] using ih

theorem Valid.possessesFile_iff (valid : db.Valid) (found : db.findResource res = some r) :
    db.PossessesFile ip res ↔ ∃ p, db.possession.address p = some ip ∧
      db.possession.graph.forward p r.ptr := by
  constructor
  · rintro ⟨p, h, q, x, there, named, listed, resource, same⟩
    have key : db.possession.key q = some res.key := by
      simp [possession, resource, sameAs_iff_key.mp same]
    obtain rfl := valid.key_inj _ _ _ key (findResource_some found).2
    exact ⟨p, by simp [possession, there, named], h, there, listed⟩
  · rintro ⟨p, named, h, there, listed⟩
    obtain ⟨resource, same⟩ := Store.find?_some found
    exact ⟨p, h, r.ptr, r.obj, there, by simpa [possession, there] using named, listed, resource, same⟩

theorem not_possessesFile (missing : db.findResource res = none) : ¬db.PossessesFile ip res := by
  rintro ⟨p, h, q, x, -, -, -, resource, same⟩
  refine findResource_none missing q ?_
  simp [possession, resource, sameAs_iff_key.mp same]

theorem edgeRemoved_disconnect (db : ResourceDatabase) (p : HostPtr) (q : ResourcePtr) :
    EdgeRemoved p q db (db.disconnect p q) where
  forward h there := by
    simp only [disconnect, Store.lookup_modify, if_true, Option.map_eq_some_iff] at there
    obtain ⟨old, -, rfl⟩ := there
    simp [Host.removeResource]
  backward x there := by
    simp only [disconnect, Store.lookup_modify, if_true, Option.map_eq_some_iff] at there
    obtain ⟨old, -, rfl⟩ := there
    simp [Resource.removeHost]
  hosts := rfl
  resources := rfl
  localhost := rfl

theorem Valid.answersFor (valid : db.Valid) (removes : db.RemovesRightly res ip) :
    db.AnswersFor res ip := by
  intro r member same
  have found := valid.findResource_of_mem member same
  obtain ⟨removed, db', ok, answer, -, -⟩ := removes
  obtain ⟨holder, search, rfl, -⟩ := (removeFile_found found).mp ok
  refine ⟨findPossessor_ok_iff.mp ⟨holder, search⟩, fun p listed h there named => ?_⟩
  have address : db.possession.address p = some ip := Option.map_eq_some_iff.mpr ⟨h, there, named⟩
  cases holder with
  | none =>
      obtain ⟨a, other, differs⟩ := (findPossessor_ok search).2 rfl p listed
      exact absurd (Option.some.inj (other.symm.trans address)) differs
  | some holder =>
      obtain ⟨q, named', h', there', forth⟩ := (valid.possessesFile_iff found).mp (answer.mp rfl)
      obtain rfl := valid.address_inj _ _ _ named' address
      obtain rfl := Option.some.inj (there.symm.trans there')
      exact forth

theorem Valid.removesRightly (valid : db.Valid) (answers : db.AnswersFor res ip) :
    db.RemovesRightly res ip := by
  cases found : db.findResource res with
  | none =>
      refine ⟨false, db, by simp [removeFile, found], ?_, fun _ => rfl, by simp⟩
      simpa using not_possessesFile found
  | some r =>
      obtain ⟨there, same⟩ := Store.find?_some found
      obtain ⟨prefixed, back⟩ := answers r (Store.lookup_eq_some.mp there) same
      obtain ⟨holder, search⟩ := findPossessor_ok_iff.mpr prefixed
      obtain ⟨member, absent⟩ := findPossessor_ok search
      refine ⟨_, _, (removeFile_found found).mpr ⟨holder, search, rfl, rfl⟩, ?_, ?_, ?_⟩
      · rw [valid.possessesFile_iff found]
        cases holder with
        | none =>
            simp only [Option.isSome_none, Bool.false_eq_true, false_iff]
            rintro ⟨p, named, forth⟩
            -- the resource lists every host that lists it
            obtain ⟨-, -, x, resource, listed⟩ := valid.linked.ends p r.ptr forth
            obtain rfl := Option.some.inj ((Store.find?_some found).1.symm.trans resource)
            obtain ⟨a, other, differs⟩ := absent rfl p listed
            exact differs (Option.some.inj (other.symm.trans named))
        | some p =>
            obtain ⟨listed, named⟩ := member p rfl
            obtain ⟨h, there, same⟩ := Option.map_eq_some_iff.mp named
            simp only [Option.isSome_some, true_iff]
            exact ⟨p, named, h, there, back p listed h there same⟩
      · cases holder <;> simp
      · cases holder with
        | none => simp
        | some p =>
            obtain ⟨h, host, rfl⟩ := valid.findHost_of_address (member p rfl).2
            exact fun _ => ⟨h, r, host, found, db.edgeRemoved_disconnect h.ptr r.ptr⟩

theorem removesRightly_iff {me : IpAddress} (run : Reach apply Anything (start me) db)
    (res : Resource) (ip : IpAddress) : db.RemovesRightly res ip ↔ db.AnswersFor res ip :=
  ⟨(reach_valid run).answersFor, (reach_valid run).removesRightly⟩

theorem added_removesRightly : ∃ db : ResourceDatabase, db.hosts.objects.length = 2 ∧
    db.RemovesRightly { size := 3, name := [97] } ⟨[10, 0, 0, 2]⟩ := by
  obtain ⟨db, run, answers⟩ := exists_reach_of_exec apply Anything (start ⟨[10, 0, 0, 1]⟩)
    [.addFile { size := 3, name := [97] } ⟨[10, 0, 0, 2]⟩]
    (fun db => db.hosts.objects.length = 2 ∧
      db.AnswersFor { size := 3, name := [97] } ⟨[10, 0, 0, 2]⟩) (by decide)
  obtain ⟨two, answers⟩ := of_decide_eq_true answers
  exact ⟨db, two, (removesRightly_iff run _ _).mpr answers⟩

/-- The holder of a revoked file, which does not list it any more. -/
theorem removesRightly_fails : ¬∀ (me : IpAddress) (db : ResourceDatabase),
    Reach apply Anything (start me) db → ∀ res ip, db.RemovesRightly res ip := by
  intro claim
  obtain ⟨db, run, kept⟩ := exists_reach_of_exec apply Anything (start ⟨[10, 0, 0, 1]⟩)
    [.addFile { size := 3, name := [97] } ⟨[10, 0, 0, 2]⟩, .revokeResource { size := 3, name := [97] }]
    (fun db => ¬db.AnswersFor { size := 3, name := [97] } ⟨[10, 0, 0, 2]⟩) (by decide)
  exact of_decide_eq_true kept ((reach_valid run).answersFor (claim _ db run _ _))

/-! ## Revoking -/

def Unheld (db : ResourceDatabase) (res : Resource) : Prop :=
  ∀ p h, db.hosts.lookup p = some h → ∀ q ∈ h.possesedResources,
    ∃ x, db.resources.lookup q = some x ∧ x.sameAs res = false

structure Revoked (q : ResourcePtr) (db db' : ResourceDatabase) : Prop where
  hosts : db'.hosts.objects = db.hosts.objects.map fun o =>
    ⟨o.ptr, { o.obj with possesedResources := o.obj.possesedResources.filter (· != q) }⟩
  resources : db'.resources.objects = db.resources.objects.map (Store.update q fun x =>
    { x with invalidated := true })
  localhost : db'.localhost = db.localhost

def RevokesRightly (db : ResourceDatabase) (res : Resource) : Prop :=
  ∃ db', db.revokeResource res = .ok db' ∧ db'.Unheld res ∧ db'.revokeResource res = .ok db' ∧
    (db.findResource res = none → db' = db) ∧ ∀ r ∈ db.findResource res, Revoked r.ptr db db'

theorem Valid.removeResource_eq_self (valid : db.Valid) (found : db.findResource res = some r)
    {p : HostPtr} {h : Host} (there : db.hosts.lookup p = some h)
    (unlisted : p ∉ r.obj.hostsInPossession) : h.removeResource r.ptr = h := by
  have absent : r.ptr ∉ h.possesedResources := by
    intro listed
    obtain ⟨-, -, x, resource, back⟩ := valid.linked.ends p r.ptr ⟨h, there, listed⟩
    obtain rfl := Option.some.inj ((Store.find?_some found).1.symm.trans resource)
    exact unlisted back
  have all : h.possesedResources.filter (· != r.ptr) = h.possesedResources := by
    refine List.filter_eq_self.mpr fun q member => ?_
    have other : q ≠ r.ptr := fun same => absent (same ▸ member)
    simpa using other
  rw [Host.removeResource, all]

theorem Valid.revoked (valid : db.Valid) (found : db.findResource res = some r)
    (ok : db.revokeResource res = .ok db') : Revoked r.ptr db db' := by
  obtain ⟨hosts, cut, rfl⟩ := (revokeResource_ok found).mp ok
  refine ⟨?_, rfl, rfl⟩
  rw [Store.modifyAll_objects (fun h => h.removeResource_twice r.ptr) cut]
  refine List.map_congr_left fun o member => ?_
  split
  · rfl
  · rename_i unlisted
    have same := valid.removeResource_eq_self found (Store.lookup_eq_some.mpr member) unlisted
    exact congrArg (Shared.mk o.ptr) same.symm

theorem Revoked.possesed {q : ResourcePtr} (revoked : Revoked q db db') {p : HostPtr} {h : Host}
    (there : db'.hosts.lookup p = some h) : q ∉ h.possesedResources := by
  have member := Store.lookup_eq_some.mp there
  rw [revoked.hosts] at member
  obtain ⟨o, -, same⟩ := List.mem_map.mp member
  obtain rfl := congrArg Shared.obj same
  simp

theorem revokeResource_again (found : db.findResource res = some r)
    (holders : ∀ p ∈ r.obj.hostsInPossession, db.hosts.lookup p ≠ none)
    (ok : db.revokeResource res = .ok db') : db'.findResource res = some ⟨r.ptr, r.obj.setRevoked⟩ ∧
      db'.revokeResource res = .ok db' := by
  obtain ⟨hosts, cut, rfl⟩ := (revokeResource_ok found).mp ok
  have marked : ResourceDatabase.findResource
      { db with resources := db.resources.modify r.ptr (·.setRevoked), hosts } res =
        some ⟨r.ptr, r.obj.setRevoked⟩ := by
    have search : (db.resources.modify r.ptr (·.setRevoked)).find? (·.sameAs res) =
        (db.findResource res).map (Store.update r.ptr (·.setRevoked)) :=
      Store.find?_modify fun _ => rfl
    exact search.trans (by simp [found, Store.update])
  refine ⟨marked, (revokeResource_ok marked).mpr ⟨hosts, ?_, ?_⟩⟩
  · refine Store.modifyAll_eq_self fun p listed => ?_
    obtain ⟨h, there⟩ := Option.ne_none_iff_exists'.mp (holders p listed)
    have cleaned := Store.modifyAll_ok (fun h => h.removeResource_twice r.ptr) cut p
    rw [if_pos (by exact listed), there] at cleaned
    exact ⟨_, cleaned, h.removeResource_twice r.ptr⟩
  · have same : (db.resources.modify r.ptr (·.setRevoked)).modify r.ptr (·.setRevoked) =
        db.resources.modify r.ptr (·.setRevoked) :=
      Store.modify_eq_self (findResource_some marked).1 rfl
    simp only [same]

theorem Valid.unheld (valid : db'.Valid)
    (clean : ∀ p h, db'.hosts.lookup p = some h → ∀ r ∈ db'.findResource res,
      r.ptr ∉ h.possesedResources) : db'.Unheld res := by
  intro p h there q listed
  obtain ⟨x, resource⟩ := Option.ne_none_iff_exists'.mp (valid.resource_of_possesed there listed)
  refine ⟨x, resource, ?_⟩
  by_contra same
  have key : db'.possession.key q = some res.key := by
    simp [possession, resource, sameAs_iff_key.mp (Bool.not_eq_false _ ▸ same)]
  obtain ⟨r, found, rfl⟩ := valid.findResource_of_key key
  exact clean p h there r found listed

theorem Valid.revokesRightly (valid : db.Valid) (sound : db.ReferentiallySound) (res : Resource) :
    db.RevokesRightly res := by
  cases ok : db.revokeResource res with
  | error e =>
      obtain ⟨r, p, back, gone⟩ := revokeResource_expired ok
      exact absurd ((referentiallySound_iff.mp sound).present r p back) gone
  | ok db' =>
      have applied : db.apply (.revokeResource res) = .ok db' := ok
      have valid' := valid.apply applied
      cases found : db.findResource res with
      | none =>
          obtain rfl : db = db' := Except.ok.inj ((revokeResource_missing found).symm.trans ok)
          exact ⟨db, ok, valid'.unheld (by simp [found]), ok, fun _ => rfl, by simp [found]⟩
      | some r =>
          have revoked := valid.revoked found ok
          have there := (Store.find?_some found).1
          have holders : ∀ p ∈ r.obj.hostsInPossession, db.hosts.lookup p ≠ none := fun p listed =>
            Option.ne_none_iff_exists'.mpr (sound.holders r.ptr r.obj there p listed)
          obtain ⟨marked, again⟩ := revokeResource_again found holders ok
          refine ⟨db', ok, valid'.unheld fun p h there x same => ?_, again, by simp [found],
            fun x same => ?_⟩
          · obtain rfl := Option.some.inj (marked.symm.trans same)
            exact revoked.possesed there
          · obtain rfl := Option.some.inj (found.symm.trans same)
            exact revoked

def NoGoneHosts (_ : ResourceDatabase) : Op → Prop
  | .checkForGoneHosts _ => False
  | _ => True

instance (db : ResourceDatabase) : (op : Op) → Decidable (db.NoGoneHosts op)
  | .checkForGoneHosts _ => .isFalse id
  | .addFile _ _ | .removeFile _ _ | .updateHost _ _ | .revokeResource _ => .isTrue trivial

theorem reach_revokesRightly {ip : IpAddress} (run : Reach apply NoGoneHosts (start ip) db)
    (res : Resource) : db.RevokesRightly res := by
  have clean : Reach apply NoHolderGone (start ip) db := run.mono fun s op allowed => by
    cases op with
    | checkForGoneHosts leftMargin => exact allowed.elim
    | _ => trivial
  exact (reach_valid run).revokesRightly (reach_referentiallySound clean).1 res

theorem added_revokesRightly : ∃ db : ResourceDatabase,
    db.resources.objects.map (·.obj.hostsInPossession) = [[1]] ∧
      db.RevokesRightly { size := 3, name := [97] } := by
  obtain ⟨db, run, listed⟩ := exists_reach_of_exec apply NoGoneHosts (start ⟨[10, 0, 0, 1]⟩)
    [.addFile { size := 3, name := [97] } ⟨[10, 0, 0, 2]⟩]
    (fun db => db.resources.objects.map (·.obj.hostsInPossession) = [[1]]) (by decide)
  exact ⟨db, of_decide_eq_true listed, reach_revokesRightly run _⟩

end SimpleP2P.ResourceDatabase
