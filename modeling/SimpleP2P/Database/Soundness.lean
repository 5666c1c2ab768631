import SimpleP2P.Database.Refinement

namespace SimpleP2P.ResourceDatabase
open Library

variable {db db' : ResourceDatabase}

structure ReferentiallySound (db : ResourceDatabase) : Prop where
  possessed : ∀ p h, db.hosts.lookup p = some h → ∀ r ∈ h.possesedResources,
    ∃ x, db.resources.lookup r = some x ∧ p ∈ x.hostsInPossession
  holders : ∀ r x, db.resources.lookup r = some x → ∀ p ∈ x.hostsInPossession,
    ∃ h, db.hosts.lookup p = some h
  answered : ∀ r x, db.resources.lookup r = some x → x.invalidated = false →
    ∀ p ∈ x.hostsInPossession, ∃ h, db.hosts.lookup p = some h ∧ r ∈ h.possesedResources

def NeverExpired (db : ResourceDatabase) : Prop :=
  (∀ op, db.apply op ≠ .error .expiredPointer) ∧
    db.generateDatabaseHeaders ≠ .error .expiredPointer ∧
    ∀ res, db.hasFile res ≠ .error .expiredPointer

/-- No revoked resource is held, without being listed back, by a host that `check_for_gone_hosts`
may remove. -/
def NoHolderGone (db : ResourceDatabase) : Op → Prop
  | .checkForGoneHosts leftMargin => ∀ p, db.Gone leftMargin p → ∀ h,
      db.hosts.lookup p = some h → ∀ r x, db.resources.lookup r = some x → x.invalidated = true →
      p ∈ x.hostsInPossession → r ∈ h.possesedResources
  | _ => True

theorem referentiallySound_iff : db.ReferentiallySound ↔ db.possession.graph.Sound := by
  constructor
  · intro sound
    refine ⟨⟨?_, ?_, ?_⟩, ?_⟩
    · rintro p r ⟨h, there, listed⟩
      obtain ⟨x, found, back⟩ := sound.possessed p h there r listed
      exact ⟨by simp [possession, there], by simp [possession, found], x, found, back⟩
    · rintro r p ⟨x, found, -⟩
      simp [possession, found]
    · rintro r p ⟨x, found, listed⟩ thawed
      have valid : x.invalidated = false := by
        by_contra cold
        exact thawed ⟨x, found, by simpa using cold⟩
      obtain ⟨h, there, back⟩ := sound.answered r x found valid p listed
      exact ⟨by simp [possession, there], h, there, back⟩
    · rintro r p ⟨x, found, listed⟩
      obtain ⟨h, there⟩ := sound.holders r x found p listed
      simp [possession, there]
  · intro sound
    refine ⟨?_, ?_, ?_⟩
    · intro p h there r listed
      exact (sound.ends p r ⟨h, there, listed⟩).2.2
    · intro r x found p listed
      exact Option.ne_none_iff_exists'.mp (sound.present r p ⟨x, found, listed⟩)
    · intro r x found valid p listed
      refine (sound.answered r p ⟨x, found, listed⟩ ?_).2
      rintro ⟨y, found', cold⟩
      simp_all

/-! ## The local host -/

def localhost (db : ResourceDatabase) : HostPtr × IpAddress := (db.myHost, db.myHostIp)

theorem ensureResource_localhost (db : ResourceDatabase) (res : Resource) :
    (db.ensureResource res).1.localhost = db.localhost := by
  unfold ensureResource
  split <;> rfl

theorem ensureHost_localhost (db : ResourceDatabase) (ip : IpAddress) :
    (db.ensureHost ip).1.localhost = db.localhost := by
  unfold ensureHost
  split <;> rfl

theorem addFileInternal_localhost (db : ResourceDatabase) (res : Resource) (ip : IpAddress) :
    (db.addFileInternal res ip).localhost = db.localhost :=
  (ensureHost_localhost _ ip).trans (db.ensureResource_localhost res)

theorem removeHost_localhost {h : Shared Host} (ok : db.removeHost h = .ok db') :
    db'.localhost = db.localhost := by
  by_cases me : h.ptr = db.myHost
  · exact Except.ok.inj ((removeHost_local me).symm.trans ok) ▸ rfl
  · obtain ⟨resources, -, rfl⟩ := (removeHost_removed me).mp ok
    rfl

theorem checkForGoneHostsLoop_localhost {leftMargin : UInt16} {rounds i : Nat}
    (ok : checkForGoneHostsLoop leftMargin rounds i db = .ok db') :
    db'.localhost = db.localhost := by
  induction rounds generalizing i db with
  | zero =>
      obtain rfl : db = db' := by simpa [checkForGoneHostsLoop] using ok
      rfl
  | succ rounds ih =>
      cases at_i : db.hosts.objects[i]? with
      | none => simp [checkForGoneHostsLoop, at_i] at ok
      | some h =>
          rcases checkForGoneHostsLoop_succ at_i ok with same | ⟨next, -, step, later⟩
          · exact ih same
          · exact (ih later).trans (removeHost_localhost step)

theorem advertise_fold_localhost {toUpdate : HostPtr} {ip : IpAddress} {rest : List Resource}
    (ok : rest.foldlM (advertise toUpdate ip) db = .ok db') : db'.localhost = db.localhost := by
  refine foldlM_invariant (fun db' => db'.localhost = db.localhost) ok rfl
    fun s res s' _ kept round => ?_
  rcases advertise_ok round with rfl | rfl
  · exact kept
  · exact (s.addFileInternal_localhost res ip).trans kept

theorem apply_localhost {op : Op} (ok : db.apply op = .ok db') : db'.localhost = db.localhost := by
  cases op with
  | addFile res ip => exact Except.ok.inj ok ▸ db.addFileInternal_localhost res ip
  | removeFile res ip =>
      obtain ⟨⟨removed, next⟩, removal, rfl⟩ := map_eq_ok.mp ok
      rcases removeFile_ok removal with ⟨-, rfl⟩ | ⟨p, r, -, rfl, -⟩ <;> rfl
  | updateHost ip possesed =>
      have later := advertise_fold_localhost ok
      exact later.trans (db.ensureHost_localhost ip)
  | revokeResource res =>
      cases found : db.findResource res with
      | none => exact Except.ok.inj ((revokeResource_missing found).symm.trans ok) ▸ rfl
      | some r =>
          obtain ⟨hosts, -, rfl⟩ := (revokeResource_ok found).mp ok
          rfl
  | checkForGoneHosts leftMargin => exact checkForGoneHostsLoop_localhost ok

/-! ## Every reachable database is valid -/

theorem permits_ne_drop {op : Op} {l : Possession.Label} (permitted : op.Permits db l) :
    l ≠ .drop db.myHost := by
  rintro rfl
  cases op <;> simp_all [Op.Permits]

abbrev Valid (db : ResourceDatabase) : Prop := db.possession.Valid db.myHost db.myHostIp

theorem Valid.of_possession (valid : db.Valid) (same : db'.possession = db.possession)
    (localhost : db'.localhost = db.localhost) : db'.Valid := by
  obtain ⟨me, ip⟩ := Prod.mk.inj localhost
  unfold Valid
  rwa [me, ip, same]

theorem Valid.steps (valid : db.Valid) {permits : Possession.Label → Prop}
    (steps : Possession.Steps permits db.possession db'.possession)
    (localhost : db'.localhost = db.localhost) (kept : ∀ l, permits l → l ≠ .drop db.myHost) :
    db'.Valid := by
  obtain ⟨me, ip⟩ := Prod.mk.inj localhost
  unfold Valid
  rw [me, ip]
  exact steps.invariant valid fun l _ _ v permitted step => v.step (kept l permitted) step

theorem Valid.apply (valid : db.Valid) {op : Op} (ok : db.apply op = .ok db') : db'.Valid :=
  valid.steps (apply_steps ok) (apply_localhost ok) fun _ => permits_ne_drop

theorem valid_start (ip : IpAddress) : (start ip).Valid where
  linked := by constructor <;> simp [possession, start, Store.exists_lookup_push]
  left_iff p := by simp [possession]
  right_iff r := by simp [possession]
  address_inj p q a := by
    simp only [possession, start, Store.lookup_push, Store.lookup_empty, Option.map_eq_some_iff]
    rintro ⟨h, hp, -⟩ ⟨h', hq, -⟩
    split at hp <;> split at hq <;> simp_all
  key_inj r s k := by simp [possession, start]
  localhost := by simp [possession, start, Store.lookup_push]

theorem reach_valid {ip : IpAddress} {allowed : ResourceDatabase → Op → Prop}
    (h : Reach apply allowed (start ip) db) : db.Valid :=
  h.invariant (valid_start ip) fun _ _ _ valid _ ok => valid.apply ok

/-! ## Where operations fail -/

theorem Valid.findHost_of_address (valid : db.Valid) {p : HostPtr} {ip : IpAddress}
    (named : db.possession.address p = some ip) : ∃ h ∈ db.findHost ip, h.ptr = p := by
  cases found : db.findHost ip with
  | none => exact absurd named (findHost_none found p)
  | some h => exact ⟨h, rfl, valid.address_inj _ _ _ (findHost_some found).2 named⟩

theorem Valid.findResource_of_key (valid : db.Valid) {r : ResourcePtr} {res : Resource}
    (named : db.possession.key r = some res.key) : ∃ x ∈ db.findResource res, x.ptr = r := by
  cases found : db.findResource res with
  | none => exact absurd named (findResource_none found r)
  | some x => exact ⟨x, rfl, valid.key_inj _ _ _ (findResource_some found).2 named⟩

theorem Valid.resource_of_possesed (valid : db.Valid) {p : HostPtr} {h : Host}
    (there : db.hosts.lookup p = some h) {r : ResourcePtr} (listed : r ∈ h.possesedResources) :
    db.resources.lookup r ≠ none :=
  (valid.linked.ends p r ⟨h, there, listed⟩).2.1

theorem Valid.ensureHost (valid : db.Valid) (ip : IpAddress) : (db.ensureHost ip).1.Valid :=
  valid.steps (db.ensureHost_steps ip).1 (db.ensureHost_localhost ip) (by simp)

theorem Valid.prepare (valid : db.Valid) (res : Resource) (ip : IpAddress) :
    (db.prepare res ip).Valid := by
  refine valid.steps (db.prepare_steps res ip) ?_ (by simp)
  exact (ensureHost_localhost _ ip).trans (db.ensureResource_localhost res)

theorem advertise_fold_ok (valid : db.Valid) {toUpdate : HostPtr} {ip : IpAddress}
    (there : db.possession.address toUpdate = some ip) (rest : List Resource) :
    ∃ db', rest.foldlM (advertise toUpdate ip) db = .ok db' := by
  induction rest generalizing db with
  | nil => exact ⟨db, rfl⟩
  | cons res rest ih =>
      rw [List.foldlM_cons]
      cases round : advertise toUpdate ip db res with
      | error e =>
          obtain ⟨h, found⟩ := Option.ne_none_iff_exists'.mp (lookup_of_address there)
          simp only [advertise, found] at round
          cases count : db.countSame res h.possesedResources with
          | error e =>
              obtain ⟨r, listed, gone⟩ := countSame_expired count
              exact absurd gone (valid.resource_of_possesed found listed)
          | ok n =>
              simp only [count, bind, Except.bind, pure, Except.pure] at round
              split at round <;> contradiction
      | ok next =>
          rcases advertise_ok round with rfl | rfl
          · exact ih valid there
          · have ok : db.apply (.addFile res ip) = .ok (db.addFileInternal res ip) := rfl
            exact ih (valid.apply ok) (address_steps (db.addFileInternal_steps res ip) there
              (by simp [Op.Permits]))

theorem Valid.startUpdate (valid : db.Valid) (ip : IpAddress) : (db.startUpdate ip).Valid :=
  (valid.ensureHost ip).of_possession (db.startUpdate_possession ip) rfl

theorem Valid.updateHost_ok (valid : db.Valid) (ip : IpAddress) (possesed : List Resource) :
    ∃ db', db.updateHost ip possesed = .ok db' :=
  advertise_fold_ok (valid.startUpdate ip) (db.startUpdate_address ip) possesed

theorem checkForGoneHostsLoop_ne_expired (valid : db.Valid) {leftMargin : UInt16} {rounds i : Nat} :
    checkForGoneHostsLoop leftMargin rounds i db ≠ .error .expiredPointer := by
  induction rounds generalizing i db with
  | zero => simp [checkForGoneHostsLoop]
  | succ rounds ih =>
      cases at_i : db.hosts.objects[i]? with
      | none => simp [checkForGoneHostsLoop, at_i]
      | some h =>
          have there := Store.lookup_of_getElem? at_i
          simp only [checkForGoneHostsLoop, at_i]
          split
          · cases removal : db.removeHost h with
            | error e =>
                obtain ⟨p, r, forth, gone⟩ := removeHost_expired there removal
                exact absurd (valid.linked.ends p r forth).2.1 gone
            | ok next =>
                obtain ⟨me, myIp⟩ := Prod.mk.inj (removeHost_localhost removal)
                refine ih ?_
                by_cases other : h.ptr = db.myHost
                · obtain rfl := Except.ok.inj ((removeHost_local other).symm.trans removal)
                  exact valid
                · unfold Valid
                  rw [me, myIp, (removeHost_ok there other removal).1]
                  exact Possession.Valid.drop valid other
          · exact ih valid

theorem Valid.apply_expired (valid : db.Valid) {op : Op} (h : db.apply op = .error .expiredPointer) :
    ∃ r p, db.possession.graph.backward r p ∧ ¬db.possession.graph.left p := by
  cases op with
  | addFile res ip => simp [ResourceDatabase.apply] at h
  | removeFile res ip => exact removeFile_expired (map_eq_error.mp h)
  | updateHost ip possesed =>
      obtain ⟨db', ok⟩ := valid.updateHost_ok ip possesed
      simp [ResourceDatabase.apply, ok] at h
  | revokeResource res => exact revokeResource_expired h
  | checkForGoneHosts leftMargin => exact absurd h (checkForGoneHostsLoop_ne_expired valid)

theorem headersOf_ne_expired {possesed : List ResourcePtr}
    (present : ∀ r ∈ possesed, db.resources.lookup r ≠ none) :
    db.headersOf possesed ≠ .error .expiredPointer := by
  induction possesed with
  | nil => simp [headersOf]
  | cons r rest ih =>
      obtain ⟨x, found⟩ := Option.ne_none_iff_exists'.mp (present r List.mem_cons_self)
      have later := ih fun q member => present q (List.mem_cons_of_mem _ member)
      simp only [headersOf, found]
      cases header : x.generateResourceHeader with
      | error e =>
          rw [Resource.generateResourceHeader_error header]
          simp [bind, Except.bind]
      | ok bytes =>
          cases headers : db.headersOf rest with
          | error e => simpa [bind, Except.bind, headers] using later
          | ok tail => simp [bind, Except.bind, pure, Except.pure]

theorem findSame_ne_expired {res : Resource} {possesed : List ResourcePtr}
    (present : ∀ r ∈ possesed, db.resources.lookup r ≠ none) :
    db.findSame res possesed ≠ .error .expiredPointer := by
  induction possesed with
  | nil => simp [findSame]
  | cons r rest ih =>
      obtain ⟨x, found⟩ := Option.ne_none_iff_exists'.mp (present r List.mem_cons_self)
      simp only [findSame, found]
      split
      · simp
      · exact ih fun q member => present q (List.mem_cons_of_mem _ member)

theorem Valid.neverExpired (valid : db.Valid) (sound : db.ReferentiallySound) : db.NeverExpired := by
  have present := (referentiallySound_iff.mp sound).present
  refine ⟨?_, ?_, ?_⟩
  · intro op failed
    obtain ⟨r, p, back, gone⟩ := valid.apply_expired failed
    exact gone (present r p back)
  · unfold generateDatabaseHeaders
    split
    · simp
    · rename_i host found
      exact headersOf_ne_expired fun r listed =>
        valid.resource_of_possesed (findHost_some found).1 listed
  · intro res
    unfold hasFile
    split
    · simp
    · rename_i host found
      exact findSame_ne_expired fun r listed =>
        valid.resource_of_possesed (findHost_some found).1 listed

/-! ## Soundness along runs -/

theorem ReferentiallySound.apply (sound : db.ReferentiallySound) (valid : db.Valid) {op : Op}
    (clean : db.NoHolderGone op) (ok : db.apply op = .ok db') : db'.ReferentiallySound := by
  have answered := sound.answered
  rw [referentiallySound_iff] at sound ⊢
  let Inv (P : Possession) : Prop := P.Valid db.myHost db.myHostIp ∧ P.graph.Sound ∧
    ∀ h, op.Permits db (.drop h) → ¬P.graph.Stale h
  have start : Inv db.possession := by
    refine ⟨valid, sound, ?_⟩
    intro h permitted ⟨r, ⟨x, found, listed⟩, missing⟩
    cases op with
    | checkForGoneHosts leftMargin =>
        obtain ⟨p, host, same, other, there, margin⟩ := permitted
        obtain rfl : h = p := by simpa using same
        cases revoked : x.invalidated with
        | true =>
            exact missing ⟨host, there, clean h ⟨host, other, there, margin⟩ host there r x found
              revoked listed⟩
        | false => exact missing (answered r x found revoked h listed)
    | _ => simp [Op.Permits] at permitted
  refine ((apply_steps ok).invariant start ?_).2.1
  rintro l P Q ⟨v, sound, fresh⟩ permitted step
  refine ⟨v.step (permits_ne_drop permitted) step,
    Possession.sound_step v sound (fun h same => fresh h (same ▸ permitted)) step, ?_⟩
  intro h drops stale
  cases op with
  | checkForGoneHosts leftMargin =>
      obtain ⟨p, host, rfl, -⟩ := permitted
      cases step
      exact fresh h drops stale.of_dropLeft
  | _ => simp [Op.Permits] at drops

theorem referentiallySound_start (ip : IpAddress) : (start ip).ReferentiallySound := by
  refine ⟨?_, ?_, ?_⟩
  · intro p h there r listed
    simp only [start, Store.lookup_push, Store.lookup_empty] at there
    split at there
    · obtain rfl := Option.some.inj there
      simp at listed
    · contradiction
  · simp [start]
  · simp [start]

theorem reach_referentiallySound {ip : IpAddress} (h : Reach apply NoHolderGone (start ip) db) :
    db.ReferentiallySound ∧ db.NeverExpired := by
  let Inv (s : ResourceDatabase) : Prop := s.Valid ∧ s.ReferentiallySound
  have both : Inv db := h.invariant ⟨valid_start ip, referentiallySound_start ip⟩
    fun s op s' ⟨valid, sound⟩ clean ok => ⟨valid.apply ok, sound.apply valid clean ok⟩
  exact ⟨both.2, both.1.neverExpired both.2⟩

/-- A host lists a file again after its revocation, and is removed. -/
theorem listedAgain_referentiallySound : ∃ db : ResourceDatabase,
    db.resources.objects.map (fun r => (r.obj.invalidated, r.obj.hostsInPossession)) = [(true, [0])] ∧
      db.ReferentiallySound ∧ db.NeverExpired := by
  let me : IpAddress := ⟨[10, 0, 0, 1]⟩
  let holder : IpAddress := ⟨[10, 0, 0, 2]⟩
  let res : Resource := { size := 3, name := [97] }
  obtain ⟨db, db', run, own, hosts, resources, removal, left⟩ : ∃ db db',
      Reach apply NoHolderGone (start me) db ∧ db.myHost = 0 ∧
      db.hosts.objects = [⟨0, { hostIp := me }⟩, ⟨1, { hostIp := holder, possesedResources := [0] }⟩] ∧
      db.resources.objects = [⟨0, { res with invalidated := true, hostsInPossession := [0, 1] }⟩] ∧
      db.apply (.checkForGoneHosts 0) = .ok db' ∧
      db'.resources.objects.map (fun r => (r.obj.invalidated, r.obj.hostsInPossession)) =
        [(true, [0])] :=
    ⟨_, _, .tail (e := .addFile res holder) (.tail (e := .revokeResource res)
      (.tail (e := .addFile res me) .refl trivial rfl) trivial rfl) trivial rfl, rfl, rfl, rfl, rfl, rfl⟩
  have clean : NoHolderGone db (.checkForGoneHosts 0) := by
    intro p ⟨_, other, _⟩ h there r x found revoked listed
    rw [Store.lookup_eq_some, resources, List.mem_singleton] at found
    obtain ⟨rfl, -⟩ := Shared.mk.inj found
    rw [Store.lookup_eq_some, hosts, List.mem_cons, List.mem_singleton] at there
    rcases there with localhost | holds
    · exact absurd ((Shared.mk.inj localhost).1.trans own.symm) other
    · simp [(Shared.mk.inj holds).2]
  exact ⟨db', left, reach_referentiallySound (run.tail clean removal)⟩

/-- A holder of a revoked resource is removed; the next removal of the file locks its pointer. -/
theorem referentiallySound_fails : ¬∀ (ip : IpAddress) (db : ResourceDatabase),
    Reach apply Anything (start ip) db → db.ReferentiallySound ∧ db.NeverExpired := by
  intro claim
  let res : Resource := { size := 3, name := [97] }
  let holder : IpAddress := ⟨[10, 0, 0, 2]⟩
  obtain ⟨db, run, expired⟩ := exists_reach_of_exec apply Anything (start ⟨[10, 0, 0, 1]⟩)
    [.addFile res holder, .revokeResource res, .checkForGoneHosts 0]
    (fun db => failsWith (db.apply (.removeFile res holder)) .expiredPointer) (by decide)
  exact (claim _ db run).2.1 (.removeFile res holder) (by simpa using expired)

end SimpleP2P.ResourceDatabase
