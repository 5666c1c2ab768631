import SimpleP2P.Database.Soundness

namespace SimpleP2P.ResourceDatabase
open Library

structure ListsEachOther (db : ResourceDatabase) : Prop where
  possessed : ∀ p h, db.hosts.lookup p = some h → ∀ r ∈ h.possesedResources,
    ∃ x, db.resources.lookup r = some x ∧ (x.invalidated = false → p ∈ x.hostsInPossession)
  answered : ∀ r x, db.resources.lookup r = some x → x.invalidated = false →
    ∀ p ∈ x.hostsInPossession, ∃ h, db.hosts.lookup p = some h ∧ r ∈ h.possesedResources

def stays (db : ResourceDatabase) (leftMargin : UInt16) (p : HostPtr) : Bool :=
  p = db.myHost || (db.hosts.lookup p).all (·.noOfMissedUpdates < leftMargin)

def lasting (db : ResourceDatabase) (leftMargin : UInt16) (x : Resource) : Resource :=
  { x with hostsInPossession := x.hostsInPossession.filter (db.stays leftMargin) }

structure RemovedGone (db : ResourceDatabase) (leftMargin : UInt16) (db' : ResourceDatabase) :
    Prop where
  hosts : db'.hosts.objects = db.hosts.objects.filter (db.stays leftMargin ·.ptr)
  unlisted : ∀ r x, db'.resources.lookup r = some x → x.invalidated = false →
    ∀ p ∈ x.hostsInPossession, db.stays leftMargin p = true
  edges : ∀ r, (db'.resources.lookup r).map (db.lasting leftMargin) =
    (db.resources.lookup r).map (db.lasting leftMargin)

def RemovesGone (db : ResourceDatabase) (leftMargin : UInt16) : Prop :=
  ∃ db', db.checkForGoneHosts leftMargin = .ok db' ∧ db.RemovedGone leftMargin db'

variable {db db' : ResourceDatabase} {leftMargin : UInt16} {rounds i : Nat} {h : Shared Host}

theorem stays_iff (member : h ∈ db.hosts.objects) : db.stays leftMargin h.ptr = true ↔
    h.ptr = db.myHost ∨ h.obj.noOfMissedUpdates < leftMargin := by
  simp [stays, Store.lookup_eq_some.mpr member]

theorem checkForGoneHostsLoop_stays (at_i : db.hosts.objects[i]? = some h)
    (kept : db.stays leftMargin h.ptr = true) :
    checkForGoneHostsLoop leftMargin (rounds + 1) i db =
      checkForGoneHostsLoop leftMargin rounds (i + 1) db := by
  simp only [checkForGoneHostsLoop, at_i]
  split
  · rename_i missed
    rcases (stays_iff (List.mem_of_getElem? at_i)).mp kept with me | few
    · rw [removeHost_local me]
      rfl
    · exact absurd few (UInt16.not_lt.mpr missed)
  · rfl

theorem checkForGoneHostsLoop_gone (rounds : Nat) (at_i : db.hosts.objects[i]? = some h)
    (gone : db.stays leftMargin h.ptr = false) : h.ptr ≠ db.myHost ∧
    checkForGoneHostsLoop leftMargin (rounds + 1) i db =
      db.removeHost h >>= checkForGoneHostsLoop leftMargin rounds (i + 1) := by
  have goes : ¬(h.ptr = db.myHost ∨ h.obj.noOfMissedUpdates < leftMargin) := by
    rw [← stays_iff (List.mem_of_getElem? at_i), gone]
    exact Bool.false_ne_true
  obtain ⟨other, many⟩ := not_or.mp goes
  refine ⟨other, ?_⟩
  simp only [checkForGoneHostsLoop, at_i]
  rw [if_pos (UInt16.not_lt.mp many)]

theorem checkForGoneHostsLoop_skip (skipped rounds : Nat)
    (inside : i + skipped ≤ db.hosts.objects.length)
    (kept : ∀ j h, i ≤ j → j < i + skipped → db.hosts.objects[j]? = some h →
      db.stays leftMargin h.ptr = true) :
    checkForGoneHostsLoop leftMargin (skipped + rounds) i db =
      checkForGoneHostsLoop leftMargin rounds (i + skipped) db := by
  induction skipped generalizing i with
  | zero => rw [Nat.zero_add, Nat.add_zero]
  | succ skipped ih =>
      have here : i < db.hosts.objects.length := by omega
      have at_i := List.getElem?_eq_getElem here
      have later := ih (i := i + 1) (by omega) fun j h since below => kept j h (by omega) (by omega)
      rw [Nat.add_right_comm, checkForGoneHostsLoop_stays at_i (kept i _ (by omega) (by omega) at_i),
        later, Nat.add_right_comm, Nat.add_assoc]

theorem removeHost_length (member : h ∈ db.hosts.objects) (other : h.ptr ≠ db.myHost)
    (ok : db.removeHost h = .ok db') :
    db'.hosts.objects.length + 1 = db.hosts.objects.length := by
  obtain ⟨-, hosts, -⟩ := removeHost_ok (Store.lookup_eq_some.mpr member) other ok
  have positive := List.length_pos_of_mem member
  have length := List.length_eraseP_of_mem member (p := fun o => o.ptr == h.ptr) (by simp)
  have shorter : (db.hosts.erase h.ptr).objects.length = db.hosts.objects.length - 1 := length
  rw [hosts, shorter]
  omega

/-- Behind the end of a vector that has become too short for its rounds, one of them reads. -/
theorem checkForGoneHostsLoop_overruns (more : 0 < rounds)
    (short : db.hosts.objects.length < i + rounds) :
    checkForGoneHostsLoop leftMargin rounds i db ≠ .ok db' := by
  induction rounds generalizing i db with
  | zero => omega
  | succ rounds ih =>
      intro ok
      cases at_i : db.hosts.objects[i]? with
      | none => simp [checkForGoneHostsLoop, at_i] at ok
      | some h =>
          have inside := (List.getElem?_eq_some_iff.mp at_i).1
          rcases checkForGoneHostsLoop_succ at_i ok with same | ⟨next, gone, removed, later⟩
          · exact ih (by omega) (by omega) same
          · obtain ⟨_, other, -⟩ := gone
            have length := removeHost_length (List.mem_of_getElem? at_i) other removed
            exact ih (by omega) (by omega) later

theorem checkForGoneHostsLoop_early (counted : i + rounds = db.hosts.objects.length) {j : Nat}
    (from_i : i ≤ j) (at_j : db.hosts.objects[j]? = some h)
    (gone : db.stays leftMargin h.ptr = false) (early : j + 1 < db.hosts.objects.length) :
    checkForGoneHostsLoop leftMargin rounds i db ≠ .ok db' := by
  induction rounds generalizing i with
  | zero => omega
  | succ rounds ih =>
      intro ok
      have inside : i < db.hosts.objects.length := by omega
      have at_i := List.getElem?_eq_getElem inside
      cases kept : db.stays leftMargin db.hosts.objects[i].ptr with
      | true =>
          have later : i ≠ j := by
            rintro rfl
            obtain rfl := Option.some.inj (at_i.symm.trans at_j)
            rw [kept] at gone
            contradiction
          rw [checkForGoneHostsLoop_stays at_i kept] at ok
          exact ih (by omega) (by omega) ok
      | false =>
          obtain ⟨other, loop⟩ := checkForGoneHostsLoop_gone rounds at_i kept
          rw [loop] at ok
          obtain ⟨next, removed, later⟩ := bind_eq_ok.mp ok
          have length := removeHost_length (List.mem_of_getElem? at_i) other removed
          exact checkForGoneHostsLoop_overruns (by omega) (by omega) later

/-! ## What one removal does -/

theorem ReferentiallySound.listsEachOther (sound : db.ReferentiallySound) : db.ListsEachOther where
  possessed p h there r listed := by
    obtain ⟨x, found, back⟩ := sound.possessed p h there r listed
    exact ⟨x, found, fun _ => back⟩
  answered := sound.answered

theorem removeHost_resources (other : h.ptr ≠ db.myHost) (ok : db.removeHost h = .ok db')
    (r : ResourcePtr) : db'.resources.lookup r = if r ∈ h.obj.possesedResources then
      (db.resources.lookup r).map (·.removeHost h.ptr) else db.resources.lookup r := by
  obtain ⟨resources, cut, rfl⟩ := (removeHost_removed other).mp ok
  exact Store.modifyAll_ok (Resource.removeHost_twice · h.ptr) cut r

theorem ListsEachOther.removeHost (each : db.ListsEachOther) (member : h ∈ db.hosts.objects) :
    ∃ db', db.removeHost h = .ok db' := by
  cases removed : db.removeHost h with
  | ok db' => exact ⟨db', rfl⟩
  | error e =>
      obtain ⟨p, r, ⟨g, there, listed⟩, missing⟩ :=
        removeHost_expired (Store.lookup_eq_some.mpr member) removed
      obtain ⟨x, found, -⟩ := each.possessed p g there r listed
      exact absurd (by simp [possession, found]) missing

theorem lasting_removeHost (gone : db.stays leftMargin h.ptr = false) (x : Resource) :
    db.lasting leftMargin (x.removeHost h.ptr) = db.lasting leftMargin x := by
  have both : ∀ p, (db.stays leftMargin p && p != h.ptr) = db.stays leftMargin p := by
    intro p
    by_cases same : p = h.ptr
    · rw [same, gone]
      rfl
    · simp [same]
  simp only [lasting, Resource.removeHost, List.filter_filter, both]

theorem ListsEachOther.stays_of_listed (each : db.ListsEachOther)
    (only : ∀ o ∈ db.hosts.objects, o.ptr ≠ h.ptr → db.stays leftMargin o.ptr = true)
    {r : ResourcePtr} {x : Resource} (found : db.resources.lookup r = some x)
    (valid : x.invalidated = false) {p : HostPtr} (listed : p ∈ x.hostsInPossession)
    (other : p ≠ h.ptr) : db.stays leftMargin p = true := by
  obtain ⟨g, there, -⟩ := each.answered r x found valid p listed
  exact only ⟨p, g⟩ (Store.lookup_eq_some.mp there) other

theorem ListsEachOther.removedGone (each : db.ListsEachOther) (member : h ∈ db.hosts.objects)
    (gone : db.stays leftMargin h.ptr = false)
    (only : ∀ o ∈ db.hosts.objects, o.ptr ≠ h.ptr → db.stays leftMargin o.ptr = true)
    (other : h.ptr ≠ db.myHost) (ok : db.removeHost h = .ok db') : db.RemovedGone leftMargin db' := by
  have resources := removeHost_resources other ok
  obtain ⟨-, hosts, -⟩ := removeHost_ok (Store.lookup_eq_some.mpr member) other ok
  refine ⟨?_, fun r x found valid p listed => ?_, fun r => ?_⟩
  · rw [hosts, Store.objects_erase]
    refine List.filter_congr fun o there => ?_
    by_cases same : o.ptr = h.ptr
    · simp [same, gone]
    · simp [same, only o there same]
  · rw [resources] at found
    split at found
    · obtain ⟨old, there, rfl⟩ := Option.map_eq_some_iff.mp found
      obtain ⟨listed, different⟩ := List.mem_filter.mp listed
      exact each.stays_of_listed only there valid listed (by simpa using different)
    · rename_i unlisted
      refine each.stays_of_listed only found valid listed ?_
      rintro rfl
      obtain ⟨g, there, back⟩ := each.answered r x found valid h.ptr listed
      obtain rfl := Option.some.inj (there.symm.trans (Store.lookup_eq_some.mpr member))
      exact unlisted back
  · rw [resources]
    split
    · cases db.resources.lookup r with
      | none => rfl
      | some x => simp [lasting_removeHost gone]
    · rfl

theorem ListsEachOther.removedGone_self (each : db.ListsEachOther)
    (all : ∀ o ∈ db.hosts.objects, db.stays leftMargin o.ptr = true) :
    db.RemovedGone leftMargin db := by
  refine ⟨(List.filter_eq_self.mpr all).symm, fun r x found valid p listed => ?_, fun r => rfl⟩
  obtain ⟨g, there, -⟩ := each.answered r x found valid p listed
  exact all ⟨p, g⟩ (Store.lookup_eq_some.mp there)

/-! ## The whole loop -/

theorem ListsEachOther.removesNone (each : db.ListsEachOther)
    (all : ∀ o ∈ db.hosts.objects, db.stays leftMargin o.ptr = true) : db.RemovesGone leftMargin := by
  refine ⟨db, ?_, each.removedGone_self all⟩
  exact checkForGoneHostsLoop_skip _ 0 (Nat.le_of_eq (Nat.zero_add _)) fun j h _ _ at_j =>
    all h (List.mem_of_getElem? at_j)

theorem ListsEachOther.removesLast (each : db.ListsEachOther) (at_i : db.hosts.objects[i]? = some h)
    (gone : db.stays leftMargin h.ptr = false)
    (only : ∀ j o, db.hosts.objects[j]? = some o → j + 1 ≠ db.hosts.objects.length →
      db.stays leftMargin o.ptr = true) : db.RemovesGone leftMargin := by
  have member := List.mem_of_getElem? at_i
  have last : i + 1 = db.hosts.objects.length := by
    by_contra early
    rw [only i h at_i early] at gone
    contradiction
  obtain ⟨db', removed⟩ := each.removeHost member
  have walk : checkForGoneHostsLoop leftMargin (i + 1) 0 db =
      checkForGoneHostsLoop leftMargin 1 (0 + i) db :=
    checkForGoneHostsLoop_skip i 1 (by omega) fun j o _ before at_j => only j o at_j (by omega)
  obtain ⟨other, loop⟩ := checkForGoneHostsLoop_gone 0 at_i gone
  refine ⟨db', ?_, each.removedGone member gone (fun o there different => ?_) other removed⟩
  · rw [checkForGoneHosts, ← last, walk, Nat.zero_add, loop, removed]
    rfl
  · obtain ⟨j, at_j⟩ := List.mem_iff_getElem?.mp there
    refine only j o at_j fun same => different ?_
    obtain rfl : j = i := by omega
    rw [Option.some.inj (at_j.symm.trans at_i)]

theorem removesGone_iff (each : db.ListsEachOther) (leftMargin : UInt16) :
    db.RemovesGone leftMargin ↔ ∀ i h, db.hosts.objects[i]? = some h →
      leftMargin ≤ h.obj.noOfMissedUpdates →
        h.ptr = db.myHost ∨ i + 1 = db.hosts.objects.length := by
  constructor
  · rintro ⟨db', ok, -⟩ i h at_i missed
    by_contra early
    obtain ⟨other, notLast⟩ := not_or.mp early
    have inside := (List.getElem?_eq_some_iff.mp at_i).1
    have gone : db.stays leftMargin h.ptr = false := by
      rw [← Bool.not_eq_true, stays_iff (List.mem_of_getElem? at_i)]
      exact not_or.mpr ⟨other, UInt16.not_lt.mpr missed⟩
    exact checkForGoneHostsLoop_early (Nat.zero_add _) (Nat.zero_le i) at_i gone (by omega) ok
  · intro last
    have only : ∀ i h, db.hosts.objects[i]? = some h → i + 1 ≠ db.hosts.objects.length →
        db.stays leftMargin h.ptr = true := by
      intro i h at_i early
      rw [stays_iff (List.mem_of_getElem? at_i)]
      by_contra goes
      obtain ⟨other, many⟩ := not_or.mp goes
      exact (last i h at_i (UInt16.not_lt.mp many)).elim other early
    by_cases someGone : ∃ h ∈ db.hosts.objects, db.stays leftMargin h.ptr = false
    · obtain ⟨h, member, gone⟩ := someGone
      obtain ⟨i, at_i⟩ := List.mem_iff_getElem?.mp member
      exact each.removesLast at_i gone fun j o at_j earlier => only j o at_j earlier
    · have all : ∀ o ∈ db.hosts.objects, db.stays leftMargin o.ptr = true := by
        simpa only [not_exists, not_and, Bool.not_eq_false] using someGone
      exact each.removesNone all

/-- The only other host misses updates and is the last one. -/
theorem goneLast_removesGone :
    ((start ⟨[1]⟩).addFileInternal { size := 3, name := [97] } ⟨[2]⟩).RemovesGone 0 := by
  have run : Reach apply NoHolderGone (start ⟨[1]⟩)
      ((start ⟨[1]⟩).addFileInternal { size := 3, name := [97] } ⟨[2]⟩) :=
    .tail (e := .addFile { size := 3, name := [97] } ⟨[2]⟩) .refl trivial rfl
  have each := (reach_referentiallySound run).1.listsEachOther
  refine (removesGone_iff each 0).mpr fun i h at_i _ => ?_
  match i, at_i with
  | 0, at_i => exact .inl (congrArg Shared.ptr (Option.some.inj at_i)).symm
  | 1, _ => exact .inr rfl

/-- Of two hosts that miss updates the second one moves to the place of the first, and the loop looks
at the place it has left. -/
theorem removesGone_fails : ¬∀ (db : ResourceDatabase) (leftMargin : UInt16),
    db.ListsEachOther → db.RemovesGone leftMargin := by
  intro claim
  let res : Resource := { size := 3, name := [97] }
  have run : Reach apply NoHolderGone (start ⟨[1]⟩)
      (((start ⟨[1]⟩).addFileInternal res ⟨[2]⟩).addFileInternal res ⟨[3]⟩) :=
    .tail (e := .addFile res ⟨[3]⟩) (.tail (e := .addFile res ⟨[2]⟩) .refl trivial rfl) trivial rfl
  obtain ⟨db', ok, -⟩ := claim _ 0 (reach_referentiallySound run).1.listsEachOther
  have fails : failsWith ((((start ⟨[1]⟩).addFileInternal res ⟨[2]⟩).addFileInternal res
      ⟨[3]⟩).checkForGoneHosts 0 |>.map fun _ => ()) .outOfBounds = true := by decide
  rw [ok] at fails
  contradiction

end SimpleP2P.ResourceDatabase
