import SimpleP2P.Database.ParallelEdges

namespace SimpleP2P.ResourceDatabase
open Library

def Serves (db : ResourceDatabase) (retarded : Nat → HostPtr → Bool) (r : ResourcePtr) (x : Resource)
    (p : HostPtr) : Prop :=
  p ≠ db.myHost ∧ (∃ h, db.hosts.lookup p = some h ∧ r ∈ h.possesedResources) ∧
    ∃ i, x.hostsInPossession[i]? = some p ∧ retarded i p = false

def ConnectsRightly (db : ResourceDatabase) (retarded : Nat → HostPtr → Bool) (r : ResourcePtr)
    (x : Resource) : Prop :=
  match db.createWorkers retarded x with
  | .ok workers => workers.Nodup ∧ (∀ p, p ∈ workers ↔ db.Serves retarded r x p) ∧
      ∃ p, db.Serves retarded r x p
  | .error .noHostHasResource | .error .noHostAvailable => ∀ p, ¬db.Serves retarded r x p
  | .error (.fault _) => False

/-- Every pointer in the list resolves, and those of hosts that are not banned are to different remote
hosts that list the resource. -/
structure ListsServers (db : ResourceDatabase) (retarded : Nat → HostPtr → Bool) (r : ResourcePtr)
    (x : Resource) : Prop where
  present : ∀ p ∈ x.hostsInPossession, db.hosts.lookup p ≠ none
  servers : ∀ i p, x.hostsInPossession[i]? = some p → retarded i p = false →
    p ≠ db.myHost ∧ ∃ h, db.hosts.lookup p = some h ∧ r ∈ h.possesedResources
  distinct : ∀ i j p, x.hostsInPossession[i]? = some p → x.hostsInPossession[j]? = some p →
    retarded i p = false → retarded j p = false → i = j

variable {db : ResourceDatabase} {retarded : Nat → HostPtr → Bool} {k : Nat}
  {hosts workers : List HostPtr}

theorem workersFor_eq (present : ∀ p ∈ hosts, db.hosts.lookup p ≠ none) :
    db.workersFor retarded k hosts =
      .ok (((hosts.zipIdx k).filter fun e => !retarded e.2 e.1).map Prod.fst) := by
  induction hosts generalizing k with
  | nil => rfl
  | cons p rest ih =>
      obtain ⟨h, there⟩ := Option.ne_none_iff_exists'.mp (present p List.mem_cons_self)
      have later := @ih (k + 1) fun q member => present q (List.mem_cons_of_mem _ member)
      cases banned : retarded k p <;>
        simp [workersFor, there, later, banned, bind, Except.bind, pure, Except.pure]

def unbanned (retarded : Nat → HostPtr → Bool) (hosts : List HostPtr) : List HostPtr :=
  (hosts.zipIdx.filter fun e => !retarded e.2 e.1).map Prod.fst

theorem mem_unbanned {p : HostPtr} :
    p ∈ unbanned retarded hosts ↔ ∃ i, hosts[i]? = some p ∧ retarded i p = false := by
  simp only [unbanned, List.mem_map, List.mem_filter, Prod.exists, List.mk_mem_zipIdx_iff_getElem?,
    Bool.not_eq_true']
  constructor
  · rintro ⟨q, i, ⟨there, answers⟩, rfl⟩
    exact ⟨i, there, answers⟩
  · rintro ⟨i, there, answers⟩
    exact ⟨p, i, ⟨there, answers⟩, rfl⟩

theorem nodup_unbanned : (unbanned retarded hosts).Nodup ↔
    ∀ i j p, hosts[i]? = some p → hosts[j]? = some p → retarded i p = false →
      retarded j p = false → i = j := by
  have positions : hosts.zipIdx.Nodup := by
    refine List.Nodup.of_map Prod.snd ?_
    rw [List.zipIdx_map_snd]
    exact List.nodup_range'
  rw [unbanned, List.nodup_map_iff_inj_on (positions.filter _)]
  simp only [List.mem_filter, List.mem_zipIdx_iff_getElem?, Bool.not_eq_true']
  constructor
  · intro injective i j p at_i at_j freeI freeJ
    exact congrArg Prod.snd (injective (p, i) ⟨at_i, freeI⟩ (p, j) ⟨at_j, freeJ⟩ rfl)
  · rintro distinct ⟨p, i⟩ ⟨at_i, freeI⟩ ⟨q, j⟩ ⟨at_j, freeJ⟩ rfl
    rw [distinct i j p at_i at_j freeI freeJ]

variable {r : ResourcePtr} {x : Resource}

theorem createWorkers_eq (retarded : Nat → HostPtr → Bool)
    (present : ∀ p ∈ x.hostsInPossession, db.hosts.lookup p ≠ none) :
    db.createWorkers retarded x =
      if x.hostsInPossession.isEmpty then .error .noHostHasResource
      else if (unbanned retarded x.hostsInPossession).isEmpty then .error .noHostAvailable
      else .ok (unbanned retarded x.hostsInPossession) := by
  have loop : db.workersFor retarded 0 x.hostsInPossession =
      .ok (unbanned retarded x.hostsInPossession) := workersFor_eq present
  generalize unbanned retarded x.hostsInPossession = workers at loop ⊢
  unfold createWorkers
  split
  · rfl
  · rw [loop]
    cases workers <;> rfl

theorem createWorkers_fault (retarded : Nat → HostPtr → Bool) {p : HostPtr}
    (listed : p ∈ x.hostsInPossession) (gone : db.hosts.lookup p = none) : ∃ f, db.createWorkers retarded x = .error (.fault f) := by
  have nonempty : x.hostsInPossession.isEmpty = false :=
    List.isEmpty_eq_false_iff.mpr (List.ne_nil_of_mem listed)
  cases loop : db.workersFor retarded 0 x.hostsInPossession with
  | error f =>
      refine ⟨f, ?_⟩
      simp only [createWorkers, nonempty, loop]
      rfl
  | ok workers => exact absurd gone ((workersFor_sublist loop).2 p listed)

theorem connects_unbanned : (∀ p, p ∈ unbanned retarded x.hostsInPossession ↔
      db.Serves retarded r x p) ↔
    ∀ i p, x.hostsInPossession[i]? = some p → retarded i p = false →
      p ≠ db.myHost ∧ ∃ h, db.hosts.lookup p = some h ∧ r ∈ h.possesedResources := by
  simp only [mem_unbanned]
  constructor
  · intro serves i p there answers
    obtain ⟨remote, possesses, -⟩ := (serves p).mp ⟨i, there, answers⟩
    exact ⟨remote, possesses⟩
  · intro servers p
    constructor
    · rintro ⟨i, there, answers⟩
      obtain ⟨remote, possesses⟩ := servers i p there answers
      exact ⟨remote, possesses, i, there, answers⟩
    · rintro ⟨-, -, asked⟩
      exact asked

theorem connects_present (present : ∀ p ∈ x.hostsInPossession, db.hosts.lookup p ≠ none) :
    db.ConnectsRightly retarded r x ↔ (unbanned retarded x.hostsInPossession).Nodup ∧
      ∀ p, p ∈ unbanned retarded x.hostsInPossession ↔ db.Serves retarded r x p := by
  have answer := createWorkers_eq retarded present
  cases chosen : unbanned retarded x.hostsInPossession with
  | nil =>
      have nobody : db.ConnectsRightly retarded r x ↔ ∀ p, ¬db.Serves retarded r x p := by
        rw [ConnectsRightly, answer, chosen]
        cases x.hostsInPossession <;> rfl
      simp [nobody]
  | cons p rest =>
      have nonempty : x.hostsInPossession.isEmpty = false := by
        refine List.isEmpty_eq_false_iff.mpr fun empty => ?_
        simp [empty, unbanned] at chosen
      rw [ConnectsRightly, answer, chosen, nonempty]
      refine and_congr_right fun _ => ⟨And.left, fun serves => ⟨serves, p, ?_⟩⟩
      exact (serves p).mp List.mem_cons_self

theorem connectsRightly_iff (db : ResourceDatabase) (retarded : Nat → HostPtr → Bool)
    (r : ResourcePtr) (x : Resource) :
    db.ConnectsRightly retarded r x ↔ db.ListsServers retarded r x := by
  constructor
  · intro connects
    have present : ∀ p ∈ x.hostsInPossession, db.hosts.lookup p ≠ none := by
      intro p listed gone
      obtain ⟨f, failed⟩ := createWorkers_fault retarded listed gone
      simp [ConnectsRightly, failed] at connects
    obtain ⟨nodup, serves⟩ := (connects_present present).mp connects
    exact ⟨present, connects_unbanned.mp serves, nodup_unbanned.mp nodup⟩
  · rintro ⟨present, servers, distinct⟩
    exact (connects_present present).mpr ⟨nodup_unbanned.mpr distinct, connects_unbanned.mpr servers⟩

/-- A download of a file that the local host has connects to the local host. -/
theorem connectsRightly_fails : ¬∀ (ip : IpAddress) (db : ResourceDatabase),
    Reach apply Anything (start ip) db → ∀ retarded r x, db.resources.lookup r = some x →
      db.ConnectsRightly retarded r x := by
  intro claim
  obtain ⟨db, run, itself⟩ := exists_reach_of_exec apply Anything (start ⟨[10, 0, 0, 1]⟩)
    [.addFile { size := 3, name := [97] } ⟨[10, 0, 0, 1]⟩]
    (fun db => db.myHost = 0 ∧ (db.resources.lookup 0).map Resource.hostsInPossession = some [0])
    (by decide)
  obtain ⟨me, listed⟩ := of_decide_eq_true itself
  obtain ⟨x, found, holders⟩ := Option.map_eq_some_iff.mp listed
  have servers := ((connectsRightly_iff db (fun _ _ => false) 0 x).mp
    (claim _ db run _ 0 x found)).servers
  exact (servers 0 0 (by simp [holders]) rfl).1 me.symm

end SimpleP2P.ResourceDatabase
