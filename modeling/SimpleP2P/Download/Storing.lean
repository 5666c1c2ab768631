import SimpleP2P.Broadcast.Rounds
import SimpleP2P.Database.ParallelEdges
import SimpleP2P.Download.Steps
import SimpleP2P.FileManager.Locks

namespace SimpleP2P
open Library

namespace ResourceDatabase

def advertised (db : ResourceDatabase) : List ResourceKey := db.keysOfHost db.myHostIp

def SameAdvertised (db db' : ResourceDatabase) : Prop := ∀ k, k ∈ db.advertised ↔ k ∈ db'.advertised

instance (db db' : ResourceDatabase) : Decidable (db.SameAdvertised db') :=
  decidable_of_iff (db.advertised ⊆ db'.advertised ∧ db'.advertised ⊆ db.advertised)
    ⟨fun ⟨there, back⟩ _ => ⟨(there ·), (back ·)⟩,
      fun same => ⟨fun k => (same k).mp, fun k => (same k).mpr⟩⟩

end ResourceDatabase

variable {db db' : ResourceDatabase}

namespace ResourceDatabase

theorem Valid.addFileInternal_keysOfHost (valid : db.Valid) {ip : IpAddress}
    (known : db.findHost ip ≠ none) (res : Resource) (k : ResourceKey) :
    k ∈ (db.addFileInternal res ip).keysOfHost ip ↔ k ∈ db.keysOfHost ip ∨ k = res.key := by
  obtain ⟨p, r, linked, address, key⟩ := db.addFileInternal_connect res ip
  rw [mem_keysOfHost, mem_keysOfHost, linked, view_connect (valid.prepare res ip) address key,
    view_prepare valid known]
  by_cases same : k = res.key
  · simp [same, View.connect]
  · have other : (ip, k) ≠ (ip, res.key) := fun eq => same (Prod.mk.inj eq).2
    rw [View.connect_possessed _ other]
    simp [same, View.create]

theorem Valid.addFile_advertised (valid : db.Valid) (res : Resource) (k : ResourceKey) :
    k ∈ (db.addFileInternal res db.myHostIp).advertised ↔ k ∈ db.advertised ∨ k = res.key := by
  obtain ⟨h, found, -⟩ := valid.findHost_of_address valid.localhost
  have ip := (Prod.mk.inj (db.addFileInternal_localhost res db.myHostIp)).2
  rw [advertised, ip]
  exact valid.addFileInternal_keysOfHost (by simp [Option.mem_def.mp found]) res k

end ResourceDatabase

/-- Where the service is in `init`; from `locking` on it is in `store_resource`. -/
inductive ServicePc
  | idle
  | controlling
  | locking
  | lockWait
  | opening
  | writing
  | closing (good : Bool)
  | unlocking
  | unlockWait
  | returned
  deriving DecidableEq, Repr

/-- A node with one download. `file` is how many bytes of the data the file holds, once it has been
opened. The last three fields are history: what was advertised before the download, and whether the
download and the other modules have changed that since. -/
structure Storing where
  db : ResourceDatabase
  locks : FileLocks
  download : Option Download := none
  pc : ServicePc := .idle
  file : Option Nat := none
  before : List ResourceKey := []
  gained : Bool := false
  others : Bool := false

/-- Whether a file operation succeeds, and how many bytes of a write have reached the disk after it. -/
structure StoreChoice where
  io : Bool := true
  bytes : Nat := 0
  deriving DecidableEq, Repr

namespace Storing

def serviceThread : Nat := 0

def start (me : IpAddress) (threads : Nat) : Storing where
  db := .start me
  locks := .start (threads + 1)

def lockStep (s : Storing) (e : FileLocks.Event) (pc : ServicePc) : Except Halt Storing := do
  return { s with locks := ← s.locks.step e, pc }

def await (s : Storing) (pc : ServicePc) : Except Halt Storing :=
  match s.locks.threads[serviceThread]? with
  | some (.outside _) => .ok { s with pc }
  | _ => .error .blocked

def init (s : Storing) (r : ResourcePtr) (retarded : Nat → HostPtr → Bool)
    (delays : HostPtr → HostDelays) : Except Halt Storing :=
  match s.pc, s.db.resources.lookup r with
  | .idle, some resource =>
      let s := { s with before := s.db.advertised, others := false }
      match s.db.createWorkers retarded resource with
      | .ok workers =>
          .ok { s with download := some (.start resource workers delays), pc := .controlling }
      | .error (.fault f) => .error (.fault f)
      | .error .noHostHasResource | .error .noHostAvailable => .ok { s with pc := .returned }
  | _, _ => .error .blocked

/-- `store_file`, after `controll_workers` has returned or thrown. -/
def serviceStep (s : Storing) (d : Download) (choice : StoreChoice) : Except Halt Storing :=
  let resource := d.complete.resource
  match s.pc with
  | .controlling =>
      match d.controller with
      | .storing => .ok { s with db := s.db.addFileInternal resource s.db.myHostIp, pc := .locking }
      | .returned => .ok { s with pc := .returned }
      | _ => .error .blocked
  | .locking => s.lockStep (.call serviceThread (.writeLock resource.name)) .lockWait
  | .lockWait => s.await .opening
  -- a file that cannot be opened stays locked
  | .opening =>
      .ok (if choice.io then { s with file := some 0, pc := .writing } else { s with pc := .returned })
  | .writing =>
      if resource.size.toNat ≤ d.complete.dataSize then
        .ok { s with
          file := some (min choice.bytes resource.size.toNat)
          pc := .closing choice.io }
      else .error (.fault .outOfBounds)
  -- `close` writes the rest of a good stream, and nobody looks whether it could
  | .closing good =>
      .ok { s with
        file := if good && choice.io then some resource.size.toNat else s.file
        pc := .unlocking }
  | .unlocking => s.lockStep (.call serviceThread (.writeUnlock resource.name)) .unlockWait
  | .unlockWait => s.await .returned
  | .idle | .returned => .error .blocked

inductive Event
  | init (r : ResourcePtr) (retarded : Nat → HostPtr → Bool) (delays : HostPtr → HostDelays)
  | download (e : Download.Event)
  | service (choice : StoreChoice)
  | database (op : ResourceDatabase.Op)
  | locks (e : FileLocks.Event)

def step (s : Storing) : Event → Except Halt Storing
  | .init r retarded delays => s.init r retarded delays
  | .download e =>
      match s.download, e with
      | none, _ => .error .blocked
      | some d, .controller choice =>
          if d.controller = .storing then .error .blocked
          else do return { s with download := some (← d.step (.controller choice)) }
      | some d, e => do return { s with download := some (← d.step e) }
  | .service choice =>
      match s.download with
      | none => .error .blocked
      | some d => do
          let next ← s.serviceStep d choice
          return { next with gained := s.gained || !decide (s.db.SameAdvertised next.db) }
  | .database op => do
      let db ← (s.db.apply op).mapError .fault
      return { s with db, others := s.others || !decide (s.db.SameAdvertised db) }
  | .locks e =>
      match e with
      | .call i call =>
          if i = serviceThread then .error .blocked else s.lockStep (.call i call) s.pc
      | e => s.lockStep e s.pc

def Stored (s : Storing) (d : Download) : Prop := s.file = some d.complete.resource.size.toNat

/-- What the download has added is on the disk, and a download that has returned without storing its
file has changed nothing of what is advertised. -/
structure StoresFirst (s : Storing) : Prop where
  written : ∀ d ∈ s.download, s.gained = true → d.complete.resource.key ∈ s.db.advertised → s.Stored d
  failed : s.pc = .returned → (∀ d ∈ s.download, ¬s.Stored d) → s.others = false →
    ∀ k, k ∈ s.db.advertised ↔ k ∈ s.before

def AddsOwned (s : Storing) : Event → Prop
  | .service _ => ∀ d ∈ s.download, s.pc = .controlling → d.controller = .storing →
      d.complete.resource.key ∈ s.db.advertised
  | _ => True

instance (s : Storing) : (e : Event) → Decidable (s.AddsOwned e)
  | .service _ => inferInstanceAs (Decidable (∀ d ∈ s.download, s.pc = .controlling →
      d.controller = .storing → d.complete.resource.key ∈ s.db.advertised))
  | .init _ _ _ | .download _ | .database _ | .locks _ => .isTrue trivial

variable {s s' : Storing} {d : Download}

/-! ## Steps -/

theorem lockStep_ok {e : FileLocks.Event} {pc : ServicePc} (ok : s.lockStep e pc = .ok s') :
    ∃ locks, s' = { s with locks, pc } := by
  obtain ⟨locks, -, ok⟩ := bind_eq_ok.mp ok
  exact ⟨locks, (Except.ok.inj ok).symm⟩

theorem await_ok {pc : ServicePc} (ok : s.await pc = .ok s') : s' = { s with pc } := by
  unfold await at ok
  split at ok
  · exact (Except.ok.inj ok).symm
  · contradiction

structure Kept (s s' : Storing) : Prop where
  download : s'.download = s.download
  before : s'.before = s.before
  gained : s'.gained = s.gained
  others : s'.others = s.others

theorem serviceStep_ok {choice : StoreChoice} (ok : s.serviceStep d choice = .ok s') : Kept s s' ∧
    s'.pc ≠ .idle ∧ s'.pc ≠ .controlling ∧ (s'.db = s.db ∨ s.pc = .controlling ∧
      d.controller = .storing ∧ s'.file = s.file ∧
      s'.db = s.db.addFileInternal d.complete.resource s.db.myHostIp) := by
  simp only [serviceStep] at ok
  cases at_pc : s.pc with
  | idle | returned => simp [at_pc] at ok
  | controlling =>
      cases controller : d.controller with
      | storing =>
          simp only [at_pc, controller] at ok
          obtain rfl := Except.ok.inj ok
          exact ⟨⟨rfl, rfl, rfl, rfl⟩, by simp, by simp, .inr ⟨rfl, rfl, rfl, rfl⟩⟩
      | returned =>
          simp only [at_pc, controller] at ok
          obtain rfl := Except.ok.inj ok
          exact ⟨⟨rfl, rfl, rfl, rfl⟩, by simp, by simp, .inl rfl⟩
      | _ => simp [at_pc, controller] at ok
  | locking | unlocking =>
      simp only [at_pc] at ok
      obtain ⟨locks, rfl⟩ := lockStep_ok ok
      exact ⟨⟨rfl, rfl, rfl, rfl⟩, by simp, by simp, .inl rfl⟩
  | lockWait | unlockWait =>
      simp only [at_pc] at ok
      obtain rfl := await_ok ok
      exact ⟨⟨rfl, rfl, rfl, rfl⟩, by simp, by simp, .inl rfl⟩
  | opening =>
      simp only [at_pc] at ok
      obtain rfl := Except.ok.inj ok
      split <;> exact ⟨⟨rfl, rfl, rfl, rfl⟩, by simp, by simp, .inl rfl⟩
  | writing =>
      simp only [at_pc] at ok
      split at ok
      · obtain rfl := Except.ok.inj ok
        exact ⟨⟨rfl, rfl, rfl, rfl⟩, by simp, by simp, .inl rfl⟩
      · contradiction
  | closing good =>
      simp only [at_pc] at ok
      obtain rfl := Except.ok.inj ok
      exact ⟨⟨rfl, rfl, rfl, rfl⟩, by simp, by simp, .inl rfl⟩

theorem init_ok {r : ResourcePtr} {retarded : Nat → HostPtr → Bool} {delays : HostPtr → HostDelays}
    (ok : s.init r retarded delays = .ok s') : s.pc = .idle ∧ s'.db = s.db ∧
      s'.before = s.db.advertised ∧ s'.gained = s.gained ∧ s'.file = s.file := by
  unfold init at ok
  split at ok
  · rename_i resource idle there
    refine ⟨idle, ?_⟩
    simp only at ok
    split at ok
    · exact Except.ok.inj ok ▸ ⟨rfl, rfl, rfl, rfl⟩
    · contradiction
    · exact Except.ok.inj ok ▸ ⟨rfl, rfl, rfl, rfl⟩
    · exact Except.ok.inj ok ▸ ⟨rfl, rfl, rfl, rfl⟩
  · contradiction

theorem step_download {e : Download.Event} (ok : s.step (.download e) = .ok s') :
    ∃ d d', s.download = some d ∧ d.step e = .ok d' ∧ s' = { s with download := some d' } := by
  cases download : s.download with
  | none => simp [step, download] at ok
  | some d =>
      refine ⟨d, ?_⟩
      cases e with
      | controller choice =>
          simp only [step, download] at ok
          split at ok
          · contradiction
          · obtain ⟨d', moved, ok⟩ := bind_eq_ok.mp ok
            exact ⟨d', rfl, moved, (Except.ok.inj ok).symm⟩
      | _ =>
          simp only [step, download] at ok
          obtain ⟨d', moved, ok⟩ := bind_eq_ok.mp ok
          exact ⟨d', rfl, moved, (Except.ok.inj ok).symm⟩

theorem step_service {choice : StoreChoice} (ok : s.step (.service choice) = .ok s') :
    ∃ d next, s.download = some d ∧ s.serviceStep d choice = .ok next ∧ s' = { next with
      gained := s.gained || !decide (s.db.SameAdvertised next.db) } := by
  cases download : s.download with
  | none => simp [step, download] at ok
  | some d =>
      simp only [step, download] at ok
      obtain ⟨next, moved, ok⟩ := bind_eq_ok.mp ok
      exact ⟨d, next, rfl, moved, (Except.ok.inj ok).symm⟩

theorem step_locks {e : FileLocks.Event} (ok : s.step (.locks e) = .ok s') :
    ∃ locks, s' = { s with locks } := by
  cases e with
  | call i call =>
      simp only [step] at ok
      split at ok
      · contradiction
      · exact lockStep_ok ok
  | thread i disk => exact lockStep_ok ok
  | wake i => exact lockStep_ok ok

/-! ## Runs -/

structure Accounted (s : Storing) : Prop where
  valid : s.db.Valid
  unopened : s.pc = .idle ∨ s.pc = .controlling → s.file = none
  kept : s.gained = false → s.others = false → ∀ k, k ∈ s.db.advertised ↔ k ∈ s.before

theorem accounted_start (me : IpAddress) (threads : Nat) : (start me threads).Accounted where
  valid := ResourceDatabase.valid_start me
  unopened _ := rfl
  kept _ _ k := by simp [start, ResourceDatabase.advertised, ResourceDatabase.start_keysOfHost]

theorem Accounted.step (h : s.Accounted) {e : Event} (ok : s.step e = .ok s') : s'.Accounted := by
  cases e with
  | init r retarded delays =>
      obtain ⟨idle, db, before, -, file⟩ := init_ok ok
      refine ⟨db ▸ h.valid, fun _ => file.trans (h.unopened (.inl idle)), fun _ _ k => ?_⟩
      rw [db, before]
  | download e =>
      obtain ⟨d, d', -, -, rfl⟩ := step_download ok
      exact ⟨h.valid, h.unopened, h.kept⟩
  | service choice =>
      obtain ⟨d, next, -, moved, rfl⟩ := step_service ok
      obtain ⟨kept, late, later, change⟩ := serviceStep_ok moved
      refine ⟨?_, fun early => (early.elim late later).elim, fun ours theirs k => ?_⟩
      · obtain same | ⟨-, -, -, added⟩ := change
        · exact same ▸ h.valid
        · have applied : s.db.apply (.addFile d.complete.resource s.db.myHostIp) = .ok next.db :=
            congrArg Except.ok added.symm
          exact h.valid.apply applied
      · obtain ⟨before, now⟩ := Bool.or_eq_false_iff.mp ours
        have same : s.db.SameAdvertised next.db := by simpa using now
        have theirs : next.others = false := theirs
        rw [kept.before, ← h.kept before (kept.others ▸ theirs)]
        exact (same k).symm
  | database op =>
      obtain ⟨db, applied, ok⟩ := bind_eq_ok.mp ok
      obtain rfl := Except.ok.inj ok
      refine ⟨h.valid.apply (mapError_ok.mp applied), h.unopened, fun ours theirs k => ?_⟩
      obtain ⟨before, now⟩ := Bool.or_eq_false_iff.mp theirs
      have same : s.db.SameAdvertised db := by simpa using now
      exact (same k).symm.trans (h.kept ours before k)
  | locks e =>
      obtain ⟨locks, rfl⟩ := step_locks ok
      exact ⟨h.valid, h.unopened, h.kept⟩

theorem Accounted.gained (h : s.Accounted) (ours : s.gained = false) {e : Event} (owned : s.AddsOwned e)
    (ok : s.step e = .ok s') : s'.gained = false := by
  cases e with
  | init r retarded delays => exact (init_ok ok).2.2.2.1.trans ours
  | download e =>
      obtain ⟨d, d', -, -, rfl⟩ := step_download ok
      exact ours
  | service choice =>
      obtain ⟨d, next, there, moved, rfl⟩ := step_service ok
      have same : s.db.SameAdvertised next.db := by
        obtain same | ⟨controlling, storing, -, added⟩ := (serviceStep_ok moved).2.2.2
        · exact fun k => by rw [same]
        · have listed := owned d there controlling storing
          intro k
          rw [added, h.valid.addFile_advertised]
          exact ⟨Or.inl, fun either => either.elim id fun eq => eq ▸ listed⟩
      simp [ours, same]
  | database op =>
      obtain ⟨db, -, ok⟩ := bind_eq_ok.mp ok
      exact Except.ok.inj ok ▸ ours
  | locks e =>
      obtain ⟨locks, rfl⟩ := step_locks ok
      exact ours

theorem reach_accounted {me : IpAddress} {threads : Nat} {allowed : Storing → Event → Prop}
    (h : Reach step allowed (start me threads) s) : s.Accounted :=
  h.invariant (accounted_start me threads) fun _ _ _ accounted _ ok => accounted.step ok

theorem reach_storesFirst {me : IpAddress} {threads : Nat}
    (h : Reach step AddsOwned (start me threads) s) : s.StoresFirst := by
  let Inv (s : Storing) : Prop := s.Accounted ∧ s.gained = false
  have both : Inv s := h.invariant ⟨accounted_start me threads, rfl⟩
    fun _ _ _ ⟨accounted, ours⟩ owned ok => ⟨accounted.step ok, accounted.gained ours owned ok⟩
  obtain ⟨accounted, ours⟩ := both
  refine ⟨fun d _ gained => ?_, fun _ _ theirs => accounted.kept ours theirs⟩
  rw [ours] at gained
  contradiction

/-- Any other file is advertised right after the step that adds it, when nothing is on the disk. -/
theorem adding_not_storesFirst {me : IpAddress} {threads : Nat} {choice : StoreChoice}
    (h : Reach step Anything (start me threads) s) (new : ¬s.AddsOwned (.service choice))
    (ok : s.step (.service choice) = .ok s') : ¬s'.StoresFirst := by
  have accounted := reach_accounted h
  obtain ⟨d, next, there, moved, rfl⟩ := step_service ok
  obtain ⟨controlling, storing, unlisted⟩ : s.pc = .controlling ∧ d.controller = .storing ∧
      d.complete.resource.key ∉ s.db.advertised := by simpa [AddsOwned, there] using new
  simp only [serviceStep, controlling, storing] at moved
  obtain rfl := Except.ok.inj moved
  have added := accounted.valid.addFile_advertised d.complete.resource d.complete.resource.key
  have differs : ¬s.db.SameAdvertised (s.db.addFileInternal d.complete.resource s.db.myHostIp) :=
    fun same => unlisted ((same _).mpr (added.mpr (.inr rfl)))
  intro first
  have stored := first.written d there (by simp [differs]) (added.mpr (.inr rfl))
  have nothing : s.file = none := accounted.unopened (.inr controlling)
  simp [Stored, nothing] at stored

def oneSegment (i : Nat) : List Event :=
  List.replicate 10 (.download (.worker i {})) ++ [.download (.controller {})]

/-- The file is possessed already, and cannot be opened. -/
theorem owned_storesFirst : ∃ s : Storing, s.pc = .returned ∧ s.file = none ∧
    s.db.advertised = [([97], 3), ([97], 3)] ∧ s.StoresFirst := by
  let res : Resource := { size := 3, name := [97] }
  obtain ⟨s, run, ended⟩ := exists_reach_of_exec step AddsOwned (start ⟨[1]⟩ 0)
    ([.database (.addFile res ⟨[1]⟩), .database (.addFile res ⟨[2]⟩),
      .init 0 (fun _ _ => false) fun _ => { banTime := 0 }] ++ oneSegment 1 ++
      [.service {}, .service {}, .locks (.thread 0 none), .locks (.thread 0 none), .service {},
        .service { io := false }])
    (fun s => s.pc = .returned ∧ s.file = none ∧ s.db.advertised = [([97], 3), ([97], 3)])
    (by decide +kernel)
  obtain ⟨returned, file, advertised⟩ := of_decide_eq_true ended
  exact ⟨s, returned, file, advertised, reach_storesFirst run⟩

/-- The downloaded file cannot be opened, and is advertised ever after. -/
theorem storesFirst_fails : ¬∀ (me : IpAddress) (threads : Nat) (s : Storing),
    Reach step Anything (start me threads) s → s.StoresFirst := by
  intro claim
  let res : Resource := { size := 3, name := [97] }
  obtain ⟨s, run, ended⟩ := exists_reach_of_exec step Anything (start ⟨[1]⟩ 0)
    ([.database (.addFile res ⟨[2]⟩), .init 0 (fun _ _ => false) fun _ => { banTime := 0 }] ++
      oneSegment 0 ++
      [.service {}, .service {}, .locks (.thread 0 none), .locks (.thread 0 none), .service {},
        .service { io := false }])
    (fun s => s.pc = .returned ∧ s.file = none ∧ s.others = false ∧ s.before = [] ∧
      s.db.advertised = [([97], 3)]) (by decide +kernel)
  obtain ⟨returned, file, alone, before, advertised⟩ := of_decide_eq_true ended
  have same := (claim _ _ s run).failed returned (by simp [Stored, file]) alone ([97], 3)
  simp [before, advertised] at same

end Storing

end SimpleP2P
