import SimpleP2P.FileManager.Exclusion

namespace SimpleP2P
open Library

/-! ## read_unlock -/

namespace FileManager

def UnlocksFile (m : FileManager) (fileName : FileName) : Prop :=
  m.readUnlock fileName =
    .ok { m with rlockedFiles := m.rlockedFiles.filter (·.fileName ≠ fileName) }

variable {m : FileManager} {fileName : FileName}

theorem eraseFrom_ok_iff {files : List OpenFile} (nodup : (files.map (·.fileName)).Nodup) :
    (∃ files', eraseFrom fileName files = .ok files') ↔
      ∀ f ∈ files.getLast?, f.fileName ≠ fileName := by
  fun_induction eraseFrom fileName files with
  | case1 => simp
  | case2 g same => simp [same]
  | case3 g other => simpa using Ne.symm other
  | case4 g next rest same ih =>
      simp only [List.map_cons, List.nodup_cons, List.mem_cons, not_or] at nodup
      obtain ⟨⟨different, -⟩, -, nodupRest⟩ := nodup
      have mapped : (∃ files', (eraseFrom fileName rest).map (next :: ·) = .ok files') ↔
          ∃ files', eraseFrom fileName rest = .ok files' := by
        simp [map_eq_ok]
      rw [mapped, ih nodupRest]
      cases rest with
      | nil => simpa [same] using Ne.symm different
      | cons f rest => simp [List.getLast?_cons_cons]
  | case5 g next rest other ih =>
      have mapped : (∃ files', (eraseFrom fileName (next :: rest)).map (g :: ·) = .ok files') ↔
          ∃ files', eraseFrom fileName (next :: rest) = .ok files' := by
        simp [map_eq_ok]
      rw [mapped, ih nodup.tail, List.getLast?_cons_cons]

theorem unlocksFile_iff (nodup : m.readNames.Nodup) (fileName : FileName) :
    m.UnlocksFile fileName ↔ ∀ f ∈ m.rlockedFiles.getLast?, f.fileName ≠ fileName := by
  rw [← eraseFrom_ok_iff nodup]
  constructor
  · intro unlocked
    obtain ⟨files, erased, -⟩ := map_eq_ok.mp unlocked
    exact ⟨files, erased⟩
  · rintro ⟨files, erased⟩
    obtain rfl := eraseFrom_of_nodup erased nodup
    rw [UnlocksFile, readUnlock, erased]
    rfl

theorem first_unlocksFile : UnlocksFile
    { rlockedFiles := [⟨[97], { content := [1] }⟩, ⟨[98], { content := [2] }⟩] } [97] :=
  (unlocksFile_iff (by decide) [97]).mpr (by decide)

/-- The only open file is unlocked. -/
theorem unlocksFile_fails : ¬∀ (m : FileManager) (fileName : FileName), m.readNames.Nodup →
    m.UnlocksFile fileName := by
  intro claim
  have unlocked := claim { rlockedFiles := [⟨[97], { content := [1] }⟩] } [97] (by decide)
  contradiction

end FileManager

/-! ## store_resource -/

inductive StorePc
  | idle
  | lockWait (fileName : FileName)
  | opening (fileName : FileName)
  | writing (fileName : FileName)
  | unlocking (fileName : FileName)
  | unlockWait (fileName : FileName)
  deriving DecidableEq, Repr

def StorePc.fileName? : StorePc → Option FileName
  | .idle => none
  | .lockWait f | .opening f | .writing f | .unlocking f | .unlockWait f => some f

def StorePc.isOpening : StorePc → Bool
  | .opening _ => true
  | _ => false

def LockPc.isReadWait : LockPc → Bool
  | .readWait _ => true
  | _ => false

/-- Thread 0 stores files, one after the other, and the other threads read. `before` is history: the
locked files when the last call began. -/
structure FileStores where
  locks : FileLocks
  pc : StorePc := .idle
  before : List FileName := []
  deriving DecidableEq, Repr

namespace FileStores

def storeThread : Nat := 0

def start (readers : Nat) : FileStores where
  locks := .start (readers + 1)

def lockStep (s : FileStores) (e : FileLocks.Event) (pc : StorePc) : Except Halt FileStores := do
  return { s with locks := ← s.locks.step e, pc }

def await (s : FileStores) (pc : StorePc) : Except Halt FileStores :=
  match s.locks.threads[storeThread]? with
  | some (.outside _) => .ok { s with pc }
  | _ => .error .blocked

/-- A step of `store_resource`; `io` is whether its file operation succeeds. -/
def advance (s : FileStores) (io : Bool) : Except Halt FileStores :=
  match s.pc with
  | .lockWait f => s.await (.opening f)
  | .opening f => .ok { s with pc := if io then .writing f else .idle }
  -- a failed write is logged
  | .writing f => .ok { s with pc := .unlocking f }
  | .unlocking f => s.lockStep (.call storeThread (.writeUnlock f)) (.unlockWait f)
  | .unlockWait _ => s.await .idle
  | .idle => .error .blocked

inductive Event
  | store (fileName : FileName)
  | advance (io : Bool)
  | locks (e : FileLocks.Event)
  deriving DecidableEq, Repr

def step (s : FileStores) : Event → Except Halt FileStores
  | .store f =>
      if s.pc = .idle then
        { s with before := s.locks.files.wlockedFiles }.lockStep (.call storeThread (.writeLock f))
          (.lockWait f)
      else .error .blocked
  | .advance io => s.advance io
  | .locks (.call i call) =>
      match call with
      | .readLock _ | .readUnlock _ =>
          if i = storeThread then .error .blocked else s.lockStep (.call i call) s.pc
      -- private to `store_resource`
      | .writeLock _ | .writeUnlock _ => .error .blocked
  | .locks e => s.lockStep e s.pc

structure ReturnsLocks (s : FileStores) : Prop where
  unlocked : s.pc = .idle → s.locks.files.wlockedFiles = s.before
  notified : ∀ f, .readWait f ∈ s.locks.threads ∨ .readParked f ∈ s.locks.threads →
    s.pc.fileName? = some f

/-- Files can be opened, and no reader is between its look at the locked files and its wait when the
others are notified. -/
def OpensAndNotifies (s : FileStores) : Event → Prop
  | .advance io => s.pc.isOpening = true → io = true
  | .locks (.thread i _) => s.locks.threads[i]? = some .notifying →
      ∀ t ∈ s.locks.threads, t.isReadWait = false
  | _ => True

instance (s : FileStores) : (e : Event) → Decidable (s.OpensAndNotifies e)
  | .advance io => inferInstanceAs (Decidable (s.pc.isOpening = true → io = true))
  | .locks (.thread i _) => inferInstanceAs (Decidable (s.locks.threads[i]? = some .notifying →
      ∀ t ∈ s.locks.threads, t.isReadWait = false))
  | .store _ | .locks (.call _ _) | .locks (.wake _) => .isTrue trivial

/-! ## What a call holds -/

inductive Phase : StorePc → LockPc → List FileName → Option FileName → Prop
  | idle {b : Bool} : Phase .idle (.outside b) [] none
  | checking {f : FileName} : Phase (.lockWait f) (.writeCheck f) [] none
  | waiting {f : FileName} : Phase (.lockWait f) (.writeWait f) [] none
  | parked {f : FileName} : Phase (.lockWait f) (.writeParked f) [] none
  | pushing {f : FileName} : Phase (.lockWait f) (.writePush f) [] none
  | locked {f : FileName} {b : Bool} : Phase (.lockWait f) (.outside b) [f] (some f)
  | opening {f : FileName} {b : Bool} : Phase (.opening f) (.outside b) [f] (some f)
  | writing {f : FileName} {b : Bool} : Phase (.writing f) (.outside b) [f] (some f)
  | unlocking {f : FileName} {b : Bool} : Phase (.unlocking f) (.outside b) [f] (some f)
  | erasing {f : FileName} : Phase (.unlockWait f) (.writeUnlock f) [f] (some f)
  | notifying {f : FileName} : Phase (.unlockWait f) .notifying [] (some f)
  | unlocked {f : FileName} {b : Bool} : Phase (.unlockWait f) (.outside b) [] none

def Reading (waited : Option FileName) : LockPc → Prop
  | .outside _ | .readCheck _ | .readRegister _ | .readUnlock _ => True
  | .readWait f | .readParked f => waited = some f
  | .writeCheck _ | .writeWait _ | .writeParked _ | .writePush _ | .writeUnlock _ | .notifying => False

def Readers (waited : Option FileName) (threads : List LockPc) : Prop :=
  ∀ i u, i ≠ storeThread → threads[i]? = some u → Reading waited u

def Holding (pc : StorePc) (l : FileLocks) : Prop :=
  ∃ t waited, l.threads[storeThread]? = some t ∧ Phase pc t l.files.wlockedFiles waited ∧
    Readers waited l.threads

structure InCall (s : FileStores) : Prop where
  before : s.before = []
  holding : Holding s.pc s.locks

variable {s s' : FileStores} {pc : StorePc} {t : LockPc} {held : List FileName}
  {waited : Option FileName}

theorem Phase.waitedFor (h : Phase pc t held waited) : ∀ f ∈ held, waited = some f := by
  cases h <;> simp

theorem Phase.not_reading (h : Phase pc t held waited) (f : FileName) :
    t ≠ .readWait f ∧ t ≠ .readParked f := by
  cases h <;> simp

theorem Phase.idle_iff (h : Phase pc t held waited) (idle : pc = .idle) :
    held = [] ∧ waited = none ∧ ∃ b, t = .outside b := by
  cases h <;> simp_all

theorem Phase.fileName? (h : Phase pc t held waited) {f : FileName} (waits : waited = some f) :
    pc.fileName? = some f := by
  cases h <;> simp_all [StorePc.fileName?]

theorem InCall.returnsLocks (h : s.InCall) : s.ReturnsLocks := by
  obtain ⟨before, t, waited, there, phase, readers⟩ := h
  refine ⟨fun idle => (phase.idle_iff idle).1.trans before.symm, fun f waits => phase.fileName? ?_⟩
  have waiting : ∀ u, u = .readWait f ∨ u = .readParked f → u ∈ s.locks.threads →
      waited = some f := by
    intro u which member
    obtain ⟨i, at_i⟩ := List.mem_iff_getElem?.mp member
    by_cases storer : i = storeThread
    · obtain rfl := Option.some.inj (there.symm.trans (storer ▸ at_i))
      obtain ⟨notWaiting, notParked⟩ := phase.not_reading f
      exact which.elim (absurd · notWaiting) (absurd · notParked)
    · have reading := readers i u storer at_i
      rcases which with rfl | rfl <;> exact reading
  exact waits.elim (waiting _ (.inl rfl)) (waiting _ (.inr rfl))

/-! ## Steps of the threads -/

variable {l l' : FileLocks} {threads : List LockPc}

theorem Readers.set (h : Readers waited threads) {i : Nat} {u' : LockPc}
    (reading : i ≠ storeThread → Reading waited u') : Readers waited (threads.set i u') := by
  intro j u other there
  rcases Threads.getElem?_step there with ⟨rfl, rfl⟩ | ⟨-, old⟩
  · exact reading other
  · exact h j u other old

theorem Readers.storing (h : Readers waited threads) {u' : LockPc} :
    Readers waited (threads.set storeThread u') :=
  h.set (absurd rfl)

theorem Readers.mayWait (h : Readers none threads) (f : FileName) : Readers (some f) threads := by
  intro i u other there
  have reading := h i u other there
  cases u with
  | readWait g | readParked g => contradiction
  | _ => exact reading

theorem Readers.woken (h : Readers waited threads) (none_waits : ∀ u ∈ threads, u.isReadWait = false) :
    Readers none (threads.map LockPc.wake) := by
  intro i u other there
  obtain ⟨v, old, rfl⟩ := Option.map_eq_some_iff.mp (List.getElem?_map ▸ there)
  have reading := h i v other old
  cases v with
  | readWait f => exact absurd (none_waits _ (List.mem_of_getElem? old)) (by simp [LockPc.isReadWait])
  | readParked f => trivial
  | _ => exact reading

theorem reader_move {i : Nat} {disk : Option Bytes} (move : l.Move (.thread i disk) l') {u : LockPc}
    (there : l.threads[i]? = some u) (reading : Reading waited u)
    (held : ∀ f ∈ l.files.wlockedFiles, waited = some f) :
    ∃ u', l'.threads = l.threads.set i u' ∧ Reading waited u' ∧
      l'.files.wlockedFiles = l.files.wlockedFiles := by
  cases move with
  | readBlocked here locked => exact ⟨_, rfl, held _ locked, rfl⟩
  | readPassed here free unlocked => exact ⟨_, rfl, trivial, rfl⟩
  | readWait here =>
      obtain rfl := Option.some.inj (there.symm.trans here)
      exact ⟨_, rfl, reading, rfl⟩
  | readRegister here => exact ⟨_, rfl, trivial, FileManager.register_writers _ _ _⟩
  | readUnlock here closed => exact ⟨_, rfl, trivial, (FileManager.readUnlock_ok closed).1⟩
  | writeBlocked here _ | writePassed here _ _ | writeWait here | writePush here | writeUnlock here
  | notLocked here | notify here =>
      obtain rfl := Option.some.inj (there.symm.trans here)
      exact reading.elim

theorem Holding.storing (h : Holding pc l) {disk : Option Bytes}
    (notified : l.threads[storeThread]? = some .notifying →
      ∀ u ∈ l.threads, u.isReadWait = false)
    (ok : l.step (.thread storeThread disk) = .ok l') : Holding pc l' := by
  obtain ⟨t, waited, there, phase, readers⟩ := h
  obtain ⟨inside, -⟩ := List.getElem?_eq_some_iff.mp there
  have moved (pc' : LockPc) : (l.threads.set storeThread pc')[storeThread]? = some pc' := by
    simp [inside]
  simp only [FileLocks.step, there] at ok
  generalize held : l.files.wlockedFiles = files at phase
  cases phase with
  | idle | parked | locked | opening | writing | unlocking | unlocked => contradiction
  | checking =>
      simp only [FileLocks.advance] at ok
      split at ok
      · contradiction
      · obtain rfl := Except.ok.inj ok
        split
        · exact ⟨_, none, moved _, held ▸ .waiting, readers.storing⟩
        · exact ⟨_, none, moved _, held ▸ .pushing, readers.storing⟩
  | waiting =>
      obtain rfl := Except.ok.inj ok
      exact ⟨_, none, moved _, held ▸ .parked, readers.storing⟩
  | @pushing f =>
      obtain rfl := Except.ok.inj ok
      refine ⟨_, some f, moved _, ?_, (readers.mayWait f).storing⟩
      simpa [FileLocks.goto, held] using Phase.locked
  | @erasing f =>
      simp only [FileLocks.advance, held, List.mem_singleton, if_true] at ok
      split at ok
      · contradiction
      · obtain rfl := Except.ok.inj ok
        refine ⟨_, some f, moved _, ?_, readers.storing⟩
        simpa [FileLocks.goto] using Phase.notifying
  | @notifying f =>
      obtain rfl := Except.ok.inj ok
      refine ⟨.outside false, none, by simp [inside], ?_, (readers.woken (notified there)).storing⟩
      simpa [FileLocks.goto, held] using Phase.unlocked

theorem Holding.reading (h : Holding pc l) {i : Nat} (other : i ≠ storeThread) {disk : Option Bytes}
    (ok : l.step (.thread i disk) = .ok l') : Holding pc l' := by
  obtain ⟨t, waited, there, phase, readers⟩ := h
  obtain ⟨u, at_i, -⟩ := FileLocks.thread_pc ok
  obtain ⟨u', moved, reading, same⟩ := reader_move (FileLocks.step_move ok) at_i
    (readers i u other at_i) phase.waitedFor
  refine ⟨t, waited, ?_, same ▸ phase, moved ▸ readers.set fun _ => reading⟩
  rw [moved, List.getElem?_set_ne other, there]

theorem Reading.wake {u : LockPc} (h : Reading waited u) : Reading waited u.wake := by
  cases u with
  | readParked f => trivial
  | writeParked f => contradiction
  | _ => exact h

theorem Phase.wake (h : Phase pc t held waited) : Phase pc t.wake held waited := by
  cases h with
  | parked => exact .checking
  | _ => constructor

theorem Holding.wake (h : Holding pc l) {i : Nat} (ok : l.step (.wake i) = .ok l') :
    Holding pc l' := by
  obtain ⟨t, waited, there, phase, readers⟩ := h
  cases FileLocks.step_move ok with
  | @wake i u at_i =>
      by_cases own : i = storeThread
      · subst own
        obtain rfl := Option.some.inj (there.symm.trans at_i)
        obtain ⟨inside, -⟩ := List.getElem?_eq_some_iff.mp there
        exact ⟨t.wake, waited, by simp [inside], phase.wake, readers.storing⟩
      · refine ⟨t, waited, ?_, phase, readers.set fun other => (readers i u other at_i).wake⟩
        rw [FileLocks.goto_threads, List.getElem?_set_ne own, there]

theorem Holding.call_reader (h : Holding pc l) {i : Nat} (other : i ≠ storeThread) {call : LockCall}
    (ok : l.step (.call i call) = .ok l') (reader : Reading none call.entry) : Holding pc l' := by
  obtain ⟨t, waited, there, phase, readers⟩ := h
  cases FileLocks.step_move ok with
  | call at_i =>
      refine ⟨t, waited, ?_, phase, readers.set fun _ => ?_⟩
      · rw [FileLocks.goto_threads, List.getElem?_set_ne other, there]
      · cases call <;> trivial

theorem Holding.call_store {pc' : StorePc} (h : Holding pc l) {call : LockCall}
    (entered : ∀ b waited, Phase pc (.outside b) l.files.wlockedFiles waited →
      Phase pc' call.entry l.files.wlockedFiles waited)
    (ok : l.step (.call storeThread call) = .ok l') : Holding pc' l' := by
  obtain ⟨t, waited, there, phase, readers⟩ := h
  cases FileLocks.step_move ok with
  | @call i call b at_i =>
      obtain rfl := Option.some.inj (there.symm.trans at_i)
      obtain ⟨inside, -⟩ := List.getElem?_eq_some_iff.mp there
      exact ⟨call.entry, waited, by simp [inside], entered b waited phase, readers.storing⟩

theorem Holding.passed {pc' : StorePc} (h : Holding pc l)
    (passed : ∀ t held waited, Phase pc t held waited → Phase pc' t held waited) : Holding pc' l := by
  obtain ⟨t, waited, there, phase, readers⟩ := h
  exact ⟨t, waited, there, passed t _ waited phase, readers⟩

/-! ## Runs -/

theorem lockStep_ok {e : FileLocks.Event} (h : s.lockStep e pc = .ok s') :
    ∃ locks, s.locks.step e = .ok locks ∧ s' = { s with locks, pc } := by
  obtain ⟨locks, ok, eq⟩ := bind_eq_ok.mp h
  exact ⟨locks, ok, (Except.ok.inj eq).symm⟩

theorem await_ok (h : s.await pc = .ok s') :
    (∃ b, s.locks.threads[storeThread]? = some (.outside b)) ∧ s' = { s with pc } := by
  simp only [await] at h
  split at h
  · rename_i b there
    exact ⟨⟨b, there⟩, (Except.ok.inj h).symm⟩
  · contradiction

theorem InCall.await (h : s.InCall) (ok : s.await pc = .ok s')
    (passed : ∀ b held waited, Phase s.pc (.outside b) held waited →
      Phase pc (.outside b) held waited) : s'.InCall := by
  obtain ⟨before, t, waited, there, phase, readers⟩ := h
  obtain ⟨⟨b, outside⟩, rfl⟩ := await_ok ok
  obtain rfl := Option.some.inj (there.symm.trans outside)
  exact ⟨before, _, waited, there, passed b _ waited phase, readers⟩

theorem InCall.advance (h : s.InCall) {io : Bool} (opens : s.pc.isOpening = true → io = true)
    (ok : s.advance io = .ok s') : s'.InCall := by
  cases at_pc : s.pc with
  | idle => simp [FileStores.advance, at_pc] at ok
  | lockWait f =>
      simp only [FileStores.advance, at_pc] at ok
      refine h.await ok fun b held waited phase => ?_
      rw [at_pc] at phase
      cases phase
      exact .opening
  | opening f =>
      simp only [FileStores.advance, at_pc] at ok
      obtain rfl := opens (by rw [at_pc]; rfl)
      obtain rfl := Except.ok.inj ok
      refine ⟨h.before, h.holding.passed fun t held waited phase => ?_⟩
      rw [at_pc] at phase
      cases phase
      exact .writing
  | writing f =>
      simp only [FileStores.advance, at_pc] at ok
      obtain rfl := Except.ok.inj ok
      refine ⟨h.before, h.holding.passed fun t held waited phase => ?_⟩
      rw [at_pc] at phase
      cases phase
      exact .unlocking
  | unlocking f =>
      simp only [FileStores.advance, at_pc] at ok
      obtain ⟨locks, called, rfl⟩ := lockStep_ok ok
      refine ⟨h.before, h.holding.call_store (fun b waited phase => ?_) called⟩
      rw [at_pc] at phase
      generalize s.locks.files.wlockedFiles = held at phase ⊢
      cases phase
      exact .erasing
  | unlockWait f =>
      simp only [FileStores.advance, at_pc] at ok
      refine h.await ok fun b held waited phase => ?_
      rw [at_pc] at phase
      cases phase
      exact .idle

theorem InCall.locks (h : s.InCall) {e : FileLocks.Event} (allowed : s.OpensAndNotifies (.locks e))
    (ok : s.step (.locks e) = .ok s') : s'.InCall := by
  cases e with
  | call i call =>
      cases call with
      | readLock f | readUnlock f =>
          simp only [FileStores.step] at ok
          split at ok
          · contradiction
          · rename_i other
            obtain ⟨locks, called, rfl⟩ := lockStep_ok ok
            exact ⟨h.before, h.holding.call_reader other called trivial⟩
      | writeLock f | writeUnlock f => contradiction
  | thread i disk =>
      obtain ⟨locks, moved, rfl⟩ := lockStep_ok ok
      by_cases own : i = storeThread
      · subst own
        exact ⟨h.before, h.holding.storing allowed moved⟩
      · exact ⟨h.before, h.holding.reading own moved⟩
  | wake i =>
      obtain ⟨locks, moved, rfl⟩ := lockStep_ok ok
      exact ⟨h.before, h.holding.wake moved⟩

theorem InCall.step (h : s.InCall) {e : Event} (allowed : s.OpensAndNotifies e)
    (ok : s.step e = .ok s') : s'.InCall := by
  cases e with
  | store f =>
      simp only [FileStores.step] at ok
      split at ok
      · rename_i idle
        obtain ⟨locks, called, rfl⟩ := lockStep_ok ok
        obtain ⟨t, waited, there, phase, -⟩ := h.holding
        obtain ⟨nothing, -⟩ := phase.idle_iff idle
        refine ⟨nothing, h.holding.call_store (fun b waited phase => ?_) called⟩
        obtain ⟨-, rfl, -⟩ := phase.idle_iff idle
        rw [nothing]
        exact .checking
      · contradiction
  | advance io => exact h.advance allowed ok
  | locks e => exact h.locks allowed ok

theorem start_inCall (readers : Nat) : (start readers).InCall := by
  refine ⟨rfl, .outside false, none, rfl, .idle, fun i u _ there => ?_⟩
  obtain rfl := List.eq_of_mem_replicate (List.mem_of_getElem? there)
  trivial

theorem reach_returnsLocks {readers : Nat} (h : Reach step OpensAndNotifies (start readers) s) :
    s.ReturnsLocks :=
  (h.invariant (start_inCall readers) fun _ _ _ inCall allowed ok =>
    inCall.step allowed ok).returnsLocks

theorem woken_returnsLocks : ∃ s : FileStores, s.locks.threads[1]? = some (.readCheck [97]) ∧
    s.ReturnsLocks := by
  obtain ⟨s, run, woken⟩ := exists_reach_of_exec step OpensAndNotifies (start 1)
    [.store [97], .locks (.thread 0 none), .locks (.thread 0 none), .advance true,
      .locks (.call 1 (.readLock [97])), .locks (.thread 1 none), .locks (.thread 1 none),
      .advance true, .advance true, .advance true, .locks (.thread 0 none), .locks (.thread 0 none),
      .advance true]
    (fun s => s.locks.threads[1]? = some (.readCheck [97])) (by decide)
  exact ⟨s, of_decide_eq_true woken, reach_returnsLocks run⟩

/-- The file cannot be opened. -/
theorem returnsLocks_fails : ¬∀ (readers : Nat) (s : FileStores),
    Reach step Anything (start readers) s → s.ReturnsLocks := by
  intro claim
  obtain ⟨s, run, kept⟩ := exists_reach_of_exec step Anything (start 1)
    [.store [97], .locks (.thread 0 none), .locks (.thread 0 none), .advance true, .advance false]
    (fun s => s.pc = .idle ∧ s.locks.files.wlockedFiles = [[97]] ∧ s.before = []) (by decide)
  obtain ⟨idle, locked, before⟩ := of_decide_eq_true kept
  have unlocked := (claim 1 s run).unlocked idle
  rw [locked, before] at unlocked
  contradiction

end FileStores

end SimpleP2P
