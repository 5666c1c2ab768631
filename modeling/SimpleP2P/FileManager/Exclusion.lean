import SimpleP2P.FileManager.Locks

namespace SimpleP2P
open Library

namespace FileManager

variable {m m' : FileManager} {fileName : FileName}

theorem mem_eraseFrom {files files' : List OpenFile} (h : eraseFrom fileName files = .ok files')
    {f : OpenFile} (member : f ∈ files') : f ∈ files := by
  fun_induction eraseFrom fileName files generalizing files' with
  | case1 => exact Except.ok.inj h ▸ member
  | case2 g same => contradiction
  | case3 g other => exact Except.ok.inj h ▸ member
  | case4 g next rest same ih =>
      obtain ⟨rest', erased, rfl⟩ := map_eq_ok.mp h
      rcases List.mem_cons.mp member with rfl | member
      · simp
      · simp [ih erased member]
  | case5 g next rest other ih =>
      obtain ⟨rest', erased, rfl⟩ := map_eq_ok.mp h
      rcases List.mem_cons.mp member with rfl | member
      · simp
      · exact List.mem_cons_of_mem _ (ih erased member)

theorem mem_eraseFrom_of_ne {files files' : List OpenFile}
    (h : eraseFrom fileName files = .ok files') {f : OpenFile} (member : f ∈ files)
    (different : f.fileName ≠ fileName) : f ∈ files' := by
  fun_induction eraseFrom fileName files generalizing files' with
  | case1 => simp at member
  | case2 g same => contradiction
  | case3 g other => exact Except.ok.inj h ▸ member
  | case4 g next rest same ih =>
      obtain ⟨rest', erased, rfl⟩ := map_eq_ok.mp h
      rcases List.mem_cons.mp member with rfl | member
      · exact absurd same.symm different
      · rcases List.mem_cons.mp member with rfl | member
        · simp
        · exact List.mem_cons_of_mem _ (ih erased member)
  | case5 g next rest other ih =>
      obtain ⟨rest', erased, rfl⟩ := map_eq_ok.mp h
      rcases List.mem_cons.mp member with rfl | member
      · simp
      · exact List.mem_cons_of_mem _ (ih erased member)

theorem eraseFrom_of_nodup {files files' : List OpenFile}
    (h : eraseFrom fileName files = .ok files') (nodup : (files.map (·.fileName)).Nodup) :
    files' = files.filter (·.fileName ≠ fileName) := by
  fun_induction eraseFrom fileName files generalizing files' with
  | case1 => exact (Except.ok.inj h).symm
  | case2 g same => contradiction
  | case3 g other =>
      rw [List.filter_cons_of_pos (by simpa using Ne.symm other)]
      exact (Except.ok.inj h).symm
  | case4 g next rest same ih =>
      obtain ⟨rest', erased, rfl⟩ := map_eq_ok.mp h
      simp only [List.map_cons, List.nodup_cons, List.mem_cons, not_or] at nodup
      obtain ⟨⟨different, -⟩, -, nodupRest⟩ := nodup
      rw [List.filter_cons_of_neg (by simpa using same.symm),
        List.filter_cons_of_pos (by simpa [same] using Ne.symm different), ih erased nodupRest]
  | case5 g next rest other ih =>
      obtain ⟨rest', erased, rfl⟩ := map_eq_ok.mp h
      rw [List.filter_cons_of_pos (by simpa using Ne.symm other), ih erased nodup.tail]

theorem readUnlock_ok (h : m.readUnlock fileName = .ok m') :
    m'.wlockedFiles = m.wlockedFiles ∧ (∀ f ∈ m'.readNames, f ∈ m.readNames) ∧
      ∀ f ∈ m.readNames, f ≠ fileName → f ∈ m'.readNames := by
  obtain ⟨files, erased, rfl⟩ := map_eq_ok.mp h
  refine ⟨rfl, fun f member => ?_, fun f member other => ?_⟩
  · obtain ⟨x, inside, rfl⟩ := List.mem_map.mp member
    exact List.mem_map_of_mem (mem_eraseFrom erased inside)
  · obtain ⟨x, inside, rfl⟩ := List.mem_map.mp member
    exact List.mem_map_of_mem (mem_eraseFrom_of_ne erased inside other)

theorem mem_register {disk : Option Bytes} {f : FileName} :
    f ∈ (m.register fileName disk).2.readNames ↔
      f ∈ m.readNames ∨ (m.register fileName disk).1 = true ∧ f = fileName := by
  unfold register
  split
  · rename_i already
    constructor
    · exact .inl
    · rintro (old | ⟨-, rfl⟩)
      · exact old
      · exact already
  · split <;> simp [readNames]

theorem register_nodup (h : m.readNames.Nodup) (fileName : FileName) (disk : Option Bytes) :
    (m.register fileName disk).2.readNames.Nodup := by
  unfold register
  split
  · exact h
  · rename_i missing
    split
    · exact h
    · simp only [readNames, List.map_append, List.map_cons, List.map_nil]
      refine List.nodup_append.mpr ⟨h, by simp, ?_⟩
      rintro f old _ new rfl
      exact missing (List.mem_singleton.mp new ▸ old)

theorem readUnlock_of_nodup (h : m.readNames.Nodup) (ok : m.readUnlock fileName = .ok m') :
    m'.readNames = m.readNames.filter (· ≠ fileName) := by
  obtain ⟨files, erased, rfl⟩ := map_eq_ok.mp ok
  obtain rfl := eraseFrom_of_nodup erased h
  simp only [readNames, List.filter_map]
  rfl

theorem register_writers (m : FileManager) (fileName : FileName) (disk : Option Bytes) :
    (m.register fileName disk).2.wlockedFiles = m.wlockedFiles := by
  unfold register
  split
  · rfl
  · split <;> rfl

theorem register_readers {disk : Option Bytes} {f : FileName} :
    (f ∈ m.readNames → f ∈ (m.register fileName disk).2.readNames) ∧
      (f ∈ (m.register fileName disk).2.readNames → f ∈ m.readNames ∨ f = fileName) := by
  unfold register
  split
  · exact ⟨id, .inl⟩
  · split
    · exact ⟨id, .inl⟩
    · constructor
      · intro member
        simp only [readNames, List.map_append, List.mem_append] at member ⊢
        exact .inl member
      · intro member
        simpa [readNames] using member

end FileManager

namespace FileLocks

variable {s s' : FileLocks}

def Exclusive (s : FileLocks) : Prop :=
  ∀ f, f ∈ s.files.readNames → f ∉ s.files.wlockedFiles

def searched? : LockPc → Option FileName
  | .writeCheck f => some f
  | _ => none

def SearchesAlone (s : FileLocks) : Event → Prop
  | .thread i _ => ∀ pc ∈ s.threads[i]?, ∀ f ∈ searched? pc, f ∉ s.files.readNames →
      .readRegister f ∉ s.threads
  | _ => True

def OneWriter (s : FileLocks) : Event → Prop
  | .call _ (.writeLock _) => ∀ pc ∈ s.threads, pc.inWriteLock = false
  | _ => True

instance (s : FileLocks) : (e : Event) → Decidable (s.SearchesAlone e)
  | .thread i _ => inferInstanceAs (Decidable (∀ pc ∈ s.threads[i]?, ∀ f ∈ searched? pc,
      f ∉ s.files.readNames → .readRegister f ∉ s.threads))
  | .call _ _ => .isTrue trivial
  | .wake _ => .isTrue trivial

instance (s : FileLocks) : (e : Event) → Decidable (s.OneWriter e)
  | .call _ (.writeLock _) => inferInstanceAs (Decidable (∀ pc ∈ s.threads, pc.inWriteLock = false))
  | .call _ (.readLock _) => .isTrue trivial
  | .call _ (.readUnlock _) => .isTrue trivial
  | .call _ (.writeUnlock _) => .isTrue trivial
  | .thread _ _ => .isTrue trivial
  | .wake _ => .isTrue trivial

structure Apart (s : FileLocks) : Prop where
  exclusive : s.Exclusive
  reader : ∀ f, .readRegister f ∈ s.threads →
    f ∉ s.files.wlockedFiles ∧ .writePush f ∉ s.threads
  writer : ∀ f, .writePush f ∈ s.threads → f ∉ s.files.readNames

def hasSearched : LockPc → Bool
  | .readRegister _ | .writePush _ => true
  | _ => false

theorem mem_of_set {kind : LockPc → Bool} {threads : List LockPc} {i : Nat} {pc t : LockPc}
    (h : t ∈ threads.set i pc) (of : kind t = true) (other : kind pc = false) : t ∈ threads := by
  refine (List.mem_or_eq_of_mem_set h).resolve_right ?_
  rintro rfl
  simp [other] at of

theorem Apart.move (h : s.Apart) {files : FileManager} {threads : List LockPc}
    (kept : ∀ t ∈ threads, hasSearched t = true → t ∈ s.threads)
    (exclusive : ∀ f ∈ files.readNames, f ∉ files.wlockedFiles)
    (entered : ∀ f, .readRegister f ∈ s.threads → f ∉ files.wlockedFiles)
    (registered : ∀ f, .writePush f ∈ s.threads → f ∉ files.readNames) :
    FileLocks.Apart { files, threads } where
  exclusive := exclusive
  reader f member := by
    have old := kept _ member rfl
    exact ⟨entered f old, fun entering => (h.reader f old).2 (kept _ entering rfl)⟩
  writer f member := registered f (kept _ member rfl)

theorem Apart.goto (h : s.Apart) {i : Nat} {pc : LockPc} (other : hasSearched pc = false) :
    (s.goto i pc).Apart :=
  h.move (fun _ member searched => mem_of_set member searched other) h.exclusive
    (fun f member => (h.reader f member).1) h.writer

theorem not_writePush_of_free (free : s.wlmutexHeld = false) (f : FileName) :
    .writePush f ∉ s.threads := by
  intro member
  simp only [wlmutexHeld, List.any_eq_false] at free
  exact free _ member rfl

theorem wake_of_hasSearched {pc : LockPc} (h : hasSearched pc.wake = true) : pc.wake = pc := by
  cases pc with
  | readParked f | writeParked f => simp [LockPc.wake, hasSearched] at h
  | _ => rfl

theorem Apart.step (h : s.Apart) {e : Event} (alone : s.SearchesAlone e) (ok : s.step e = .ok s') :
    s'.Apart := by
  cases step_move ok with
  | @call i call opened there => exact h.goto (by cases call <;> rfl)
  | @wake i pc there =>
      refine h.move (fun t inside searched => ?_) h.exclusive (fun f inside => (h.reader f inside).1)
        h.writer
      rcases List.mem_or_eq_of_mem_set inside with old | rfl
      · exact old
      · rw [wake_of_hasSearched searched]
        exact List.mem_of_getElem? there
  | readBlocked there locked => exact h.goto rfl
  | @readPassed i disk f there free unlocked =>
      have nobody (g : FileName) : .writePush g ∉ s.threads.set i (.readRegister f) := by
        intro member
        rcases List.mem_or_eq_of_mem_set member with old | new
        · exact not_writePush_of_free free g old
        · contradiction
      refine ⟨h.exclusive, fun g member => ⟨?_, nobody g⟩, fun g member => absurd member (nobody g)⟩
      rcases List.mem_or_eq_of_mem_set member with old | new
      · exact (h.reader g old).1
      · exact LockPc.readRegister.inj new ▸ unlocked
  | readWait there => exact h.goto rfl
  | @readRegister i disk f there =>
      obtain ⟨unlocked, nobody⟩ := h.reader f (List.mem_of_getElem? there)
      have same := s.files.register_writers f disk
      refine h.move (fun _ member searched => mem_of_set member searched rfl) (fun g member => ?_)
        (fun g member => same ▸ (h.reader g member).1) fun g member inside => ?_
      · rw [same]
        rcases FileManager.register_readers.2 member with old | rfl
        · exact h.exclusive g old
        · exact unlocked
      · rcases FileManager.register_readers.2 inside with old | rfl
        · exact h.writer g member old
        · exact nobody member
  | @readUnlock i disk f files there closed =>
      obtain ⟨same, fewer, -⟩ := FileManager.readUnlock_ok closed
      exact h.move (fun _ member searched => mem_of_set member searched rfl)
        (fun g member => same ▸ h.exclusive g (fewer g member))
        (fun g member => same ▸ (h.reader g member).1)
        fun g member inside => h.writer g member (fewer g inside)
  | writeBlocked there locked => exact h.goto rfl
  | @writePassed i disk f there free unlocked =>
      have nobody := alone (.writeCheck f) there f rfl unlocked
      refine ⟨h.exclusive, fun g member => ?_, fun g member => ?_⟩
      · rcases List.mem_or_eq_of_mem_set member with old | new
        · refine ⟨(h.reader g old).1, fun entering => ?_⟩
          rcases List.mem_or_eq_of_mem_set entering with earlier | new
          · exact (h.reader g old).2 earlier
          · exact nobody (LockPc.writePush.inj new ▸ old)
        · contradiction
      · rcases List.mem_or_eq_of_mem_set member with old | new
        · exact h.writer g old
        · exact LockPc.writePush.inj new ▸ unlocked
  | writeWait there => exact h.goto rfl
  | @writePush i disk f there =>
      have entering := List.mem_of_getElem? there
      refine h.move (fun _ member searched => mem_of_set member searched rfl)
        (fun g member inside => ?_) (fun g member inside => ?_) h.writer
      · rcases List.mem_append.mp inside with old | new
        · exact h.exclusive g member old
        · exact h.writer f entering (List.mem_singleton.mp new ▸ member)
      · rcases List.mem_append.mp inside with old | new
        · exact (h.reader g member).1 old
        · exact (h.reader g member).2 (List.mem_singleton.mp new ▸ entering)
  | @writeUnlock i disk f there =>
      exact h.move (fun _ member searched => mem_of_set member searched rfl)
        (fun g member inside => h.exclusive g member (List.mem_of_mem_erase inside))
        (fun g member inside => (h.reader g member).1 (List.mem_of_mem_erase inside)) h.writer
  | notLocked there => exact h.goto rfl
  | @notify i disk there =>
      refine h.move (fun t member searched => ?_) h.exclusive (fun f member => (h.reader f member).1)
        h.writer
      obtain ⟨pc, old, rfl⟩ := List.mem_map.mp (mem_of_set member searched rfl)
      rwa [wake_of_hasSearched searched]

theorem reach_exclusive {threads : Nat} (h : Reach step SearchesAlone (start threads) s) :
    s.Exclusive := by
  have apart : (start threads).Apart := by
    refine ⟨fun f member => by simp [start, FileManager.readNames] at member, fun f member => ?_,
      fun f member => ?_⟩
    · exact absurd (List.eq_of_mem_replicate member) (by simp)
    · exact absurd (List.eq_of_mem_replicate member) (by simp)
  exact (h.invariant apart fun _ _ _ apart alone ok => apart.step alone ok).exclusive

theorem locked_exclusive : ∃ s : FileLocks, [97] ∈ s.files.readNames ∧ s.Exclusive := by
  obtain ⟨s, run, locked⟩ := exists_reach_of_exec step SearchesAlone (start 2)
    [.call 0 (.readLock [97]), .thread 0 none, .thread 0 (some [1, 2, 3]), .call 1 (.writeLock [97]),
      .thread 1 none, .thread 1 none]
    (fun s => [97] ∈ s.files.readNames) (by decide)
  exact ⟨s, of_decide_eq_true locked, reach_exclusive run⟩

/-- A reader passes its check, one writer enters, and the reader registers. -/
theorem exclusive_fails : ¬∀ (threads : Nat) (s : FileLocks),
    Reach step OneWriter (start threads) s → s.Exclusive := by
  intro claim
  obtain ⟨s, run, both⟩ := exists_reach_of_exec step OneWriter (start 2)
    [.call 0 (.readLock [97]), .thread 0 none, .call 1 (.writeLock [97]), .thread 1 none,
      .thread 1 none, .thread 0 (some [1, 2, 3])]
    (fun s => [97] ∈ s.files.readNames ∧ [97] ∈ s.files.wlockedFiles) (by decide)
  obtain ⟨read, written⟩ := of_decide_eq_true both
  exact claim 2 s run _ read written

end FileLocks

end SimpleP2P
