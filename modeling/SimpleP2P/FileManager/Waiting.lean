import SimpleP2P.FileManager.Exclusion

namespace SimpleP2P.FileLocks
open Library

variable {s s' : FileLocks}

def WaitedFor (s : FileLocks) : Prop :=
  (∀ f, .readParked f ∈ s.threads → f ∈ s.files.wlockedFiles) ∧
    ∀ f, .writeParked f ∈ s.threads → f ∈ s.files.readNames

/-- A thread waits without a pending notification, and nobody has the lock it waits for. -/
def Stuck (s : FileLocks) : Prop := .notifying ∉ s.threads ∧ ¬s.WaitedFor

/-- The lock is still there when the thread begins to wait, and the lock that a reader gives back is
not waited for, unless a notification is pending. -/
def KeepsWaited (s : FileLocks) : LockPc → Prop
  | .readWait f => f ∈ s.files.wlockedFiles ∨ .notifying ∈ s.threads
  | .writeWait f => f ∈ s.files.readNames ∨ .notifying ∈ s.threads
  | .readUnlock f => .writeParked f ∉ s.threads ∨ .notifying ∈ s.threads
  | _ => True

def WaitsRightly (s : FileLocks) : Event → Prop
  | .thread i _ => ∀ pc ∈ s.threads[i]?, s.KeepsWaited pc
  | _ => True

instance (s : FileLocks) : (pc : LockPc) → Decidable (s.KeepsWaited pc)
  | .readWait f => inferInstanceAs (Decidable (f ∈ s.files.wlockedFiles ∨ .notifying ∈ s.threads))
  | .writeWait f => inferInstanceAs (Decidable (f ∈ s.files.readNames ∨ .notifying ∈ s.threads))
  | .readUnlock f => inferInstanceAs (Decidable (.writeParked f ∉ s.threads ∨ .notifying ∈ s.threads))
  | .outside _ | .readCheck _ | .readParked _ | .readRegister _ | .writeCheck _ | .writeParked _
  | .writePush _ | .writeUnlock _ | .notifying => .isTrue trivial

instance (s : FileLocks) : (e : Event) → Decidable (s.WaitsRightly e)
  | .thread i _ => inferInstanceAs (Decidable (∀ pc ∈ s.threads[i]?, s.KeepsWaited pc))
  | .call _ _ => .isTrue trivial
  | .wake _ => .isTrue trivial

def Attended (s : FileLocks) : Prop := .notifying ∈ s.threads ∨ s.WaitedFor

theorem attended_iff : s.Attended ↔ ¬s.Stuck := by
  unfold Attended Stuck
  tauto

def isParked : LockPc → Bool
  | .readParked _ | .writeParked _ => true
  | _ => false

theorem notifying_kept {i : Nat} {pc pc' : LockPc} (there : s.threads[i]? = some pc)
    (other : pc ≠ .notifying) (member : .notifying ∈ s.threads) :
    .notifying ∈ s.threads.set i pc' := by
  obtain ⟨j, inside, same⟩ := List.getElem_of_mem member
  have different : i ≠ j := by
    rintro rfl
    rw [List.getElem?_eq_getElem inside, same] at there
    exact other (Option.some.inj there).symm
  refine List.mem_of_getElem? (i := j) ?_
  rw [List.getElem?_set_ne different, List.getElem?_eq_getElem inside, same]

theorem Attended.move (h : s.Attended) {files : FileManager} {i : Nat} {pc pc' : LockPc}
    (there : s.threads[i]? = some pc) (other : pc ≠ .notifying) (awake : isParked pc' = false)
    (written : ∀ f ∈ s.files.wlockedFiles, f ∈ files.wlockedFiles)
    (read : .notifying ∈ s.threads ∨
      ∀ f, .writeParked f ∈ s.threads → f ∈ s.files.readNames → f ∈ files.readNames) :
    FileLocks.Attended { files, threads := s.threads.set i pc' } := by
  rcases h with pending | ⟨readers, writers⟩
  · exact .inl (notifying_kept there other pending)
  · rcases read with pending | read
    · exact .inl (notifying_kept there other pending)
    · refine .inr ⟨fun f member => ?_, fun f member => ?_⟩
      · exact written f (readers f (mem_of_set member rfl awake))
      · have old := mem_of_set member rfl awake
        exact read f old (writers f old)

theorem Attended.goto (h : s.Attended) {i : Nat} {pc pc' : LockPc} (there : s.threads[i]? = some pc)
    (other : pc ≠ .notifying) (awake : isParked pc' = false) : (s.goto i pc').Attended :=
  h.move there other awake (fun _ => id) (.inr fun _ _ => id)

theorem Attended.park (h : s.Attended) {i : Nat} {pc pc' : LockPc} (there : s.threads[i]? = some pc)
    (other : pc ≠ .notifying)
    (locked : (∀ f, pc' = .readParked f → f ∈ s.files.wlockedFiles) ∧
      (∀ f, pc' = .writeParked f → f ∈ s.files.readNames) ∨ .notifying ∈ s.threads) :
    (s.goto i pc').Attended := by
  rcases locked with ⟨reader, writer⟩ | pending
  · rcases h with pending | ⟨readers, writers⟩
    · exact .inl (notifying_kept there other pending)
    · refine .inr ⟨fun f member => ?_, fun f member => ?_⟩
      · rcases List.mem_or_eq_of_mem_set member with old | new
        · exact readers f old
        · exact reader f new.symm
      · rcases List.mem_or_eq_of_mem_set member with old | new
        · exact writers f old
        · exact writer f new.symm
  · exact .inl (notifying_kept there other pending)

theorem isParked_wake (pc : LockPc) : isParked pc.wake = false := by
  cases pc <;> rfl

theorem Attended.step (h : s.Attended) {e : Event} (rightly : s.WaitsRightly e)
    (ok : s.step e = .ok s') : s'.Attended := by
  cases step_move ok with
  | @call i call opened there => exact h.goto there (by simp) (by cases call <;> rfl)
  | @wake i pc there =>
      by_cases pending : pc = .notifying
      · subst pending
        obtain ⟨inside, -⟩ := List.getElem?_eq_some_iff.mp there
        exact .inl (List.mem_set inside _)
      · exact h.goto there pending (isParked_wake pc)
  | readBlocked there locked => exact h.goto there (by simp) rfl
  | readPassed there free unlocked => exact h.goto there (by simp) rfl
  | @readWait i disk f there =>
      refine h.park there (by simp) ((rightly _ there).imp_left fun locked => ⟨?_, by simp⟩)
      rintro g same
      exact LockPc.readParked.inj same ▸ locked
  | @readRegister i disk f there =>
      have same := s.files.register_writers f disk
      exact h.move there (by simp) rfl (fun g member => same ▸ member)
        (.inr fun g _ => FileManager.register_readers.1)
  | @readUnlock i disk f files there closed =>
      obtain ⟨same, -, others⟩ := FileManager.readUnlock_ok closed
      refine h.move there (by simp) rfl (fun g member => same ▸ member) ?_
      refine (rightly _ there).symm.imp_right fun nobody g waits member => others g member ?_
      rintro rfl
      exact nobody waits
  | writeBlocked there locked => exact h.goto there (by simp) rfl
  | writePassed there free unlocked => exact h.goto there (by simp) rfl
  | @writeWait i disk f there =>
      refine h.park there (by simp) ((rightly _ there).imp_left fun locked => ⟨by simp, ?_⟩)
      rintro g same
      exact LockPc.writeParked.inj same ▸ locked
  | writePush there =>
      exact h.move there (by simp) rfl (fun g member => List.mem_append_left _ member)
        (.inr fun _ _ => id)
  | @writeUnlock i disk f there =>
      obtain ⟨inside, -⟩ := List.getElem?_eq_some_iff.mp there
      exact .inl (List.mem_set inside _)
  | notLocked there => exact h.goto there (by simp) rfl
  | @notify i disk there =>
      -- everybody is awake now
      have woken (t : LockPc) (waits : isParked t = true) :
          t ∉ (s.threads.map LockPc.wake).set i (.outside false) := by
        intro member
        obtain ⟨pc, -, rfl⟩ := List.mem_map.mp (mem_of_set member waits rfl)
        simp [isParked_wake] at waits
      exact .inr ⟨fun f member => absurd member (woken _ rfl),
        fun f member => absurd member (woken _ rfl)⟩

theorem reach_waiting_not_stuck {threads : Nat} (h : Reach step WaitsRightly (start threads) s) :
    ¬s.Stuck := by
  have attended : (start threads).Attended := by
    refine .inr ⟨fun f member => ?_, fun f member => ?_⟩
    · exact absurd (List.eq_of_mem_replicate member) (by simp)
    · exact absurd (List.eq_of_mem_replicate member) (by simp)
  exact attended_iff.mp
    (h.invariant attended fun _ _ _ attended rightly ok => attended.step rightly ok)

theorem parked_reader_not_stuck : ∃ s : FileLocks, .readParked [97] ∈ s.threads ∧ ¬s.Stuck := by
  obtain ⟨s, run, parked⟩ := exists_reach_of_exec step WaitsRightly (start 2)
    [.call 0 (.writeLock [97]), .thread 0 none, .thread 0 none, .call 1 (.readLock [97]),
      .thread 1 none, .thread 1 none]
    (fun s => LockPc.readParked [97] ∈ s.threads) (by decide)
  exact ⟨s, of_decide_eq_true parked, reach_waiting_not_stuck run⟩

/-- The writer is done between the check of a reader and its wait. -/
theorem waiting_stuck : ¬∀ (threads : Nat) (s : FileLocks),
    Reach step Anything (start threads) s → ¬s.Stuck := by
  intro claim
  obtain ⟨s, run, lost⟩ := exists_reach_of_exec step Anything (start 2)
    [.call 0 (.writeLock [97]), .thread 0 none, .thread 0 none, .call 1 (.readLock [97]),
      .thread 1 none, .call 0 (.writeUnlock [97]), .thread 0 none, .thread 0 none, .thread 1 none]
    (fun s => .notifying ∉ s.threads ∧ .readParked [97] ∈ s.threads ∧ [97] ∉ s.files.wlockedFiles)
    (by decide)
  obtain ⟨quiet, parked, free⟩ := of_decide_eq_true lost
  exact claim 2 s run ⟨quiet, fun waited => free (waited.1 _ parked)⟩

end SimpleP2P.FileLocks
