import SimpleP2P.FileManager.Locks
import SimpleP2P.Library.Measure
import Mathlib.Tactic.Ring

namespace SimpleP2P
open Library

namespace LockPc

def stepsLeft : LockPc → Nat
  | .readCheck _ | .writeCheck _ => 3
  | .readWait _ | .writeWait _ | .writeUnlock _ => 2
  | .readRegister _ | .readUnlock _ | .writePush _ | .notifying => 1
  | .outside _ | .readParked _ | .writeParked _ => 0

def mayNotify : LockPc → Bool
  | .writeUnlock _ | .notifying => true
  | _ => false

theorem stepsLeft_le (pc : LockPc) : pc.stepsLeft ≤ 3 := by
  cases pc <;> simp [stepsLeft]

theorem mayNotify_wake (pc : LockPc) : pc.wake.mayNotify = pc.mayNotify := by
  cases pc <;> rfl

end LockPc

namespace FileLocks

variable {s s' : FileLocks}

def Own : Event → Prop
  | .thread _ _ => True
  | _ => False

def stepsLeft (s : FileLocks) : Nat :=
  Threads.weight LockPc.stepsLeft 3 LockPc.mayNotify s.threads

theorem stepsLeft_goto {files : FileManager} {i : Nat} {pc pc' : LockPc}
    (there : s.threads[i]? = some pc) (less : pc'.stepsLeft < pc.stepsLeft)
    (kept : pc'.mayNotify = true → pc.mayNotify = true) :
    ({ s with files }.goto i pc').stepsLeft < s.stepsLeft :=
  Threads.weight_own there less kept

theorem decreases : Decreases step Own (fun _ => True) stepsLeft := by
  intro s e s' _ own ok
  refine ⟨trivial, ?_⟩
  cases step_move ok with
  | call there => exact own.elim
  | wake there => exact own.elim
  | @notify i disk there =>
      have woken : (s.threads.map LockPc.wake)[i]? = some .notifying := by
        rw [List.getElem?_map, there]
        rfl
      have count := Threads.countP_step LockPc.mayNotify (.outside false) woken
      have same : (s.threads.map LockPc.wake).countP LockPc.mayNotify =
          s.threads.countP LockPc.mayNotify := by
        rw [List.countP_map]
        exact List.countP_congr fun pc _ => by rw [Function.comp, LockPc.mayNotify_wake]
      refine Threads.weight_spend LockPc.stepsLeft_le (by simp) ?_
      simp only [LockPc.mayNotify, Bool.false_eq_true, if_false, if_true] at count
      rw [← same]
      exact Nat.lt_of_succ_le (Nat.le_of_eq count)
  | readBlocked there _ | readPassed there _ _ | readWait there | readRegister there | readUnlock there _
    | writeBlocked there _ | writePassed there _ _ | writeWait there | writePush there
    | writeUnlock there | notLocked there =>
      exact stepsLeft_goto there (by simp [LockPc.stepsLeft]) (by simp [LockPc.mayNotify])

/-- A thread that can do nothing by itself, whatever the others do, or whose `read_unlock` steps over the
end of the vector. -/
def Rests (s : FileLocks) : LockPc → Prop
  | .outside _ | .readParked _ | .writeParked _ => True
  | .readUnlock f => s.files.readUnlock f = .error .outOfBounds
  | _ => False

theorem eraseFrom_error {fileName : FileName} {files : List OpenFile} {f : Fault}
    (failed : FileManager.eraseFrom fileName files = .error f) : f = .outOfBounds := by
  induction files using FileManager.eraseFrom.induct fileName with
  | case1 => simp [FileManager.eraseFrom] at failed
  | case2 file same => simpa [FileManager.eraseFrom, same, eq_comm] using failed
  | case3 file other => simp [FileManager.eraseFrom, other] at failed
  | case4 file next rest same ih =>
      rw [FileManager.eraseFrom, if_pos same] at failed
      exact ih (map_eq_error.mp failed)
  | case5 file next rest other ih =>
      rw [FileManager.eraseFrom, if_neg other] at failed
      exact ih (map_eq_error.mp failed)

theorem exists_advance (free : s.wlmutexHeld = false) {i : Nat} {pc : LockPc}
    (there : s.threads[i]? = some pc) : s.Rests pc ∨ ∃ s', s.step (.thread i none) = .ok s' := by
  cases pc with
  | outside opened | readParked f | writeParked f => exact .inl trivial
  | readUnlock f =>
      cases unlocked : s.files.readUnlock f with
      | error fault =>
          left
          rw [Rests, unlocked, eraseFrom_error (map_eq_error.mp unlocked)]
      | ok files =>
          right
          simp only [step, there, advance, unlocked]
          exact ⟨_, rfl⟩
  | readCheck f | writeCheck f =>
      right
      simp only [step, there, advance, free, Bool.false_eq_true, if_false]
      exact ⟨_, rfl⟩
  | writeUnlock f =>
      right
      simp only [step, there, advance, free, Bool.false_eq_true, if_false]
      split <;> exact ⟨_, rfl⟩
  | readWait f | readRegister f | writeWait f | writePush f | notifying =>
      right
      simp only [step, there, advance]
      exact ⟨_, rfl⟩

theorem quiet_iff : Quiet step Own s ↔ ∀ pc ∈ s.threads, s.Rests pc := by
  constructor
  · intro quiet
    have free : s.wlmutexHeld = false := by
      rw [wlmutexHeld, List.any_eq_false]
      intro pc member held
      obtain ⟨i, there⟩ := List.mem_iff_getElem?.mp member
      cases pc with
      | writePush f => exact quiet (.thread i none) _ trivial (by simp only [step, there, advance]; rfl)
      | _ => simp [LockPc.holdsWlmutex] at held
    intro pc member
    obtain ⟨i, there⟩ := List.mem_iff_getElem?.mp member
    rcases exists_advance free there with rests | ⟨s', ok⟩
    · exact rests
    · exact absurd ok (quiet _ _ trivial)
  · intro rests e s' own ok
    cases step_move ok with
    | call there | wake there => exact own.elim
    | readUnlock there unlocked =>
        have failed := rests _ (List.mem_of_getElem? there)
        simp [Rests, unlocked] at failed
    | readBlocked there _ | readPassed there _ _ | readWait there | readRegister there
      | writeBlocked there _ | writePassed there _ _ | writeWait there | writePush there
      | writeUnlock there | notLocked there | notify there =>
        exact rests _ (List.mem_of_getElem? there)

theorem calls_end {events : List Event} (own : ∀ e ∈ events, Own e)
    (run : events.foldlM step s = .ok s') :
    events.length ≤ 3 * s.threads.length ^ 2 + 4 * s.threads.length ∧
      ∃ (rest : List Event) (last : FileLocks), (∀ e ∈ rest, Own e) ∧
        rest.foldlM step s' = .ok last ∧ ∀ pc ∈ last.threads, last.Rests pc := by
  obtain ⟨bound, -⟩ := decreases.length_le trivial own run
  obtain ⟨rest, last, all, later, -, quiet⟩ := decreases.exists_quiet (s := s') trivial
  have square : s.threads.length * (s.threads.length * 3 + 1) + s.threads.length * 3 =
      3 * s.threads.length ^ 2 + 4 * s.threads.length := by ring
  refine ⟨?_, rest, last, all, later, quiet_iff.mp quiet⟩
  have most : s.stepsLeft ≤ _ := Threads.weight_le LockPc.stepsLeft_le s.threads
  omega

/-- A reader waits for the writer that came before it. -/
theorem reader_waits : ∃ (rest : List Event) (last : FileLocks), (∀ e ∈ rest, Own e) ∧
    rest.foldlM step ⟨{ wlockedFiles := [[97]] }, [.outside false, .readParked [97]]⟩ = .ok last ∧
      ∀ pc ∈ last.threads, last.Rests pc := by
  have run : [.thread 0 none, .thread 0 none, .thread 1 none, .thread 1 none].foldlM step
      (⟨{}, [.writeCheck [97], .readCheck [97]]⟩ : FileLocks) =
        .ok ⟨{ wlockedFiles := [[97]] }, [.outside false, .readParked [97]]⟩ := by
    decide
  exact (calls_end (by simp [Own]) run).2

end FileLocks

end SimpleP2P
