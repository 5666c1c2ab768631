import SimpleP2P.GeneralTypes
import SimpleP2P.Library.Transition
import SimpleP2P.Library.Threads

/-!
# The locks of the file manager

Files opened for reading and files being written are kept in two vectors with a mutex each. A step
of a thread is one critical section, one of the waits on the condition variable, or `notify_all`.
The mutex of the readers is never held between two steps; that of the writers is held by a writer
between its search of the readers and its entry in the vector of the writers.
-/

namespace SimpleP2P
open Library

structure IfStream where
  content : Bytes
  position : Nat := 0
  eofbit : Bool := false
  failbit : Bool := false
  deriving DecidableEq, Repr

structure OpenFile where
  fileName : FileName
  stream : IfStream
  deriving DecidableEq, Repr

structure FileManager where
  rlockedFiles : List OpenFile := []
  wlockedFiles : List FileName := []
  deriving DecidableEq, Repr

namespace FileManager

def readNames (m : FileManager) : List FileName := m.rlockedFiles.map (·.fileName)

/-- The second half of `read_lock`. The argument is the content of the file where it can be opened. -/
def register (m : FileManager) (fileName : FileName) (disk : Option Bytes) : Bool × FileManager :=
  if fileName ∈ m.readNames then (true, m)
  else
    match disk with
    | none => (false, m)
    | some content =>
        (true, { m with rlockedFiles := m.rlockedFiles ++ [{ fileName, stream := { content } }] })

/-- The loop of `read_unlock` from an iterator on. An erased element leaves the iterator on the next
one, over which it steps, or at the end, past which it steps. -/
def eraseFrom (fileName : FileName) : List OpenFile → Except Fault (List OpenFile)
  | [] => .ok []
  | [f] => if fileName = f.fileName then .error .outOfBounds else .ok [f]
  | f :: next :: rest =>
      if fileName = f.fileName then (eraseFrom fileName rest).map (next :: ·)
      else (eraseFrom fileName (next :: rest)).map (f :: ·)

def readUnlock (m : FileManager) (fileName : FileName) : Except Fault FileManager :=
  (eraseFrom fileName m.rlockedFiles).map fun files => { m with rlockedFiles := files }

end FileManager

inductive LockPc
  /-- In none of them; `opened` is the result of the call where that was `read_lock`. -/
  | outside (opened : Bool)
  | readCheck (fileName : FileName)
  | readWait (fileName : FileName)
  | readParked (fileName : FileName)
  | readRegister (fileName : FileName)
  | readUnlock (fileName : FileName)
  | writeCheck (fileName : FileName)
  | writeWait (fileName : FileName)
  | writeParked (fileName : FileName)
  | writePush (fileName : FileName)
  | writeUnlock (fileName : FileName)
  | notifying
  deriving DecidableEq, Repr

inductive LockCall
  | readLock (fileName : FileName)
  | readUnlock (fileName : FileName)
  | writeLock (fileName : FileName)
  | writeUnlock (fileName : FileName)
  deriving DecidableEq, Repr

def LockCall.entry : LockCall → LockPc
  | .readLock f => .readCheck f
  | .readUnlock f => .readUnlock f
  | .writeLock f => .writeCheck f
  | .writeUnlock f => .writeUnlock f

namespace LockPc

def wake : LockPc → LockPc
  | .readParked f => .readCheck f
  | .writeParked f => .writeCheck f
  | pc => pc

def holdsWlmutex : LockPc → Bool
  | .writePush _ => true
  | _ => false

def inWriteLock : LockPc → Bool
  | .writeCheck _ | .writeWait _ | .writeParked _ | .writePush _ => true
  | _ => false

end LockPc

structure FileLocks where
  files : FileManager := {}
  threads : List LockPc
  deriving DecidableEq, Repr

namespace FileLocks

def start (threads : Nat) : FileLocks where
  threads := List.replicate threads (.outside false)

def goto (s : FileLocks) (i : Nat) (pc : LockPc) : FileLocks :=
  { s with threads := s.threads.set i pc }

def wlmutexHeld (s : FileLocks) : Bool := s.threads.any (·.holdsWlmutex)

/-- A step of thread `i`; `disk` is the content of the file it may open. -/
def advance (s : FileLocks) (i : Nat) (disk : Option Bytes) : LockPc → Except Halt FileLocks
  | .readCheck f =>
      if s.wlmutexHeld then .error .blocked
      else .ok (s.goto i (if f ∈ s.files.wlockedFiles then .readWait f else .readRegister f))
  | .readWait f => .ok (s.goto i (.readParked f))
  | .readRegister f =>
      let (opened, files) := s.files.register f disk
      .ok ({ s with files }.goto i (.outside opened))
  | .readUnlock f => do
      let files ← (s.files.readUnlock f).mapError .fault
      return { s with files }.goto i (.outside false)
  | .writeCheck f =>
      if s.wlmutexHeld then .error .blocked
      else .ok (s.goto i (if f ∈ s.files.readNames then .writeWait f else .writePush f))
  | .writeWait f => .ok (s.goto i (.writeParked f))
  | .writePush f =>
      .ok ({ s with files := { s.files with wlockedFiles := s.files.wlockedFiles ++ [f] } }.goto i
        (.outside false))
  | .writeUnlock f =>
      if s.wlmutexHeld then .error .blocked
      else if f ∈ s.files.wlockedFiles then
        .ok ({ s with files := { s.files with wlockedFiles := s.files.wlockedFiles.erase f } }.goto i
          .notifying)
      else .ok (s.goto i (.outside false))
  | .notifying => .ok ({ s with threads := s.threads.map LockPc.wake }.goto i (.outside false))
  | .outside _ | .readParked _ | .writeParked _ => .error .blocked

inductive Event
  | call (i : Nat) (call : LockCall)
  | thread (i : Nat) (disk : Option Bytes)
  | wake (i : Nat)
  deriving DecidableEq, Repr

def step (s : FileLocks) : Event → Except Halt FileLocks
  | .call i call =>
      match s.threads[i]? with
      | some (.outside _) => .ok (s.goto i call.entry)
      | _ => .error .blocked
  | .thread i disk =>
      match s.threads[i]? with
      | some pc => s.advance i disk pc
      | none => .error .blocked
  | .wake i =>
      match s.threads[i]? with
      | some pc => .ok (s.goto i pc.wake)
      | none => .error .blocked

variable {s s' : FileLocks}

inductive Move (s : FileLocks) : Event → FileLocks → Prop
  | call {i : Nat} {call : LockCall} {opened : Bool} : s.threads[i]? = some (.outside opened) →
      Move s (.call i call) (s.goto i call.entry)
  | wake {i : Nat} {pc : LockPc} : s.threads[i]? = some pc → Move s (.wake i) (s.goto i pc.wake)
  | readBlocked {i : Nat} {disk : Option Bytes} {f : FileName} :
      s.threads[i]? = some (.readCheck f) → f ∈ s.files.wlockedFiles →
      Move s (.thread i disk) (s.goto i (.readWait f))
  | readPassed {i : Nat} {disk : Option Bytes} {f : FileName} :
      s.threads[i]? = some (.readCheck f) → s.wlmutexHeld = false → f ∉ s.files.wlockedFiles →
      Move s (.thread i disk) (s.goto i (.readRegister f))
  | readWait {i : Nat} {disk : Option Bytes} {f : FileName} : s.threads[i]? = some (.readWait f) →
      Move s (.thread i disk) (s.goto i (.readParked f))
  | readRegister {i : Nat} {disk : Option Bytes} {f : FileName} :
      s.threads[i]? = some (.readRegister f) → Move s (.thread i disk)
        ({ s with files := (s.files.register f disk).2 }.goto i
          (.outside (s.files.register f disk).1))
  | readUnlock {i : Nat} {disk : Option Bytes} {f : FileName} {files : FileManager} :
      s.threads[i]? = some (.readUnlock f) → s.files.readUnlock f = .ok files →
      Move s (.thread i disk) ({ s with files }.goto i (.outside false))
  | writeBlocked {i : Nat} {disk : Option Bytes} {f : FileName} :
      s.threads[i]? = some (.writeCheck f) → f ∈ s.files.readNames →
      Move s (.thread i disk) (s.goto i (.writeWait f))
  | writePassed {i : Nat} {disk : Option Bytes} {f : FileName} :
      s.threads[i]? = some (.writeCheck f) → s.wlmutexHeld = false → f ∉ s.files.readNames →
      Move s (.thread i disk) (s.goto i (.writePush f))
  | writeWait {i : Nat} {disk : Option Bytes} {f : FileName} : s.threads[i]? = some (.writeWait f) →
      Move s (.thread i disk) (s.goto i (.writeParked f))
  | writePush {i : Nat} {disk : Option Bytes} {f : FileName} :
      s.threads[i]? = some (.writePush f) → Move s (.thread i disk)
        ({ s with files := { s.files with wlockedFiles := s.files.wlockedFiles ++ [f] } }.goto i
          (.outside false))
  | writeUnlock {i : Nat} {disk : Option Bytes} {f : FileName} :
      s.threads[i]? = some (.writeUnlock f) → Move s (.thread i disk)
        ({ s with files := { s.files with wlockedFiles := s.files.wlockedFiles.erase f } }.goto i
          .notifying)
  | notLocked {i : Nat} {disk : Option Bytes} {f : FileName} :
      s.threads[i]? = some (.writeUnlock f) → Move s (.thread i disk) (s.goto i (.outside false))
  | notify {i : Nat} {disk : Option Bytes} : s.threads[i]? = some .notifying →
      Move s (.thread i disk)
        ({ s with threads := s.threads.map LockPc.wake }.goto i (.outside false))

theorem advance_move {i : Nat} {disk : Option Bytes} {pc : LockPc} (there : s.threads[i]? = some pc)
    (h : s.advance i disk pc = .ok s') : Move s (.thread i disk) s' := by
  cases pc with
  | readCheck f =>
      simp only [advance] at h
      split at h
      · contradiction
      · rename_i free
        obtain rfl := Except.ok.inj h
        split
        · rename_i locked
          exact .readBlocked there locked
        · rename_i unlocked
          exact .readPassed there (by simpa using free) unlocked
  | readWait f => exact Except.ok.inj h ▸ .readWait there
  | readRegister f => exact Except.ok.inj h ▸ .readRegister there
  | readUnlock f =>
      obtain ⟨files, unlocked, eq⟩ := bind_eq_ok.mp h
      exact Except.ok.inj eq ▸ .readUnlock there (mapError_ok.mp unlocked)
  | writeCheck f =>
      simp only [advance] at h
      split at h
      · contradiction
      · rename_i free
        obtain rfl := Except.ok.inj h
        split
        · rename_i locked
          exact .writeBlocked there locked
        · rename_i unlocked
          exact .writePassed there (by simpa using free) unlocked
  | writeWait f => exact Except.ok.inj h ▸ .writeWait there
  | writePush f => exact Except.ok.inj h ▸ .writePush there
  | writeUnlock f =>
      simp only [advance] at h
      split at h
      · contradiction
      · split at h
        · exact Except.ok.inj h ▸ .writeUnlock there
        · exact Except.ok.inj h ▸ .notLocked there
  | notifying => exact Except.ok.inj h ▸ .notify there
  | outside opened | readParked f | writeParked f => contradiction

theorem thread_pc {i : Nat} {disk : Option Bytes} (h : s.step (.thread i disk) = .ok s') :
    ∃ pc, s.threads[i]? = some pc ∧ s.advance i disk pc = .ok s' := by
  simp only [step] at h
  split at h
  · exact ⟨_, ‹_›, h⟩
  · contradiction

theorem step_move {e : Event} (h : s.step e = .ok s') : Move s e s' := by
  cases e with
  | call i call =>
      simp only [step] at h
      split at h
      · rename_i opened there
        exact Except.ok.inj h ▸ .call there
      · contradiction
  | thread i disk =>
      obtain ⟨pc, there, advanced⟩ := thread_pc h
      exact advance_move there advanced
  | wake i =>
      cases there : s.threads[i]? with
      | none => simp [step, there] at h
      | some pc =>
          simp only [step, there] at h
          exact Except.ok.inj h ▸ .wake there

@[simp] theorem goto_threads (s : FileLocks) (i : Nat) (pc : LockPc) :
    (s.goto i pc).threads = s.threads.set i pc := rfl

end FileLocks

end SimpleP2P
