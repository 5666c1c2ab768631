import SimpleP2P.FileManager.Releases
import SimpleP2P.Transfer.RequestServer

/-!
# The server and the downloads of a node

They share the file manager. The handlers of the server run on one thread, which waits in `read_lock`
while a download stores the file, and each download stores its file on a thread of its own.
-/

namespace SimpleP2P
open Library

/-- Where the thread of the server is in `handle_read` of worker `i`, which `w` is to become. -/
inductive HandlerPc
  | idle
  | serving (i : Nat) (w : RequestWorker) (request : SegmentRequest)
  | quitting (i : Nat) (w : RequestWorker) (fileName : FileName)
  deriving DecidableEq

inductive UserPc
  | server (pc : HandlerPc)
  | store (pc : StorePc)
  deriving DecidableEq

/-- Thread 0 is that of the server, and each other stores one file after the other. `lost` is history:
the files that could not be opened for writing. -/
structure FileServer where
  locks : FileLocks
  users : List UserPc
  workers : List RequestWorker := []
  lost : List FileName := []
  deriving DecidableEq

namespace FileServer

def serverThread : Nat := 0

def start (stores : Nat) : FileServer where
  locks := .start (stores + 1)
  users := .server .idle :: List.replicate stores (.store .idle)

inductive Event
  | accept (recvData : RecvData) (sendData : Buffer segmentSize)
  | read (i : Nat) (received : Bytes)
  | readError (i : Nat)
  | written (i : Nat) (ok : Bool)
  /-- `handle_read` goes on after `read_lock` or `read_unlock`. -/
  | resume
  | store (t : Nat) (fileName : FileName)
  | advance (t : Nat) (io : Bool)
  | thread (t : Nat) (disk : Option Bytes)
  | wake (t : Nat)
  deriving DecidableEq

def call (s : FileServer) (t : Nat) (call : LockCall) (user : UserPc) : Except Halt FileServer := do
  return { s with locks := ← s.locks.step (.call t call), users := s.users.set t user }

def returned (s : FileServer) (t : Nat) : Option Bool :=
  match s.locks.threads[t]? with
  | some (.outside opened) => some opened
  | _ => none

def handle (s : FileServer) (e : RequestServer.Event) : Except Halt FileServer :=
  if s.users[serverThread]? = some (.server .idle) then do
    let server ← RequestServer.step { files := s.locks.files, workers := s.workers } e
    return { s with workers := server.workers }
  else .error .blocked

def read (s : FileServer) (i : Nat) (received : Bytes) : Except Halt FileServer :=
  match s.users[serverThread]?, s.workers[i]? with
  | some (.server .idle), some w =>
      if w.pending = .reading ∧ received ≠ [] then
        if fits : received.length ≤ maxRecvDataLength then
          let w := { w with recvData := w.recvData.receive received fits }
          match handleRead w.recvData with
          | .answer request =>
              s.call serverThread (.readLock request.fileName) (.server (.serving i w request))
          | .quit fileName =>
              s.call serverThread (.readUnlock fileName) (.server (.quitting i w fileName))
          | .nothing => .ok { s with workers := s.workers.set i { w with pending := .nothing } }
        else .error .blocked
      else .error .blocked
  | _, _ => .error .blocked

/-- `get_segment` is called whatever `read_lock` has returned. -/
def resume (s : FileServer) : Except Halt FileServer :=
  match s.users[serverThread]?, s.returned serverThread with
  | some (.server (.serving i w request)), some opened => do
      let held := if opened then w.held.insert request.fileName else w.held
      let (ok, files, sendData) ← (s.locks.files.getSegment request.fileName request.segment w.sendData
        (requestedSegmentSize request.fileSize request.segment).toNat).mapError .fault
      let w := { w with sendData, held, pending := if ok then .writing else .deleted }
      return { s with
        locks := { s.locks with files }
        users := s.users.set serverThread (.server .idle)
        workers := s.workers.set i w }
  | some (.server (.quitting i w fileName)), some _ =>
      let w := { w with held := w.held.filter (· ≠ fileName), pending := .deleted }
      .ok { s with
        users := s.users.set serverThread (.server .idle)
        workers := s.workers.set i w }
  | _, _ => .error .blocked

def await (s : FileServer) (t : Nat) (pc : StorePc) : Except Halt FileServer :=
  match s.returned t with
  | some _ => .ok { s with users := s.users.set t (.store pc) }
  | none => .error .blocked

/-- A step of `store_resource`; `io` is whether its file operation succeeds. -/
def advance (s : FileServer) (t : Nat) (io : Bool) : StorePc → Except Halt FileServer
  | .lockWait f => s.await t (.opening f)
  | .opening f =>
      if io then .ok { s with users := s.users.set t (.store (.writing f)) }
      else .ok { s with users := s.users.set t (.store .idle), lost := s.lost ++ [f] }
  | .writing f => .ok { s with users := s.users.set t (.store (.unlocking f)) }
  | .unlocking f => s.call t (.writeUnlock f) (.store (.unlockWait f))
  | .unlockWait _ => s.await t .idle
  | .idle => .error .blocked

def step (s : FileServer) : Event → Except Halt FileServer
  | .accept recvData sendData => s.handle (.accept recvData sendData)
  | .read i received => s.read i received
  | .readError i => s.handle (.readError i)
  | .written i ok => s.handle (.written i ok)
  | .resume => s.resume
  | .store t f =>
      match s.users[t]? with
      | some (.store .idle) => s.call t (.writeLock f) (.store (.lockWait f))
      | _ => .error .blocked
  | .advance t io =>
      match s.users[t]? with
      | some (.store pc) => s.advance t io pc
      | _ => .error .blocked
  | .thread t disk => do return { s with locks := ← s.locks.step (.thread t disk) }
  | .wake t => do return { s with locks := ← s.locks.step (.wake t) }

def threads (s : FileServer) : List (UserPc × LockPc) := s.users.zip s.locks.threads

/-! ## What a step does -/

def Event.session? : Event → Option RequestServer.Event
  | .accept recvData sendData => some (.accept recvData sendData)
  | .readError i => some (.readError i)
  | .written i ok => some (.written i ok)
  | .read _ _ | .resume | .store _ _ | .advance _ _ | .thread _ _ | .wake _ => none

def Receives (workers : List RequestWorker) (i : Nat) (received : Bytes) (w : RequestWorker) : Prop :=
  ∃ v, ∃ fits : received.length ≤ maxRecvDataLength, workers[i]? = some v ∧ v.pending = .reading ∧
    received ≠ [] ∧ w = { v with recvData := v.recvData.receive received fits }

inductive Passes : StorePc → LockPc → StorePc → Prop
  | opening {f : FileName} {b : Bool} : Passes (.lockWait f) (.outside b) (.opening f)
  | writing {f : FileName} {l : LockPc} : Passes (.opening f) l (.writing f)
  | unlocking {f : FileName} {l : LockPc} : Passes (.writing f) l (.unlocking f)
  | idle {f : FileName} {b : Bool} : Passes (.unlockWait f) (.outside b) .idle

inductive Move (s : FileServer) : Event → FileServer → Prop
  | session {e : Event} {e' : RequestServer.Event} {r : RequestServer} : e.session? = some e' →
      s.users[serverThread]? = some (.server .idle) →
      RequestServer.step { files := s.locks.files, workers := s.workers } e' = .ok r →
      Move s e { s with workers := r.workers }
  | serve {i : Nat} {received : Bytes} {w : RequestWorker} {request : SegmentRequest} {b : Bool} :
      s.threads[serverThread]? = some (.server .idle, .outside b) → Receives s.workers i received w →
      handleRead w.recvData = .answer request → Move s (.read i received) { s with
        locks := s.locks.goto serverThread (.readCheck request.fileName)
        users := s.users.set serverThread (.server (.serving i w request)) }
  | quit {i : Nat} {received : Bytes} {w : RequestWorker} {f : FileName} {b : Bool} :
      s.threads[serverThread]? = some (.server .idle, .outside b) → Receives s.workers i received w →
      handleRead w.recvData = .quit f → Move s (.read i received) { s with
        locks := s.locks.goto serverThread (.readUnlock f)
        users := s.users.set serverThread (.server (.quitting i w f)) }
  | ignore {i : Nat} {received : Bytes} {w : RequestWorker} :
      s.users[serverThread]? = some (.server .idle) → Receives s.workers i received w →
      handleRead w.recvData = .nothing →
      Move s (.read i received) { s with workers := s.workers.set i { w with pending := .nothing } }
  | served {i : Nat} {w : RequestWorker} {request : SegmentRequest} {opened ok : Bool}
      {files : FileManager} {sendData : Buffer segmentSize} :
      s.threads[serverThread]? = some (.server (.serving i w request), .outside opened) →
      s.locks.files.getSegment request.fileName request.segment w.sendData
        (requestedSegmentSize request.fileSize request.segment).toNat = .ok (ok, files, sendData) →
      Move s .resume { s with
        locks := { s.locks with files }
        users := s.users.set serverThread (.server .idle)
        workers := s.workers.set i { w with
          sendData
          held := if opened then w.held.insert request.fileName else w.held
          pending := if ok then .writing else .deleted } }
  | left {i : Nat} {w : RequestWorker} {f : FileName} {b : Bool} :
      s.threads[serverThread]? = some (.server (.quitting i w f), .outside b) →
      Move s .resume { s with
        users := s.users.set serverThread (.server .idle)
        workers := s.workers.set i { w with held := w.held.filter (· ≠ f), pending := .deleted } }
  | store {t : Nat} {f : FileName} {b : Bool} : s.threads[t]? = some (.store .idle, .outside b) →
      Move s (.store t f) { s with
        locks := s.locks.goto t (.writeCheck f)
        users := s.users.set t (.store (.lockWait f)) }
  | pass {t : Nat} {io : Bool} {pc pc' : StorePc} {l : LockPc} : s.threads[t]? = some (.store pc, l) →
      Passes pc l pc' → Move s (.advance t io) { s with users := s.users.set t (.store pc') }
  | fail {t : Nat} {f : FileName} {l : LockPc} : s.threads[t]? = some (.store (.opening f), l) →
      Move s (.advance t false) { s with users := s.users.set t (.store .idle), lost := s.lost ++ [f] }
  | unlock {t : Nat} {io : Bool} {f : FileName} {b : Bool} :
      s.threads[t]? = some (.store (.unlocking f), .outside b) → Move s (.advance t io) { s with
        locks := s.locks.goto t (.writeUnlock f)
        users := s.users.set t (.store (.unlockWait f)) }
  | thread {t : Nat} {disk : Option Bytes} {locks : FileLocks} :
      s.locks.step (.thread t disk) = .ok locks → Move s (.thread t disk) { s with locks }
  | wake {t : Nat} {locks : FileLocks} : s.locks.step (.wake t) = .ok locks →
      Move s (.wake t) { s with locks }

variable {s s' : FileServer} {t : Nat}

theorem mem_threads {user : UserPc} {l : LockPc} : s.threads[t]? = some (user, l) ↔
    s.users[t]? = some user ∧ s.locks.threads[t]? = some l := List.getElem?_zip_eq_some

theorem exists_lock (paired : s.users.length = s.locks.threads.length) {user : UserPc}
    (there : s.users[t]? = some user) : ∃ l, s.threads[t]? = some (user, l) := by
  obtain ⟨inside, -⟩ := List.getElem?_eq_some_iff.mp there
  exact ⟨_, mem_threads.mpr ⟨there, List.getElem?_eq_getElem (paired ▸ inside)⟩⟩

theorem exists_user (paired : s.users.length = s.locks.threads.length) {l : LockPc}
    (there : s.locks.threads[t]? = some l) : ∃ user, s.threads[t]? = some (user, l) := by
  obtain ⟨inside, -⟩ := List.getElem?_eq_some_iff.mp there
  exact ⟨_, mem_threads.mpr ⟨List.getElem?_eq_getElem (paired ▸ inside), there⟩⟩

theorem returned_eq {b : Bool} : s.returned t = some b ↔ s.locks.threads[t]? = some (.outside b) := by
  unfold returned
  cases there : s.locks.threads[t]? with
  | none => simp
  | some l => cases l <;> simp

theorem call_ok {call : LockCall} {user : UserPc} (h : s.call t call user = .ok s') :
    ∃ b, s.locks.threads[t]? = some (.outside b) ∧
      s' = { s with locks := s.locks.goto t call.entry, users := s.users.set t user } := by
  obtain ⟨locks, called, eq⟩ := bind_eq_ok.mp h
  cases FileLocks.step_move called with
  | call there => exact ⟨_, there, (Except.ok.inj eq).symm⟩

theorem await_ok {pc : StorePc} (h : s.await t pc = .ok s') :
    ∃ b, s.locks.threads[t]? = some (.outside b) ∧
      s' = { s with users := s.users.set t (.store pc) } := by
  unfold await at h
  split at h
  · rename_i b back
    exact ⟨b, returned_eq.mp back, (Except.ok.inj h).symm⟩
  · contradiction

theorem handle_move {e : Event} {e' : RequestServer.Event} (session : e.session? = some e')
    (ok : s.handle e' = .ok s') : Move s e s' := by
  unfold handle at ok
  split at ok
  · rename_i idle
    obtain ⟨r, handled, eq⟩ := bind_eq_ok.mp ok
    exact Except.ok.inj eq ▸ .session session idle handled
  · contradiction

theorem read_move {i : Nat} {received : Bytes} (ok : s.read i received = .ok s') :
    Move s (.read i received) s' := by
  simp only [read] at ok
  split at ok
  · rename_i v idle there
    split at ok
    · rename_i ready
      split at ok
      · rename_i fits
        have receives : Receives s.workers i received _ := ⟨v, fits, there, ready.1, ready.2, rfl⟩
        split at ok
        · rename_i request asked
          obtain ⟨b, outside, rfl⟩ := call_ok ok
          exact .serve (mem_threads.mpr ⟨idle, outside⟩) receives asked
        · rename_i f asked
          obtain ⟨b, outside, rfl⟩ := call_ok ok
          exact .quit (mem_threads.mpr ⟨idle, outside⟩) receives asked
        · rename_i asked
          exact Except.ok.inj ok ▸ .ignore idle receives asked
      · contradiction
    · contradiction
  · contradiction

theorem resume_move (ok : s.resume = .ok s') : Move s .resume s' := by
  unfold resume at ok
  split at ok
  · rename_i i w request opened serving back
    obtain ⟨⟨done, files, sendData⟩, read, eq⟩ := bind_eq_ok.mp ok
    obtain rfl := Except.ok.inj eq
    exact .served (mem_threads.mpr ⟨serving, returned_eq.mp back⟩) (mapError_ok.mp read)
  · rename_i i w f b quitting back
    exact Except.ok.inj ok ▸ .left (mem_threads.mpr ⟨quitting, returned_eq.mp back⟩)
  · contradiction

theorem advance_move (paired : s.users.length = s.locks.threads.length) {pc : StorePc} {io : Bool}
    (there : s.users[t]? = some (.store pc)) (ok : s.advance t io pc = .ok s') :
    Move s (.advance t io) s' := by
  obtain ⟨l, here⟩ := exists_lock paired there
  cases pc with
  | idle => contradiction
  | lockWait f =>
      obtain ⟨b, outside, rfl⟩ := await_ok ok
      exact .pass (mem_threads.mpr ⟨there, outside⟩) .opening
  | opening f =>
      cases io with
      | true => exact Except.ok.inj ok ▸ .pass here .writing
      | false => exact Except.ok.inj ok ▸ .fail here
  | writing f => exact Except.ok.inj ok ▸ .pass here .unlocking
  | unlocking f =>
      obtain ⟨b, outside, rfl⟩ := call_ok ok
      exact .unlock (mem_threads.mpr ⟨there, outside⟩)
  | unlockWait f =>
      obtain ⟨b, outside, rfl⟩ := await_ok ok
      exact .pass (mem_threads.mpr ⟨there, outside⟩) .idle

theorem step_move (paired : s.users.length = s.locks.threads.length) {e : Event}
    (ok : s.step e = .ok s') : Move s e s' := by
  cases e with
  | accept recvData sendData => exact handle_move rfl ok
  | read i received => exact read_move ok
  | readError i => exact handle_move rfl ok
  | written i done => exact handle_move rfl ok
  | resume => exact resume_move ok
  | store t f =>
      simp only [step] at ok
      split at ok
      · rename_i there
        obtain ⟨b, outside, rfl⟩ := call_ok ok
        exact .store (mem_threads.mpr ⟨there, outside⟩)
      · contradiction
  | advance t io =>
      simp only [step] at ok
      split at ok
      · rename_i pc there
        exact advance_move paired there ok
      · contradiction
  | thread t disk =>
      obtain ⟨locks, moved, eq⟩ := bind_eq_ok.mp ok
      exact Except.ok.inj eq ▸ .thread moved
  | wake t =>
      obtain ⟨locks, moved, eq⟩ := bind_eq_ok.mp ok
      exact Except.ok.inj eq ▸ .wake moved

/-! ## Who holds which lock -/

def held? : UserPc × LockPc → Option FileName
  | (.store (.lockWait f), .outside _) | (.store (.opening f), _) | (.store (.writing f), _)
  | (.store (.unlocking f), _) | (.store (.unlockWait f), .writeUnlock _) => some f
  | _ => none

def holds (f : FileName) (x : UserPc × LockPc) : Bool := held? x = some f

variable {pc pc' : StorePc} {k : LockPc} {held : List FileName} {waited : Option FileName}

theorem phase_held (phase : FileStores.Phase pc k held waited) :
    held = (held? (.store pc, k)).toList := by
  cases phase <;> rfl

theorem phase_count (phase : FileStores.Phase pc k held waited) (f : FileName) :
    held.count f = if holds f (.store pc, k) then 1 else 0 := by
  rw [phase_held phase, holds]
  cases held? (.store pc, k) with
  | none => simp
  | some g => by_cases same : g = f <;> simp [same]

theorem held?_wake (user : UserPc) (k : LockPc) : held? (user, k.wake) = held? (user, k) := by
  cases k with
  | readParked f | writeParked f =>
      cases user with
      | server pc => rfl
      | store pc => cases pc <;> rfl
  | _ => rfl

theorem holds_wake (f : FileName) (user : UserPc) (k : LockPc) :
    holds f (user, k.wake) = holds f (user, k) := by
  rw [holds, holds, held?_wake]

theorem countP_woken {p : UserPc × LockPc → Bool}
    (same : ∀ user k, p (user, LockPc.wake k) = p (user, k)) (threads : List (UserPc × LockPc)) :
    (threads.map (Prod.map id LockPc.wake)).countP p = threads.countP p := by
  rw [List.countP_map]
  refine List.countP_congr fun x _ => ?_
  obtain ⟨user, k⟩ := x
  simp only [Function.comp, Prod.map, id, same]

variable {l l' : FileLocks} {disk : Option Bytes}

theorem storing_step (there : l.threads[t]? = some k) (phase : FileStores.Phase pc k held waited)
    (kept : ∀ f ∈ held, f ∈ l.files.wlockedFiles) (ok : l.step (.thread t disk) = .ok l') :
    ∃ k' held' waited', FileStores.Phase pc k' held' waited' ∧
      l'.files.rlockedFiles = l.files.rlockedFiles ∧
      (l'.threads = l.threads.set t k' ∨ l'.threads = (l.threads.map LockPc.wake).set t k') ∧
      ∀ f, l'.files.wlockedFiles.count f + held.count f =
        l.files.wlockedFiles.count f + held'.count f := by
  simp only [FileLocks.step, there] at ok
  cases phase with
  | idle | parked | locked | opening | writing | unlocking | unlocked => contradiction
  | checking =>
      simp only [FileLocks.advance] at ok
      split at ok
      · contradiction
      · obtain rfl := Except.ok.inj ok
        split
        · exact ⟨_, _, _, .waiting, rfl, .inl rfl, fun _ => rfl⟩
        · exact ⟨_, _, _, .pushing, rfl, .inl rfl, fun _ => rfl⟩
  | waiting =>
      obtain rfl := Except.ok.inj ok
      exact ⟨_, _, _, .parked, rfl, .inl rfl, fun _ => rfl⟩
  | @pushing f =>
      obtain rfl := Except.ok.inj ok
      exact ⟨_, _, _, .locked, rfl, .inl rfl, fun g => by simp [FileLocks.goto, List.count_append]⟩
  | @erasing f =>
      have member := kept f (List.mem_singleton_self f)
      simp only [FileLocks.advance, member, if_true] at ok
      split at ok
      · contradiction
      · obtain rfl := Except.ok.inj ok
        refine ⟨_, _, _, .notifying (f := f), rfl, .inl rfl, fun g => ?_⟩
        have positive := List.count_pos_iff.mpr member
        simp only [FileLocks.goto, List.count_erase, List.count_singleton, List.count_nil]
        by_cases same : f = g
        · subst same
          simp only [beq_self_eq_true, if_true]
          omega
        · simp [same]
  | @notifying f =>
      obtain rfl := Except.ok.inj ok
      exact ⟨_, _, _, .unlocked, rfl, .inr rfl, fun _ => rfl⟩

end FileServer

end SimpleP2P
