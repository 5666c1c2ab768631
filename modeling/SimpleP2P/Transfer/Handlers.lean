import SimpleP2P.Transfer.FileServer

namespace SimpleP2P
open Library

namespace FileManager

/-- What the sessions see of the file manager. -/
def readSide (m : FileManager) : FileManager := { m with wlockedFiles := [] }

theorem register_readSide (m : FileManager) (fileName : FileName) (disk : Option Bytes) :
    m.readSide.register fileName disk =
      ((m.register fileName disk).1, (m.register fileName disk).2.readSide) := by
  by_cases known : fileName ∈ m.readNames
  · have same : fileName ∈ m.readSide.readNames := known
    simp only [register, if_pos same, if_pos known]
  · have same : fileName ∉ m.readSide.readNames := known
    simp only [register, if_neg same, if_neg known]
    cases disk <;> rfl

theorem readUnlock_readSide (m : FileManager) (fileName : FileName) :
    m.readSide.readUnlock fileName = (m.readUnlock fileName).map readSide := by
  simp only [readUnlock, readSide]
  cases eraseFrom fileName m.rlockedFiles <;> rfl

theorem getSegment_readSide (m : FileManager) (fileName : FileName) (segment : SegmentId)
    (result : Buffer segmentSize) (requested : Nat) :
    m.readSide.getSegment fileName segment result requested =
      (m.getSegment fileName segment result requested).map fun (ok, m, result) =>
        (ok, m.readSide, result) := by
  simp only [getSegment, readSide]
  split
  · rename_i fits
    cases getSegmentFrom fileName segment result requested fits m.rlockedFiles <;> rfl
  · rfl

theorem getSegment_writers {m m' : FileManager} {fileName : FileName} {segment : SegmentId}
    {result result' : Buffer segmentSize} {requested : Nat} {ok : Bool}
    (h : m.getSegment fileName segment result requested = .ok (ok, m', result')) :
    m'.wlockedFiles = m.wlockedFiles := by
  rcases getSegment_ok h with ⟨rfl, -⟩ | ⟨fits, before, f, after, stream', -, -, -, -, rfl⟩ <;> rfl

end FileManager

namespace FileServer

variable {s s' : FileServer} {t : Nat} {pc pc' : StorePc} {k : LockPc} {held : List FileName}
  {waited : Option FileName} {l l' : FileLocks} {disk : Option Bytes}

/-! ## The sessions -/

def sessions (s : FileServer) : RequestServer where
  files := s.locks.files.readSide
  workers := s.workers

inductive Waiting (f : FileName) : LockPc → Prop
  | check : Waiting f (.readCheck f)
  | wait : Waiting f (.readWait f)
  | parked : Waiting f (.readParked f)
  | register : Waiting f (.readRegister f)

/-- The plain server is before the handler that the thread is in. -/
inductive Serves (s r : RequestServer) : HandlerPc → LockPc → Prop
  | idle {b : Bool} : s = r → Serves s r .idle (.outside b)
  | waiting {i : Nat} {received : Bytes} {w : RequestWorker} {request : SegmentRequest} {k : LockPc} :
      s = r → Receives r.workers i received w → handleRead w.recvData = .answer request →
      Waiting request.fileName k → Serves s r (.serving i w request) k
  | opened {i : Nat} {received : Bytes} {w : RequestWorker} {request : SegmentRequest}
      {disk : Option Bytes} : s.workers = r.workers → Receives r.workers i received w →
      handleRead w.recvData = .answer request →
      s.files = (r.files.register request.fileName disk).2 →
      Serves s r (.serving i w request) (.outside (r.files.register request.fileName disk).1)
  | unlocking {i : Nat} {received : Bytes} {w : RequestWorker} {f : FileName} :
      s = r → Receives r.workers i received w → handleRead w.recvData = .quit f →
      Serves s r (.quitting i w f) (.readUnlock f)
  | unlocked {i : Nat} {received : Bytes} {w : RequestWorker} {f : FileName} {b : Bool} :
      s.workers = r.workers → Receives r.workers i received w → handleRead w.recvData = .quit f →
      r.files.readUnlock f = .ok s.files → Serves s r (.quitting i w f) (.outside b)

structure InTurn (s : FileServer) : Prop where
  paired : s.users.length = s.locks.threads.length
  server : ∃ r pc k, Reach RequestServer.step Anything {} r ∧
    s.threads[serverThread]? = some (.server pc, k) ∧ Serves s.sessions r pc k
  stores : ∀ t user k, t ≠ serverThread → s.threads[t]? = some (user, k) →
    ∃ pc held waited, user = .store pc ∧ FileStores.Phase pc k held waited
  locked : ∀ f, s.locks.files.wlockedFiles.count f = s.threads.countP (holds f) + s.lost.count f

variable {r : RequestServer} {handler : HandlerPc}

theorem Serves.wake (h : Serves s.sessions r handler k) : Serves s.sessions r handler k.wake := by
  cases h with
  | idle same => exact .idle same
  | waiting same receives asked waits =>
      refine .waiting same receives asked ?_
      cases waits <;> constructor
  | opened same receives asked files => exact .opened same receives asked files
  | unlocking same receives asked => exact .unlocking same receives asked
  | unlocked same receives asked files => exact .unlocked same receives asked files

theorem Receives.step {i : Nat} {received : Bytes} {w w' : RequestWorker} {files : FileManager}
    (receives : Receives r.workers i received w) (handled : w.handleRead r.files disk = .ok (w', files)) :
    r.step (.read i received disk) = .ok { files, workers := r.workers.set i w' } := by
  obtain ⟨v, fits, there, reading, some, rfl⟩ := receives
  have ready : v.pending = .reading ∧ received ≠ [] ∧ received.length ≤ maxRecvDataLength :=
    ⟨reading, some, fits⟩
  simp only [RequestServer.step, there, dif_pos ready, handled]
  rfl

theorem session_step {e : Event} {e' : RequestServer.Event} {files files' : FileManager}
    {workers : List RequestWorker} (session : e.session? = some e')
    (ok : RequestServer.step { files, workers } e' = .ok r) :
    RequestServer.step { files := files', workers } e' = .ok { files := files', workers := r.workers } := by
  cases e with
  | accept recvData sendData =>
      obtain rfl := Option.some.inj session
      obtain rfl := Except.ok.inj ok
      rfl
  | readError i =>
      obtain rfl := Option.some.inj session
      simp only [RequestServer.step] at ok ⊢
      split at ok
      · split at ok
        · rename_i there reading
          obtain rfl := Except.ok.inj ok
          simp [reading]
        · contradiction
      · contradiction
  | written i done =>
      obtain rfl := Option.some.inj session
      simp only [RequestServer.step] at ok ⊢
      split at ok
      · split at ok
        · rename_i there writing
          obtain rfl := Except.ok.inj ok
          simp [writing]
        · contradiction
      · contradiction
  | _ => contradiction

theorem InTurn.serving (h : s.InTurn) {k' : LockPc}
    (paired : s'.users.length = s'.locks.threads.length)
    (threads : s'.threads = s.threads.set serverThread (.server handler, k'))
    (reach : Reach RequestServer.step Anything {} r) (serves : Serves s'.sessions r handler k')
    (writers : s'.locks.files.wlockedFiles = s.locks.files.wlockedFiles) (lost : s'.lost = s.lost) :
    s'.InTurn := by
  obtain ⟨-, pc, k, -, there, -⟩ := h.server
  obtain ⟨inside, -⟩ := List.getElem?_eq_some_iff.mp there
  refine ⟨paired, ⟨r, handler, k', reach, by simp [threads, inside], serves⟩, fun t user k'' other at_t => ?_,
    fun f => ?_⟩
  · rw [threads, List.getElem?_set_ne (Ne.symm other)] at at_t
    exact h.stores t user k'' other at_t
  · have count := Threads.countP_step (holds f) (.server handler, k') there
    simp only [holds, held?, reduceCtorEq, decide_false, Bool.false_eq_true, if_false, Nat.add_zero]
      at count
    rw [writers, lost, h.locked f, threads]
    exact congrArg (· + s.lost.count f) count.symm

theorem InTurn.storing (h : s.InTurn) (there : s.threads[t]? = some (.store pc, k)) {k' : LockPc}
    (paired : s'.users.length = s'.locks.threads.length)
    (threads : s'.threads = s.threads.set t (.store pc', k')) (sessions : s'.sessions = s.sessions)
    (phase : FileStores.Phase pc' k' held waited)
    (count : ∀ f, s'.locks.files.wlockedFiles.count f + (if holds f (.store pc, k) then 1 else 0) +
      s.lost.count f = s.locks.files.wlockedFiles.count f +
        (if holds f (.store pc', k') then 1 else 0) + s'.lost.count f) : s'.InTurn := by
  obtain ⟨r, handler, k₀, reach, server, serves⟩ := h.server
  have other : t ≠ serverThread := by
    rintro rfl
    simp [there] at server
  refine ⟨paired, ⟨r, handler, k₀, reach, ?_, sessions ▸ serves⟩, fun t' user k'' different at_t => ?_,
    fun f => ?_⟩
  · rw [threads, List.getElem?_set_ne other, server]
  · rw [threads] at at_t
    rcases Threads.getElem?_step at_t with ⟨rfl, same⟩ | ⟨-, old⟩
    · obtain ⟨rfl, rfl⟩ := Prod.mk.inj same
      exact ⟨pc', held, waited, rfl, phase⟩
    · exact h.stores t' user k'' different old
  · have step := Threads.countP_step (holds f) (.store pc', k') there
    have before := h.locked f
    have after := count f
    rw [threads]
    omega

theorem threads_woken (s : FileServer) :
    threads { s with locks := { s.locks with threads := s.locks.threads.map LockPc.wake } } =
      s.threads.map (Prod.map id LockPc.wake) := by
  rw [threads, threads, List.zip_map_right]

theorem InTurn.woken (h : s.InTurn) :
    InTurn { s with locks := { s.locks with threads := s.locks.threads.map LockPc.wake } } := by
  obtain ⟨r, handler, k, reach, server, serves⟩ := h.server
  refine ⟨by simp [h.paired], ⟨r, handler, k.wake, reach, ?_, serves.wake⟩, fun t user k' other there => ?_,
    fun f => ?_⟩
  · rw [threads_woken, List.getElem?_map, server]
    rfl
  · rw [threads_woken, List.getElem?_map] at there
    obtain ⟨⟨user', k''⟩, old, same⟩ := Option.map_eq_some_iff.mp there
    obtain ⟨rfl, rfl⟩ := Prod.mk.inj same
    obtain ⟨pc, held, waited, rfl, phase⟩ := h.stores t user' k'' other old
    exact ⟨pc, held, waited, rfl, phase.wake⟩
  · rw [threads_woken, countP_woken (holds_wake f)]
    exact h.locked f

theorem InTurn.kept (h : s.InTurn) (there : s.threads[t]? = some (.store pc, k))
    (phase : FileStores.Phase pc k held waited) : ∀ f ∈ held, f ∈ s.locks.files.wlockedFiles := by
  intro f member
  have holding : holds f (.store pc, k) = true := by
    rw [phase_held phase, Option.mem_toList] at member
    exact decide_eq_true member
  have counted := List.countP_pos_iff.mpr ⟨_, List.mem_of_getElem? there, holding⟩
  have locked := h.locked f
  exact List.count_pos_iff.mp (by omega)

theorem serves_opened {i : Nat} {received : Bytes} {w : RequestWorker} {request : SegmentRequest}
    {s₁ : RequestServer} (same : s.sessions = r) (receives : Receives r.workers i received w)
    (asked : handleRead w.recvData = .answer request) (workers : s₁.workers = s.workers)
    (files : s₁.files = (s.locks.files.register request.fileName disk).2.readSide) :
    Serves s₁ r (.serving i w request)
      (.outside (s.locks.files.register request.fileName disk).1) := by
  subst same
  have registered := s.locks.files.register_readSide request.fileName disk
  have opened : Serves s₁ s.sessions (.serving i w request)
      (.outside (s.sessions.files.register request.fileName disk).1) :=
    .opened workers receives asked (files.trans (congrArg Prod.snd registered).symm)
  rwa [show s.sessions.files = s.locks.files.readSide from rfl, registered] at opened

theorem InTurn.thread_server (h : s.InTurn)
    (moved : s.locks.step (.thread serverThread disk) = .ok l') : InTurn { s with locks := l' } := by
  obtain ⟨r, handler, k, reach, there, serves⟩ := h.server
  have here := (mem_threads.mp there).2
  simp only [FileLocks.step, here] at moved
  have paired (k' : LockPc) : s.users.length = (s.locks.threads.set serverThread k').length :=
    h.paired.trans List.length_set.symm
  cases serves with
  | idle | opened | unlocked => contradiction
  | @waiting i received w request _ same receives asked waits =>
      cases waits with
      | parked => contradiction
      | check =>
          simp only [FileLocks.advance] at moved
          split at moved
          · contradiction
          · obtain rfl := Except.ok.inj moved
            split
            · exact h.serving (paired _) (Threads.zip_set_right there _) reach
                (.waiting same receives asked .wait) rfl rfl
            · exact h.serving (paired _) (Threads.zip_set_right there _) reach
                (.waiting same receives asked .register) rfl rfl
      | wait =>
          obtain rfl := Except.ok.inj moved
          exact h.serving (paired _) (Threads.zip_set_right there _) reach
            (.waiting same receives asked .parked) rfl rfl
      | register =>
          obtain rfl := Except.ok.inj moved
          exact h.serving (paired _) (Threads.zip_set_right there _) reach
            (serves_opened same receives asked rfl rfl)
            (s.locks.files.register_writers request.fileName disk) rfl
  | @unlocking i received w f same receives asked =>
      obtain ⟨files, unlocked, eq⟩ := bind_eq_ok.mp moved
      obtain rfl := Except.ok.inj eq
      have released := mapError_ok.mp unlocked
      refine h.serving (paired _) (Threads.zip_set_right there _) reach
        (.unlocked (by rw [← same]; rfl) receives asked ?_) (FileManager.readUnlock_ok released).1 rfl
      rw [← same]
      exact (s.locks.files.readUnlock_readSide f).trans (by rw [released]; rfl)

theorem InTurn.thread_store (h : s.InTurn) (other : t ≠ serverThread)
    (moved : s.locks.step (.thread t disk) = .ok l') : InTurn { s with locks := l' } := by
  obtain ⟨k, at_t, -⟩ := FileLocks.thread_pc moved
  obtain ⟨user, there⟩ := exists_user h.paired at_t
  obtain ⟨pc, held, waited, rfl, phase⟩ := h.stores t user k other there
  obtain ⟨k', held', waited', phase', readers, threads, count⟩ :=
    storing_step at_t phase (h.kept there phase) moved
  have same : sessions { s with locks := l' } = s.sessions := by
    simp only [sessions, FileManager.readSide, readers]
  have counted (f : FileName) : l'.files.wlockedFiles.count f +
      (if holds f (.store pc, k) then 1 else 0) + s.lost.count f =
      s.locks.files.wlockedFiles.count f + (if holds f (.store pc, k') then 1 else 0) +
        s.lost.count f := by
    rw [← phase_count phase, ← phase_count phase', count f]
  rcases threads with set | woken
  · refine h.storing there ?_ ?_ same phase' counted
    · simp only [set, List.length_set, h.paired]
    · simp only [FileServer.threads, set]
      exact Threads.zip_set_right there k'
  · have awake : (threads { s with locks := { s.locks with
        threads := s.locks.threads.map LockPc.wake } })[t]? = some (.store pc, k.wake) := by
      rw [threads_woken, List.getElem?_map, there]
      rfl
    refine h.woken.storing awake ?_ ?_ same phase' ?_
    · simp only [woken, List.length_set, List.length_map, h.paired]
    · simp only [FileServer.threads, woken]
      exact Threads.zip_set_right awake k'
    · simpa only [holds_wake] using counted

theorem InTurn.thread_wake (h : s.InTurn) (moved : s.locks.step (.wake t) = .ok l') :
    InTurn { s with locks := l' } := by
  cases FileLocks.step_move moved with
  | @wake _ k at_t =>
      obtain ⟨user, there⟩ := exists_user h.paired at_t
      have paired : s.users.length = (s.locks.threads.set t k.wake).length :=
        h.paired.trans List.length_set.symm
      by_cases own : t = serverThread
      · subst own
        obtain ⟨r, handler, k₀, reach, server, serves⟩ := h.server
        obtain ⟨-, rfl⟩ := Prod.mk.inj (Option.some.inj (server.symm.trans there))
        exact h.serving paired (Threads.zip_set_right server _) reach serves.wake rfl rfl
      · obtain ⟨pc, held, waited, rfl, phase⟩ := h.stores t user k own there
        refine h.storing there paired (Threads.zip_set_right there _) rfl phase.wake fun f => ?_
        rw [holds_wake]
        rfl

theorem InTurn.phase (h : s.InTurn) (there : s.threads[t]? = some (.store pc, k)) :
    ∃ held waited, FileStores.Phase pc k held waited := by
  have other : t ≠ serverThread := by
    rintro rfl
    obtain ⟨r, handler, k₀, -, server, -⟩ := h.server
    simp [there] at server
  obtain ⟨pc', held, waited, same, phase⟩ := h.stores t _ k other there
  obtain rfl := UserPc.store.inj same
  exact ⟨held, waited, phase⟩

theorem InTurn.idle (h : s.InTurn) (idle : s.users[serverThread]? = some (.server .idle)) :
    Reach RequestServer.step Anything {} s.sessions ∧
      ∃ b, s.threads[serverThread]? = some (.server .idle, .outside b) := by
  obtain ⟨r, handler, k, reach, there, serves⟩ := h.server
  obtain rfl := UserPc.server.inj (Option.some.inj ((mem_threads.mp there).1.symm.trans idle))
  cases serves with
  | @idle b same => exact ⟨same ▸ reach, b, there⟩

theorem passes_phase (phase : FileStores.Phase pc k held waited) (passes : Passes pc k pc') :
    FileStores.Phase pc' k held waited ∧ held? (.store pc', k) = held? (.store pc, k) := by
  cases passes with
  | opening =>
      cases phase
      exact ⟨.opening, rfl⟩
  | writing =>
      cases phase
      exact ⟨.writing, rfl⟩
  | unlocking =>
      cases phase
      exact ⟨.unlocking, rfl⟩
  | idle =>
      cases phase
      exact ⟨.idle, rfl⟩

/-- After `read_lock`. -/
theorem handleRead_answer {w : RequestWorker} {request : SegmentRequest} {m : FileManager}
    (asked : handleRead w.recvData = .answer request) : w.handleRead m disk =
      ((m.register request.fileName disk).2.getSegment request.fileName request.segment w.sendData
        (requestedSegmentSize request.fileSize request.segment).toNat).map fun (ok, m', sendData) =>
          ({ w with
            sendData
            held := if (m.register request.fileName disk).1 then w.held.insert request.fileName else w.held
            pending := if ok then .writing else .deleted }, m') := by
  simp only [RequestWorker.handleRead, asked, FileManager.serve]
  cases (m.register request.fileName disk).2.getSegment request.fileName request.segment w.sendData
    (requestedSegmentSize request.fileSize request.segment).toNat <;> rfl

theorem handleRead_quit {w : RequestWorker} {f : FileName} {m : FileManager}
    (asked : handleRead w.recvData = .quit f) : w.handleRead m disk = (m.readUnlock f).map fun m' =>
      ({ w with held := w.held.filter (· ≠ f), pending := .deleted }, m') := by
  simp only [RequestWorker.handleRead, asked]
  cases m.readUnlock f <;> rfl

theorem InTurn.served (h : s.InTurn) {i : Nat} {w : RequestWorker} {request : SegmentRequest}
    {opened ok : Bool} {files : FileManager} {sendData : Buffer segmentSize}
    (there : s.threads[serverThread]? = some (.server (.serving i w request), .outside opened))
    (read : s.locks.files.getSegment request.fileName request.segment w.sendData
      (requestedSegmentSize request.fileSize request.segment).toNat = .ok (ok, files, sendData)) :
    InTurn { s with
      locks := { s.locks with files }
      users := s.users.set serverThread (.server .idle)
      workers := s.workers.set i { w with
        sendData
        held := if opened then w.held.insert request.fileName else w.held
        pending := if ok then .writing else .deleted } } := by
  obtain ⟨r, handler, k, reach, server, serves⟩ := h.server
  obtain ⟨user, rfl⟩ := Prod.mk.inj (Option.some.inj (server.symm.trans there))
  obtain rfl := UserPc.server.inj user
  have paired : (s.users.set serverThread (.server .idle)).length = s.locks.threads.length :=
    List.length_set.trans h.paired
  cases serves with
  | waiting _ _ _ waits => cases waits
  | @opened _ received _ _ disk same receives asked opens =>
      have seen := s.locks.files.getSegment_readSide request.fileName request.segment w.sendData
        (requestedSegmentSize request.fileSize request.segment).toNat
      rw [read, show s.locks.files.readSide = _ from opens] at seen
      have handled := (handleRead_answer asked).trans (congrArg (Except.map _) seen)
      have workers : s.workers = r.workers := same
      refine h.serving paired (Threads.zip_set_left there _)
        (reach.tail trivial (receives.step handled)) (.idle ?_) (FileManager.getSegment_writers read) rfl
      rw [← workers]
      rfl

theorem InTurn.left (h : s.InTurn) {i : Nat} {w : RequestWorker} {f : FileName} {b : Bool}
    (there : s.threads[serverThread]? = some (.server (.quitting i w f), .outside b)) :
    InTurn { s with
      users := s.users.set serverThread (.server .idle)
      workers := s.workers.set i { w with held := w.held.filter (· ≠ f), pending := .deleted } } := by
  obtain ⟨r, handler, k, reach, server, serves⟩ := h.server
  obtain ⟨user, rfl⟩ := Prod.mk.inj (Option.some.inj (server.symm.trans there))
  obtain rfl := UserPc.server.inj user
  have paired : (s.users.set serverThread (.server .idle)).length = s.locks.threads.length :=
    List.length_set.trans h.paired
  cases serves with
  | unlocked same receives asked unlocked =>
      have handled : w.handleRead r.files none = _ :=
        (handleRead_quit asked).trans (congrArg (Except.map _) unlocked)
      have workers : s.workers = r.workers := same
      refine h.serving paired (Threads.zip_set_left there _)
        (reach.tail trivial (receives.step handled)) (.idle ?_) rfl rfl
      rw [← workers]
      rfl

theorem InTurn.step (h : s.InTurn) {e : Event} (ok : s.step e = .ok s') : s'.InTurn := by
  cases step_move h.paired ok with
  | @session _ e' r session idle moved =>
      obtain ⟨reach, b, there⟩ := h.idle idle
      exact ⟨h.paired, ⟨_, .idle, .outside b, reach.tail trivial (session_step session moved), there,
        .idle rfl⟩, h.stores, h.locked⟩
  | serve there receives asked =>
      obtain ⟨reach, -⟩ := h.idle (mem_threads.mp there).1
      exact h.serving (by simp [h.paired]) (Threads.zip_set ..) reach
        (.waiting rfl receives asked .check) rfl rfl
  | quit there receives asked =>
      obtain ⟨reach, -⟩ := h.idle (mem_threads.mp there).1
      exact h.serving (by simp [h.paired]) (Threads.zip_set ..) reach (.unlocking rfl receives asked) rfl rfl
  | @ignore i received w idle receives asked =>
      obtain ⟨reach, b, there⟩ := h.idle idle
      have handled : w.handleRead s.sessions.files none =
          .ok ({ w with pending := .nothing }, s.sessions.files) := by
        simp only [RequestWorker.handleRead, asked]
      exact ⟨h.paired, ⟨_, .idle, .outside b, reach.tail trivial (Receives.step receives handled), there,
        .idle rfl⟩, h.stores, h.locked⟩
  | served there read => exact h.served there read
  | left there => exact h.left there
  | store there =>
      exact h.storing there (by simp [h.paired]) (Threads.zip_set ..) rfl .checking fun _ => rfl
  | @pass t io pc pc' k there passes =>
      obtain ⟨held, waited, phase⟩ := h.phase there
      obtain ⟨phase', same⟩ := passes_phase phase passes
      refine h.storing there (by simp [h.paired]) (Threads.zip_set_left there _) rfl phase' fun f => ?_
      rw [holds, holds, same]
  | @fail t f k there =>
      obtain ⟨held, waited, phase⟩ := h.phase there
      cases phase with
      | opening =>
          refine h.storing there (by simp [h.paired]) (Threads.zip_set_left there _) rfl .idle fun g => ?_
          simp only [holds, held?, List.count_append, List.count_singleton]
          by_cases same : f = g
          · simp [same]
            omega
          · simp [same]
  | @unlock t io f b there =>
      exact h.storing there (by simp [h.paired]) (Threads.zip_set ..) rfl .erasing fun _ => rfl
  | @thread t disk locks moved =>
      by_cases own : t = serverThread
      · exact h.thread_server (own ▸ moved)
      · exact h.thread_store own moved
  | wake moved => exact h.thread_wake moved

theorem start_inTurn (stores : Nat) : (start stores).InTurn := by
  have threads : (start stores).threads =
      (.server .idle, .outside false) :: List.replicate stores (.store .idle, .outside false) := by
    rw [FileServer.threads, start, FileLocks.start, List.replicate_succ, List.zip_cons_cons,
      List.zip_replicate']
  refine ⟨by simp [start, FileLocks.start], ⟨{}, .idle, .outside false, .refl, by rw [threads]; rfl, .idle rfl⟩,
    fun t user k other there => ?_, fun f => ?_⟩
  · rw [threads] at there
    cases t with
    | zero => exact absurd rfl other
    | succ t =>
        have same := List.eq_of_mem_replicate (List.mem_of_getElem? there)
        obtain ⟨rfl, rfl⟩ := Prod.mk.inj same
        exact ⟨.idle, [], none, rfl, .idle⟩
  · rw [threads]
    simp [start, FileLocks.start, holds, held?, List.countP_replicate]

theorem reach_inTurn {stores : Nat} (run : Reach step Anything (start stores) s) : s.InTurn :=
  run.invariant (start_inTurn stores) fun _ _ _ inTurn _ ok => inTurn.step ok

/-! ## The plain server without downloads -/

def Idle (s : FileServer) : Prop := s.users[serverThread]? = some (.server .idle)

def alone (stores : Nat) (r : RequestServer) (handler : HandlerPc) (k : LockPc) : FileServer where
  locks := { files := r.files, threads := k :: List.replicate stores (.outside false) }
  users := .server handler :: List.replicate stores (.store .idle)
  workers := r.workers

variable {stores : Nat}

theorem alone_free (stores : Nat) (r : RequestServer) (handler : HandlerPc)
    (free : k.holdsWlmutex = false) : (alone stores r handler k).locks.wlmutexHeld = false := by
  rw [alone, FileLocks.wlmutexHeld, List.any_cons, free, Bool.false_or, List.any_eq_false]
  intro k' member
  rw [List.eq_of_mem_replicate member]
  simp [LockPc.holdsWlmutex]

theorem alone_read {i : Nat} {received : Bytes} {w : RequestWorker} {b : Bool}
    (receives : Receives r.workers i received w) :
    (alone stores r .idle (.outside b)).step (.read i received) =
      match handleRead w.recvData with
      | .answer request =>
          .ok (alone stores r (.serving i w request) (.readCheck request.fileName))
      | .quit f => .ok (alone stores r (.quitting i w f) (.readUnlock f))
      | .nothing => .ok { alone stores r .idle (.outside b) with
          workers := r.workers.set i { w with pending := .nothing } } := by
  obtain ⟨v, fits, there, reading, some, rfl⟩ := receives
  have ready : v.pending = .reading ∧ received ≠ [] := ⟨reading, some⟩
  have here : (alone stores r .idle (.outside b)).workers[i]? = Option.some v := there
  have idle : (alone stores r .idle (.outside b)).users[serverThread]? =
      Option.some (.server .idle) := rfl
  simp only [step, read, idle, here, if_pos ready, dif_pos fits]
  cases handleRead (v.recvData.receive received fits) <;> rfl

theorem alone_serve {i : Nat} {w : RequestWorker} {request : SegmentRequest}
    (free : r.files.wlockedFiles = []) (disk : Option Bytes)
    (run : Reach step Anything (start stores)
      (alone stores r (.serving i w request) (.readCheck request.fileName))) :
    Reach step Anything (start stores) (alone stores
      { r with files := (r.files.register request.fileName disk).2 } (.serving i w request)
        (.outside (r.files.register request.fileName disk).1)) := by
  have checked : (alone stores r (.serving i w request) (.readCheck request.fileName)).step
      (.thread serverThread none) =
        .ok (alone stores r (.serving i w request) (.readRegister request.fileName)) := by
    have held := alone_free stores r (.serving i w request) (k := .readCheck request.fileName) rfl
    have unlocked : request.fileName ∉
        (alone stores r (.serving i w request) (.readCheck request.fileName)).locks.files.wlockedFiles := by
      simp [alone, free]
    simp only [step, FileLocks.step, alone, serverThread, List.getElem?_cons_zero] at held unlocked ⊢
    simp only [FileLocks.advance, held, Bool.false_eq_true, if_false, if_neg unlocked]
    rfl
  exact (run.tail trivial checked).tail (e := .thread serverThread disk) trivial rfl

theorem alone_served {i : Nat} {w w' : RequestWorker} {request : SegmentRequest} {files : FileManager}
    (asked : handleRead w.recvData = .answer request)
    (handled : w.handleRead r.files disk = .ok (w', files)) :
    (alone stores { r with files := (r.files.register request.fileName disk).2 }
      (.serving i w request) (.outside (r.files.register request.fileName disk).1)).step .resume =
        .ok (alone stores { files, workers := r.workers.set i w' } .idle
          (.outside (r.files.register request.fileName disk).1)) := by
  simp only [RequestWorker.handleRead, asked] at handled
  obtain ⟨⟨ok, m, sendData⟩, served, eq⟩ := bind_eq_ok.mp handled
  obtain ⟨rfl, rfl⟩ := Prod.mk.inj (Except.ok.inj eq)
  have read : (r.files.register request.fileName disk).2.getSegment request.fileName request.segment
      w.sendData (requestedSegmentSize request.fileSize request.segment).toNat =
        .ok (ok, m, sendData) := served
  simp only [step, resume, alone, returned, serverThread, List.getElem?_cons_zero, read]
  rfl

theorem alone_quit {i : Nat} {w : RequestWorker} {f : FileName} {files : FileManager}
    (unlocked : r.files.readUnlock f = .ok files)
    (run : Reach step Anything (start stores) (alone stores r (.quitting i w f) (.readUnlock f))) :
    Reach step Anything (start stores) (alone stores { files, workers := r.workers.set i { w with
      held := w.held.filter (· ≠ f), pending := .deleted } } .idle (.outside false)) := by
  have released : (alone stores r (.quitting i w f) (.readUnlock f)).step
      (.thread serverThread none) =
        .ok (alone stores { r with files } (.quitting i w f) (.outside false)) := by
    simp only [step, FileLocks.step, alone, serverThread, List.getElem?_cons_zero, FileLocks.advance,
      unlocked]
    rfl
  exact (run.tail trivial released).tail (e := .resume) trivial rfl

theorem alone_handle {e : RequestServer.Event} {r' : RequestServer} {b : Bool}
    (ok : r.step e = .ok r') (same : r'.files = r.files) :
    (alone stores r .idle (.outside b)).handle e = .ok (alone stores r' .idle (.outside b)) := by
  have idle : (alone stores r .idle (.outside b)).users[serverThread]? = some (.server .idle) := rfl
  rw [handle, if_pos idle]
  refine bind_eq_ok.mpr ⟨r', ok, ?_⟩
  simp only [alone, same]
  rfl

theorem handleRead_writers {w w' : RequestWorker} {m m' : FileManager}
    (handled : w.handleRead m disk = .ok (w', m')) : m'.wlockedFiles = m.wlockedFiles := by
  unfold RequestWorker.handleRead at handled
  split at handled
  · rename_i request asked
    obtain ⟨⟨ok, m'', sendData⟩, served, eq⟩ := bind_eq_ok.mp handled
    obtain ⟨-, rfl⟩ := Prod.mk.inj (Except.ok.inj eq)
    exact (FileManager.getSegment_writers served).trans (m.register_writers _ _)
  · obtain ⟨m'', unlocked, eq⟩ := bind_eq_ok.mp handled
    obtain ⟨-, rfl⟩ := Prod.mk.inj (Except.ok.inj eq)
    exact (FileManager.readUnlock_ok unlocked).1
  · obtain ⟨-, rfl⟩ := Prod.mk.inj (Except.ok.inj handled)
    rfl

theorem reach_alone (stores : Nat) (reach : Reach RequestServer.step Anything {} r) :
    r.files.wlockedFiles = [] ∧ ∃ b, Reach step Anything (start stores) (alone stores r .idle (.outside b)) := by
  induction reach with
  | refl => exact ⟨rfl, false, .refl⟩
  | @tail r r' e _ _ ok ih =>
      obtain ⟨free, b, run⟩ := ih
      cases RequestServer.step_move ok with
      | @accept recvData sendData =>
          exact ⟨free, b, run.tail (e := .accept recvData sendData) trivial (alone_handle ok rfl)⟩
      | @readError i w there reading =>
          exact ⟨free, b, run.tail (e := .readError i) trivial (alone_handle ok rfl)⟩
      | @written i done w there writing =>
          exact ⟨free, b, run.tail (e := .written i done) trivial (alone_handle ok rfl)⟩
      | @read i received disk w w' files there reading some fits handled =>
          have receives : Receives r.workers i received _ := ⟨w, fits, there, reading, some, rfl⟩
          have moved : (alone stores r .idle (.outside b)).step (.read i received) = _ :=
            alone_read receives
          refine ⟨(handleRead_writers handled).trans free, ?_⟩
          cases asked : handleRead (w.recvData.receive received fits) with
          | answer request =>
              simp only [asked] at moved
              exact ⟨_, (alone_serve free disk (run.tail trivial moved)).tail trivial
                (alone_served asked handled)⟩
          | quit f =>
              simp only [asked] at moved
              simp only [RequestWorker.handleRead, asked] at handled
              obtain ⟨m, unlocked, eq⟩ := bind_eq_ok.mp handled
              obtain ⟨rfl, rfl⟩ := Prod.mk.inj (Except.ok.inj eq)
              exact ⟨false, alone_quit unlocked (run.tail trivial moved)⟩
          | nothing =>
              simp only [asked] at moved
              simp only [RequestWorker.handleRead, asked] at handled
              obtain ⟨rfl, rfl⟩ := Prod.mk.inj (Except.ok.inj handled)
              exact ⟨b, run.tail trivial moved⟩

/-! ## Where the server goes down -/

theorem call_faultless (s : FileServer) (t : Nat) (call : LockCall) (user : UserPc) (f : Fault) :
    s.call t call user ≠ .error (.fault f) := by
  intro failed
  rcases bind_eq_error.mp failed with stopped | ⟨locks, -, ended⟩
  · simp only [FileLocks.step] at stopped
    split at stopped <;> simp at stopped
  · contradiction

theorem handle_faultless {e : Event} {e' : RequestServer.Event} (session : e.session? = some e')
    (f : Fault) : s.handle e' ≠ .error (.fault f) := by
  intro failed
  unfold handle at failed
  split at failed
  · rcases bind_eq_error.mp failed with stopped | ⟨r, -, ended⟩
    · cases e with
      | accept recvData sendData =>
          obtain rfl := Option.some.inj session
          contradiction
      | readError i | written i done =>
          obtain rfl := Option.some.inj session
          simp only [RequestServer.step] at stopped
          split at stopped
          · split at stopped <;> simp at stopped
          · simp at stopped
      | _ => contradiction
    · contradiction
  · simp at failed

theorem advance_faultless (s : FileServer) (t : Nat) (io : Bool) (pc : StorePc) (f : Fault) :
    s.advance t io pc ≠ .error (.fault f) := by
  intro failed
  cases pc with
  | lockWait g | unlockWait g =>
      simp only [advance, await] at failed
      split at failed <;> simp at failed
  | opening g => cases io <;> simp [advance] at failed
  | unlocking g => exact s.call_faultless t _ _ f failed
  | idle | writing g => simp [advance] at failed

theorem Receives.fails {i : Nat} {received : Bytes} {w : RequestWorker} {f : Fault}
    (receives : Receives r.workers i received w) :
    r.step (.read i received disk) = .error (.fault f) ↔ w.handleRead r.files disk = .error f := by
  obtain ⟨v, fits, there, reading, some, rfl⟩ := receives
  have ready : v.pending = .reading ∧ received ≠ [] ∧ received.length ≤ maxRecvDataLength :=
    ⟨reading, some, fits⟩
  simp only [RequestServer.step, there, dif_pos ready]
  cases RequestWorker.handleRead { v with recvData := v.recvData.receive received fits } r.files disk <;>
    simp [Except.mapError, bind, Except.bind, pure, Except.pure]

/-- The plain server, which is `r` when the handler begins and has the same workers, goes down in the
handler that the thread is in; a handler that serves a request has opened files since. -/
inductive Fails (s : FileServer) : Event → Fault → Prop
  | serving {r : RequestServer} {i : Nat} {received : Bytes} {w : RequestWorker}
      {request : SegmentRequest} {disk : Option Bytes} {f : Fault} :
      Reach RequestServer.step Anything {} r → s.workers = r.workers →
      s.threads[serverThread]? = some (.server (.serving i w request),
        .outside (r.files.register request.fileName disk).1) →
      s.sessions.files = (r.files.register request.fileName disk).2 →
      Receives r.workers i received w → handleRead w.recvData = .answer request →
      r.step (.read i received disk) = .error (.fault f) → Fails s .resume f
  | quitting {i : Nat} {received : Bytes} {w : RequestWorker} {g : FileName} {disk : Option Bytes}
      {f : Fault} : Reach RequestServer.step Anything {} s.sessions →
      s.threads[serverThread]? = some (.server (.quitting i w g), .readUnlock g) →
      Receives s.workers i received w → handleRead w.recvData = .quit g →
      s.sessions.step (.read i received disk) = .error (.fault f) → Fails s (.thread serverThread disk) f

theorem sessions_getSegment_fails {w : RequestWorker} {request : SegmentRequest} {f : Fault} :
    s.sessions.files.getSegment request.fileName request.segment w.sendData
        (requestedSegmentSize request.fileSize request.segment).toNat = .error f ↔
      s.locks.files.getSegment request.fileName request.segment w.sendData
        (requestedSegmentSize request.fileSize request.segment).toNat = .error f := by
  rw [sessions, FileManager.getSegment_readSide, map_eq_error]

theorem sessions_readUnlock_fails {g : FileName} {f : Fault} :
    s.sessions.files.readUnlock g = .error f ↔ s.locks.files.readUnlock g = .error f := by
  rw [sessions, FileManager.readUnlock_readSide, map_eq_error]

theorem InTurn.resume_fails (h : s.InTurn) {f : Fault} (failed : s.resume = .error (.fault f)) :
    s.Fails .resume f := by
  obtain ⟨r, handler, k, reach, there, serves⟩ := h.server
  obtain ⟨user, lock⟩ := mem_threads.mp there
  simp only [resume, user, returned, lock] at failed
  cases serves with
  | idle | unlocking | unlocked => simp at failed
  | waiting _ _ _ waits => cases waits <;> simp at failed
  | opened same receives asked opens =>
      rcases bind_eq_error.mp failed with stopped | ⟨result, -, ended⟩
      · have stuck := sessions_getSegment_fails.mpr (mapError_fault.mp stopped)
        rw [opens] at stuck
        exact .serving reach same there opens receives asked
          (receives.fails.mpr (by rw [handleRead_answer asked, map_eq_error, stuck]))
      · contradiction

theorem InTurn.thread_fails (h : s.InTurn) {f : Fault}
    (failed : s.locks.step (.thread t disk) = .error (.fault f)) : s.Fails (.thread t disk) f := by
  cases at_t : s.locks.threads[t]? with
  | none => simp [FileLocks.step, at_t] at failed
  | some k =>
      obtain ⟨user, there⟩ := exists_user h.paired at_t
      simp only [FileLocks.step, at_t] at failed
      by_cases own : t = serverThread
      · subst own
        obtain ⟨r, handler, k₀, reach, server, serves⟩ := h.server
        obtain ⟨-, rfl⟩ := Prod.mk.inj (Option.some.inj (server.symm.trans there))
        cases serves with
        | idle | opened | unlocked => simp [FileLocks.advance] at failed
        | waiting _ _ _ waits =>
            cases waits with
            | check =>
                simp only [FileLocks.advance] at failed
                split at failed <;> simp at failed
            | wait | parked | register => simp [FileLocks.advance] at failed
        | unlocking same receives asked =>
            subst same
            rcases bind_eq_error.mp failed with stopped | ⟨files, -, ended⟩
            · have stuck := sessions_readUnlock_fails.mpr (mapError_fault.mp stopped)
              exact .quitting reach server receives asked
                (receives.fails.mpr (by rw [handleRead_quit asked, map_eq_error, stuck]))
            · contradiction
      · obtain ⟨pc, held, waited, -, phase⟩ := h.stores t _ k own there
        cases phase with
        | checking | erasing =>
            simp only [FileLocks.advance] at failed
            split at failed
            · simp at failed
            · first | simp at failed | (split at failed <;> simp at failed)
        | _ => simp [FileLocks.advance] at failed

theorem InTurn.fails (h : s.InTurn) {e : Event} {f : Fault} (failed : s.step e = .error (.fault f)) :
    s.Fails e f := by
  cases e with
  | accept recvData sendData =>
      exact absurd failed (handle_faultless (e := .accept recvData sendData) rfl f)
  | readError i => exact absurd failed (handle_faultless (e := .readError i) rfl f)
  | written i done => exact absurd failed (handle_faultless (e := .written i done) rfl f)
  | resume => exact h.resume_fails failed
  | read i received =>
      simp only [FileServer.step, FileServer.read] at failed
      split at failed
      · split at failed
        · split at failed
          · split at failed
            · exact absurd failed (s.call_faultless _ _ _ f)
            · exact absurd failed (s.call_faultless _ _ _ f)
            · simp at failed
          · simp at failed
        · simp at failed
      · simp at failed
  | store t g =>
      simp only [FileServer.step] at failed
      split at failed
      · exact absurd failed (s.call_faultless _ _ _ f)
      · simp at failed
  | advance t io =>
      simp only [FileServer.step] at failed
      split at failed
      · exact absurd failed (s.advance_faultless t io _ f)
      · simp at failed
  | thread t disk =>
      rcases bind_eq_error.mp failed with stopped | ⟨locks, -, ended⟩
      · exact h.thread_fails stopped
      · contradiction
  | wake t =>
      rcases bind_eq_error.mp failed with stopped | ⟨locks, -, ended⟩
      · simp only [FileLocks.step] at stopped
        split at stopped <;> simp at stopped
      · contradiction

theorem Fails.step {e : Event} {f : Fault} (fails : s.Fails e f) : s.step e = .error (.fault f) := by
  cases fails with
  | serving reach same there opens receives asked stopped =>
      obtain ⟨user, lock⟩ := mem_threads.mp there
      have stuck := receives.fails.mp stopped
      rw [handleRead_answer asked, map_eq_error, ← opens, sessions_getSegment_fails] at stuck
      simp only [FileServer.step, resume, user, returned, lock, stuck]
      rfl
  | quitting reach there receives asked stopped =>
      obtain ⟨-, lock⟩ := mem_threads.mp there
      have handled : RequestWorker.handleRead _ s.sessions.files _ = .error f :=
        (Receives.fails (r := s.sessions) receives).mp stopped
      rw [handleRead_quit asked, map_eq_error, sessions_readUnlock_fails] at handled
      simp only [FileServer.step, FileLocks.step, lock, FileLocks.advance, handled]
      rfl

end FileServer

end SimpleP2P
