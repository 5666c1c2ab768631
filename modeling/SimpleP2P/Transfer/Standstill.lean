import SimpleP2P.FileManager.Waiting
import SimpleP2P.FileManager.Progress
import SimpleP2P.Transfer.Handlers
import Mathlib.Tactic.Ring

namespace SimpleP2P
open Library

/-! ## Readers that are notified -/

namespace FileLocks

variable {l l' : FileLocks} {i : Nat} {pc pc' : LockPc} {f : FileName}

def Heard (l : FileLocks) : Prop :=
  .notifying ∈ l.threads ∨ ∀ f, .readParked f ∈ l.threads → f ∈ l.files.wlockedFiles

theorem Heard.set (h : l.Heard) {files : FileManager} (there : l.threads[i]? = some pc)
    (other : pc ≠ .notifying) (awake : ∀ f, pc' ≠ .readParked f)
    (kept : ∀ f ∈ l.files.wlockedFiles, f ∈ files.wlockedFiles) :
    Heard { files, threads := l.threads.set i pc' } := by
  rcases h with pending | readers
  · exact .inl (notifying_kept there other pending)
  · refine .inr fun f member => kept f (readers f ?_)
    exact (List.mem_or_eq_of_mem_set member).resolve_right (Ne.symm (awake f))

theorem Heard.park (h : l.Heard) (there : l.threads[i]? = some (.readWait f))
    (locked : f ∈ l.files.wlockedFiles ∨ .notifying ∈ l.threads) :
    (l.goto i (.readParked f)).Heard := by
  rcases locked with locked | pending
  · rcases h with pending | readers
    · exact .inl (notifying_kept there (by simp) pending)
    · refine .inr fun g member => ?_
      rcases List.mem_or_eq_of_mem_set member with old | new
      · exact readers g old
      · exact LockPc.readParked.inj new ▸ locked
  · exact .inl (notifying_kept there (by simp) pending)

theorem Heard.woken (l : FileLocks) {pc' : LockPc} (awake : ∀ f, pc' ≠ .readParked f) :
    Heard { l with threads := (l.threads.map LockPc.wake).set i pc' } := by
  refine .inr fun f member => ?_
  rcases List.mem_or_eq_of_mem_set member with old | new
  · obtain ⟨pc, -, same⟩ := List.mem_map.mp old
    cases pc <;> simp [LockPc.wake] at same
  · exact absurd new.symm (awake f)

theorem Heard.step (h : l.Heard) {e : Event} (ok : l.step e = .ok l')
    (waits : ∀ i disk f, e = .thread i disk → l.threads[i]? = some (.readWait f) →
      f ∈ l.files.wlockedFiles ∨ .notifying ∈ l.threads) : l'.Heard := by
  cases step_move ok with
  | @call i call opened there =>
      exact h.set there (by simp) (by cases call <;> simp [LockCall.entry]) fun _ => id
  | @wake i pc there =>
      by_cases pending : pc = .notifying
      · subst pending
        obtain ⟨inside, -⟩ := List.getElem?_eq_some_iff.mp there
        exact .inl (List.mem_set inside _)
      · exact h.set there pending (by cases pc <;> simp [LockPc.wake]) fun _ => id
  | readWait there => exact h.park there (waits _ _ _ rfl there)
  | @readRegister i disk f there =>
      exact h.set there (by simp) (by simp) fun g member => l.files.register_writers f disk ▸ member
  | readUnlock there closed =>
      exact h.set there (by simp) (by simp) fun g member => (FileManager.readUnlock_ok closed).1 ▸ member
  | writePush there => exact h.set there (by simp) (by simp) fun _ member => List.mem_append_left _ member
  | @writeUnlock i disk f there =>
      obtain ⟨inside, -⟩ := List.getElem?_eq_some_iff.mp there
      exact .inl (List.mem_set inside _)
  | notify there => exact Heard.woken l (by simp)
  | readBlocked there _ | readPassed there _ _ | writeBlocked there _ | writePassed there _ _
    | writeWait there | notLocked there => exact h.set there (by simp) (by simp) fun _ => id

end FileLocks

namespace FileServer

/-! ## How long it takes -/

/-- What goes on by itself, without clients, new downloads and spurious wake-ups. -/
def Own : Event → Prop
  | .resume | .advance _ _ | .thread _ _ => True
  | .accept _ _ | .read _ _ | .readError _ | .written _ _ | .store _ _ | .wake _ => False

def rank : UserPc × LockPc → Nat
  | (.server .idle, _) | (.store .idle, _) => 0
  | (.server (.serving _ _ _), k) | (.server (.quitting _ _ _), k)
  | (.store (.unlockWait _), k) => k.stepsLeft + 1
  | (.store (.lockWait _), k) => k.stepsLeft + 7
  | (.store (.opening _), _) => 6
  | (.store (.writing _), _) => 5
  | (.store (.unlocking _), _) => 4

def notifies : UserPc × LockPc → Bool
  | (.server _, _) | (.store .idle, _) => false
  | (.store (.unlockWait _), k) => k.mayNotify
  | (.store _, _) => true

def stepsLeft (s : FileServer) : Nat := Threads.weight rank 10 notifies s.threads

variable {s s' : FileServer} {t : Nat} {user : UserPc} {k k' : LockPc} {pc pc' : StorePc}
  {l l' : FileLocks} {disk : Option Bytes} {stores : Nat} {f : FileName}

theorem rank_le (x : UserPc × LockPc) : rank x ≤ 10 := by
  obtain ⟨user, k⟩ := x
  have bound := k.stepsLeft_le
  cases user with
  | server pc => cases pc <;> simp only [rank] <;> omega
  | store pc => cases pc <;> simp only [rank] <;> omega

theorem notifies_wake (user : UserPc) (k : LockPc) : notifies (user, k.wake) = notifies (user, k) := by
  cases user with
  | server pc => rfl
  | store pc => cases pc <;> simp only [notifies, LockPc.mayNotify_wake]

theorem lock_move (move : l.Move (.thread t disk) l') (there : l.threads[t]? = some k) :
    (∃ k', l'.threads = l.threads.set t k' ∧ k'.stepsLeft < k.stepsLeft ∧
      (k'.mayNotify = true → k.mayNotify = true)) ∨
    k = .notifying ∧ l'.threads = (l.threads.map LockPc.wake).set t (.outside false) := by
  cases move with
  | notify here =>
      obtain rfl := Option.some.inj (there.symm.trans here)
      exact .inr ⟨rfl, rfl⟩
  | readBlocked here _ | readPassed here _ _ | readWait here | readRegister here | readUnlock here _
    | writeBlocked here _ | writePassed here _ _ | writeWait here | writePush here
    | writeUnlock here | notLocked here =>
      obtain rfl := Option.some.inj (there.symm.trans here)
      exact .inl ⟨_, rfl, by simp [LockPc.stepsLeft], by simp [LockPc.mayNotify]⟩

theorem InTurn.rank_lt (h : s.InTurn) (there : s.threads[t]? = some (user, k))
    (less : k'.stepsLeft < k.stepsLeft) : rank (user, k') < rank (user, k) := by
  by_cases own : t = serverThread
  · subst own
    obtain ⟨r, handler, k₀, -, server, serves⟩ := h.server
    obtain ⟨rfl, rfl⟩ := Prod.mk.inj (Option.some.inj (server.symm.trans there))
    cases serves with
    | idle => simp [LockPc.stepsLeft] at less
    | waiting | opened | unlocking | unlocked => simpa only [rank, Nat.add_lt_add_iff_right] using less
  · obtain ⟨pc, held, waited, rfl, phase⟩ := h.stores t user k own there
    cases pc with
    | lockWait f | unlockWait f => simpa only [rank, Nat.add_lt_add_iff_right] using less
    | idle | opening f | writing f | unlocking f =>
        cases phase
        simp [LockPc.stepsLeft] at less

theorem notifies_kept (kept : k'.mayNotify = true → k.mayNotify = true)
    (may : notifies (user, k') = true) : notifies (user, k) = true := by
  cases user with
  | server pc => contradiction
  | store pc =>
      cases pc with
      | unlockWait f => exact kept may
      | _ => exact may

theorem stepsLeft_set (there : s.threads[t]? = some (user, k)) {x : UserPc × LockPc}
    (threads : s'.threads = s.threads.set t x) (less : rank x < rank (user, k))
    (kept : notifies x = true → notifies (user, k) = true) : s'.stepsLeft < s.stepsLeft := by
  rw [stepsLeft, stepsLeft, threads]
  exact Threads.weight_own there less kept

theorem InTurn.notifying (h : s.InTurn) (there : s.threads[t]? = some (user, .notifying)) :
    ∃ f, user = .store (.unlockWait f) := by
  by_cases own : t = serverThread
  · subst own
    obtain ⟨r, handler, k₀, -, server, serves⟩ := h.server
    obtain ⟨rfl, rfl⟩ := Prod.mk.inj (Option.some.inj (server.symm.trans there))
    cases serves with
    | waiting _ _ _ waits => cases waits
  · obtain ⟨pc, held, waited, rfl, phase⟩ := h.stores t user _ own there
    cases phase with
    | notifying => exact ⟨_, rfl⟩

theorem InTurn.stepsLeft_woken (h : s.InTurn) (there : s.threads[t]? = some (user, .notifying))
    (woken : l'.threads = (s.locks.threads.map LockPc.wake).set t (.outside false)) :
    stepsLeft { s with locks := l' } < s.stepsLeft := by
  obtain ⟨f, rfl⟩ := h.notifying there
  have awake : (s.threads.map (Prod.map id LockPc.wake))[t]? =
      some (.store (.unlockWait f), .notifying) := by
    rw [List.getElem?_map, there]
    rfl
  have threads : FileServer.threads { s with locks := l' } =
      (s.threads.map (Prod.map id LockPc.wake)).set t (.store (.unlockWait f), .outside false) := by
    rw [← threads_woken] at awake ⊢
    rw [FileServer.threads, woken]
    exact Threads.zip_set_right awake _
  have count := Threads.countP_step notifies (.store (.unlockWait f), .outside false) awake
  rw [countP_woken notifies_wake] at count
  simp only [notifies, LockPc.mayNotify, Bool.false_eq_true, if_false, if_true] at count
  rw [stepsLeft, stepsLeft, threads]
  exact Threads.weight_spend rank_le (by simp) (Nat.lt_of_succ_le (Nat.le_of_eq count))

theorem InTurn.stepsLeft_thread (h : s.InTurn) (moved : s.locks.step (.thread t disk) = .ok l') :
    stepsLeft { s with locks := l' } < s.stepsLeft := by
  obtain ⟨k, at_t, -⟩ := FileLocks.thread_pc moved
  obtain ⟨user, there⟩ := exists_user h.paired at_t
  rcases lock_move (FileLocks.step_move moved) at_t with ⟨k', set, less, kept⟩ | ⟨rfl, woken⟩
  · have threads : FileServer.threads { s with locks := l' } = s.threads.set t (user, k') := by
      rw [FileServer.threads, set]
      exact Threads.zip_set_right there k'
    exact stepsLeft_set there threads (h.rank_lt there less) (notifies_kept kept)
  · exact h.stepsLeft_woken there woken

theorem decreases : Decreases step Own InTurn stepsLeft := by
  intro s e s' h own ok
  refine ⟨h.step ok, ?_⟩
  cases step_move h.paired ok with
  | @session e _ _ session => cases e <;> first | exact own.elim | contradiction
  | serve _ _ _ | quit _ _ _ | ignore _ _ _ | store _ | wake _ => exact own.elim
  | served there _ =>
      exact stepsLeft_set there (Threads.zip_set_left there _) (by simp [rank]) (by simp [notifies])
  | left there =>
      exact stepsLeft_set there (Threads.zip_set_left there _) (by simp [rank]) (by simp [notifies])
  | pass there passes =>
      refine stepsLeft_set there (Threads.zip_set_left there _) ?_ ?_
      · cases passes <;> simp [rank, LockPc.stepsLeft]
      · cases passes <;> simp [notifies]
  | fail there =>
      exact stepsLeft_set there (Threads.zip_set_left there _) (by simp [rank]) (by simp [notifies])
  | unlock there =>
      exact stepsLeft_set there (Threads.zip_set ..) (by simp [rank, LockPc.stepsLeft])
        (by simp [notifies])
  | thread moved => exact h.stepsLeft_thread moved

/-! ## Where it ends -/

def Waited (l : FileLocks) : LockPc → Prop
  | .readWait f => f ∈ l.files.wlockedFiles ∨ .notifying ∈ l.threads
  | _ => True

instance (l : FileLocks) : (k : LockPc) → Decidable (Waited l k)
  | .readWait f => inferInstanceAs (Decidable (f ∈ l.files.wlockedFiles ∨ .notifying ∈ l.threads))
  | .outside _ | .readCheck _ | .readParked _ | .readRegister _ | .readUnlock _ | .writeCheck _
  | .writeWait _ | .writeParked _ | .writePush _ | .writeUnlock _ | .notifying => .isTrue trivial

/-- The file is still locked when the server begins to wait for it, unless a notification is pending. -/
def WaitsInTime (s : FileServer) : Event → Prop
  | .thread t _ => ∀ k ∈ s.locks.threads[t]?, Waited s.locks k
  | _ => True

instance (s : FileServer) : (e : Event) → Decidable (s.WaitsInTime e)
  | .thread t _ => inferInstanceAs (Decidable (∀ k ∈ s.locks.threads[t]?, Waited s.locks k))
  | .accept _ _ | .read _ _ | .readError _ | .written _ _ | .resume | .store _ _ | .advance _ _
  | .wake _ => .isTrue trivial

def WaitsFor (s : FileServer) (f : FileName) : Prop :=
  ∃ i w request k, s.threads[serverThread]? = some (.server (.serving i w request), k) ∧
    k ∈ [LockPc.readCheck f, .readWait f, .readParked f]

def GoesDown (s : FileServer) : Prop := ∃ e f, Own e ∧ s.step e = .error (.fault f)

theorem InTurn.heard (h : s.InTurn) (heard : s.locks.Heard) {e : Event} (inTime : s.WaitsInTime e)
    (ok : s.step e = .ok s') : s'.locks.Heard := by
  cases step_move h.paired ok with
  | session _ _ _ | ignore _ _ _ | left _ | pass _ _ | fail _ => exact heard
  | serve there _ _ | quit there _ _ | store there | unlock there =>
      exact heard.set (mem_threads.mp there).2 (by simp) (by simp) fun _ => id
  | served there read =>
      rcases heard with pending | readers
      · exact .inl pending
      · exact .inr fun f member => (FileManager.getSegment_writers read) ▸ readers f member
  | @thread t disk locks moved =>
      refine heard.step moved fun i disk' f same there => ?_
      obtain ⟨rfl, -⟩ := FileLocks.Event.thread.inj same
      exact inTime _ there
  | wake moved => exact heard.step moved (by simp)

theorem reach_heard (run : Reach step WaitsInTime (start stores) s) : s.InTurn ∧ s.locks.Heard := by
  induction run with
  | refl =>
      refine ⟨start_inTurn stores, .inr fun f member => ?_⟩
      exact absurd (List.eq_of_mem_replicate member) (by simp)
  | tail _ inTime ok ih => exact ⟨ih.1.step ok, ih.1.heard ih.2 inTime ok⟩

theorem quiet_locks (quiet : Quiet FileServer.step Own s) : ∀ k ∈ s.locks.threads, s.locks.Rests k := by
  refine FileLocks.quiet_iff.mp fun e l' own ok => ?_
  cases e with
  | thread t disk => exact quiet (.thread t disk) _ trivial (bind_eq_ok.mpr ⟨l', ok, rfl⟩)
  | call i call | wake i => exact own.elim

theorem InTurn.quiet_store (h : s.InTurn) (quiet : Quiet FileServer.step Own s)
    (there : s.threads[t]? = some (.store pc, k)) : held? (.store pc, k) = none := by
  obtain ⟨held, waited, phase⟩ := h.phase there
  obtain ⟨user, lock⟩ := mem_threads.mp there
  have rests := quiet_locks quiet k (List.mem_of_getElem? lock)
  have stops (s' : FileServer) : s.advance t true pc ≠ .ok s' := by
    intro ok
    refine quiet (.advance t true) s' trivial ?_
    simp only [FileServer.step, user, ok]
  cases phase with
  | idle | checking | waiting | parked | pushing | notifying | unlocked => rfl
  | locked => exact absurd (by simp only [advance, await, returned, lock]; rfl) (stops _)
  | opening => exact absurd rfl (stops _)
  | writing => exact absurd rfl (stops _)
  | unlocking => exact absurd (by simp only [advance, call, FileLocks.step, lock]; rfl) (stops _)
  | erasing => exact rests.elim

theorem InTurn.quiet_lost (h : s.InTurn) (quiet : Quiet FileServer.step Own s)
    (locked : f ∈ s.locks.files.wlockedFiles) : f ∈ s.lost := by
  have none_holds : s.threads.countP (holds f) = 0 := by
    rw [List.countP_eq_zero]
    rintro ⟨user, k⟩ member holding
    obtain ⟨t, there⟩ := List.mem_iff_getElem?.mp member
    have holding := of_decide_eq_true holding
    cases user with
    | server pc => contradiction
    | store pc => simp [h.quiet_store quiet there] at holding
  have counted := h.locked f
  have positive := List.count_pos_iff.mpr locked
  exact List.count_pos_iff.mp (by omega)

theorem InTurn.quiet_server (h : s.InTurn) (heard : s.locks.Heard) (quiet : Quiet FileServer.step Own s) :
    s.Idle ∨ s.GoesDown ∨ ∃ f ∈ s.lost, s.WaitsFor f := by
  obtain ⟨r, handler, k, -, there, serves⟩ := h.server
  obtain ⟨user, lock⟩ := mem_threads.mp there
  have rests := quiet_locks quiet k (List.mem_of_getElem? lock)
  have stops (s' : FileServer) : s.resume ≠ .ok s' := quiet .resume s' trivial
  simp only [resume, user, returned, lock] at stops
  cases serves with
  | idle => exact .inl user
  | @waiting i received w request _ _ _ _ waits =>
      cases waits with
      | check | wait | register => exact rests.elim
      | parked =>
          right
          right
          have locked : request.fileName ∈ s.locks.files.wlockedFiles := by
            rcases heard with pending | readers
            · exact (quiet_locks quiet _ pending).elim
            · exact readers _ (List.mem_of_getElem? lock)
          exact ⟨_, h.quiet_lost quiet locked, i, w, request, _, there, by simp⟩
  | @opened i received w request =>
      right
      left
      cases read : s.locks.files.getSegment request.fileName request.segment w.sendData
          (requestedSegmentSize request.fileSize request.segment).toNat with
      | ok result => exact absurd (by simp only [read]; rfl) (stops _)
      | error f =>
          refine ⟨.resume, f, trivial, ?_⟩
          simp only [FileServer.step, resume, user, returned, lock, read]
          rfl
  | @unlocking i received w f =>
      have stuck : s.locks.files.readUnlock f = .error .outOfBounds := rests
      refine .inr (.inl ⟨.thread serverThread none, .outOfBounds, trivial, ?_⟩)
      simp only [FileServer.step, FileLocks.step, lock, FileLocks.advance, stuck]
      rfl
  | unlocked => exact absurd rfl (stops _)

/-- Without clients and new downloads, handlers and stores come to an end within so many steps of all
threads. Where nothing can go on then, and the server was notified in time, its handler is done or has
gone down, or it waits for a file that could not be opened when it was to be stored. -/
theorem reach_handler_ends (run : Reach step Anything (start stores) s) :
    (∀ (events : List Event) (s' : FileServer), (∀ e ∈ events, Own e) → events.foldlM step s = .ok s' →
      events.length ≤ 10 * s.users.length ^ 2 + 11 * s.users.length) ∧
    (Reach step WaitsInTime (start stores) s → Quiet step Own s →
      s.Idle ∨ s.GoesDown ∨ ∃ f ∈ s.lost, s.WaitsFor f) := by
  have inTurn := reach_inTurn run
  refine ⟨fun events s' own ok => ?_, fun inTime => inTurn.quiet_server (reach_heard inTime).2⟩
  obtain ⟨bound, -⟩ := decreases.length_le inTurn own ok
  have most : s.stepsLeft ≤ _ := Threads.weight_le rank_le s.threads
  have length : s.threads.length = s.users.length := by
    rw [FileServer.threads, List.length_zip, inTurn.paired, Nat.min_self]
  have square : s.users.length * (s.users.length * 10 + 1) + s.users.length * 10 =
      10 * s.users.length ^ 2 + 11 * s.users.length := by ring
  rw [length, square] at most
  omega

/-- The server waits for a file that is being written. -/
theorem written_handler_ends : ∃ s : FileServer,
    s.locks.threads = [.readParked [97], .outside false] ∧ s.lost = [] ∧
    (∀ (events : List Event) (s' : FileServer), (∀ e ∈ events, Own e) → events.foldlM step s = .ok s' →
      events.length ≤ 62) ∧
    (Quiet step Own s → s.Idle ∨ s.GoesDown ∨ ∃ f ∈ s.lost, s.WaitsFor f) := by
  obtain ⟨s, run, waits⟩ := exists_reach_of_exec step WaitsInTime (start 1)
    [.store 1 [97], .thread 1 none, .thread 1 none, .advance 1 true, .accept (.zeros _) (.zeros _),
      .read 0 RequestServer.requestA, .thread 0 none, .thread 0 none, .advance 1 true]
    (fun s => s.locks.threads = [.readParked [97], .outside false] ∧ s.users.length = 2 ∧ s.lost = [])
    (by decide +kernel)
  obtain ⟨parked, two, opened⟩ := of_decide_eq_true waits
  obtain ⟨bound, ends⟩ := reach_handler_ends (run.mono fun _ _ _ => trivial)
  rw [two] at bound
  exact ⟨s, parked, opened, bound, ends run⟩

/-! ## A file that could not be opened -/

theorem InTurn.lost_locked (h : s.InTurn) (lost : f ∈ s.lost) : f ∈ s.locks.files.wlockedFiles := by
  have positive := List.count_pos_iff.mpr lost
  have counted := h.locked f
  exact List.count_pos_iff.mp (by omega)

theorem WaitsFor.of_thread {i : Nat} {w : RequestWorker} {request : SegmentRequest}
    (there : s.threads[serverThread]? = some (.server (.serving i w request), k))
    (waits : k ∈ [LockPc.readCheck f, .readWait f, .readParked f])
    (kept : s'.threads[serverThread]? = s.threads[serverThread]?) : s'.WaitsFor f :=
  ⟨i, w, request, k, kept.trans there, waits⟩

theorem awaits_wake (waits : k ∈ [LockPc.readCheck f, .readWait f, .readParked f]) :
    k.wake ∈ [LockPc.readCheck f, .readWait f, .readParked f] := by
  simp only [List.mem_cons, List.not_mem_nil, or_false] at waits
  rcases waits with rfl | rfl | rfl <;> simp [LockPc.wake]

theorem awaits_advance (locked : f ∈ l.files.wlockedFiles)
    (waits : k ∈ [LockPc.readCheck f, .readWait f, .readParked f])
    (moved : l.advance t disk k = .ok l') :
    ∃ k' ∈ [LockPc.readCheck f, .readWait f, .readParked f], l' = l.goto t k' := by
  simp only [List.mem_cons, List.not_mem_nil, or_false] at waits
  rcases waits with rfl | rfl | rfl
  · simp only [FileLocks.advance, locked, if_true] at moved
    split at moved
    · contradiction
    · exact ⟨.readWait f, by simp, (Except.ok.inj moved).symm⟩
  · exact ⟨.readParked f, by simp, (Except.ok.inj moved).symm⟩
  · contradiction

theorem InTurn.waits_thread (h : s.InTurn) (lost : f ∈ s.lost) (waits : s.WaitsFor f)
    (moved : s.locks.step (.thread t disk) = .ok l') : WaitsFor { s with locks := l' } f := by
  obtain ⟨i, w, request, k, there, member⟩ := waits
  obtain ⟨user, lock⟩ := mem_threads.mp there
  obtain ⟨inside, -⟩ := List.getElem?_eq_some_iff.mp lock
  obtain ⟨k₀, at_t, advanced⟩ := FileLocks.thread_pc moved
  by_cases own : t = serverThread
  · subst own
    obtain rfl := Option.some.inj (lock.symm.trans at_t)
    obtain ⟨k', next, rfl⟩ := awaits_advance (h.lost_locked lost) member advanced
    exact ⟨i, w, request, k', mem_threads.mpr ⟨user, by simp [inside]⟩, next⟩
  · rcases lock_move (FileLocks.step_move moved) at_t with ⟨k', set, -, -⟩ | ⟨-, woken⟩
    · refine ⟨i, w, request, k, mem_threads.mpr ⟨user, ?_⟩, member⟩
      rw [set, List.getElem?_set_ne own, lock]
    · refine ⟨i, w, request, k.wake, mem_threads.mpr ⟨user, ?_⟩, ?_⟩
      · rw [woken, List.getElem?_set_ne own, List.getElem?_map, lock]
        rfl
      · exact awaits_wake member

theorem waits_wake (waits : s.WaitsFor f) (moved : s.locks.step (.wake t) = .ok l') :
    WaitsFor { s with locks := l' } f := by
  obtain ⟨i, w, request, k, there, member⟩ := waits
  obtain ⟨user, lock⟩ := mem_threads.mp there
  cases FileLocks.step_move moved with
  | @wake _ k₀ at_t =>
      by_cases own : t = serverThread
      · subst own
        obtain rfl := Option.some.inj (lock.symm.trans at_t)
        obtain ⟨inside, -⟩ := List.getElem?_eq_some_iff.mp lock
        exact ⟨i, w, request, k.wake, mem_threads.mpr ⟨user, by simp [inside]⟩, awaits_wake member⟩
      · refine ⟨i, w, request, k, mem_threads.mpr ⟨user, ?_⟩, member⟩
        rw [FileLocks.goto_threads, List.getElem?_set_ne own, lock]

theorem InTurn.waits_step (h : s.InTurn) (lost : f ∈ s.lost) (waits : s.WaitsFor f) {e : Event}
    (ok : s.step e = .ok s') : f ∈ s'.lost ∧ s'.WaitsFor f ∧ s'.workers = s.workers := by
  have waiting := waits
  obtain ⟨i, w, request, k, there, member⟩ := waits
  obtain ⟨user, lock⟩ := mem_threads.mp there
  have other {t : Nat} {pc : StorePc} {k : LockPc} (store : s.threads[t]? = some (.store pc, k)) :
      t ≠ serverThread := by
    rintro rfl
    simp [there] at store
  cases step_move h.paired ok with
  | session _ idle _ | ignore idle _ _ => simp [user] at idle
  | serve idle _ _ | quit idle _ _ => simp [there] at idle
  | served back _ | left back =>
      simp only [there, Option.some.injEq, Prod.mk.injEq] at back
      simp [back.2] at member
  | store at_t | unlock at_t =>
      refine ⟨lost, .of_thread there member ?_, rfl⟩
      rw [FileServer.threads, FileLocks.goto_threads, Threads.zip_set]
      exact List.getElem?_set_ne (other at_t)
  | pass at_t _ =>
      refine ⟨lost, .of_thread there member ?_, rfl⟩
      exact (congrArg (·[serverThread]?) (Threads.zip_set_left at_t _)).trans
        (List.getElem?_set_ne (other at_t))
  | fail at_t =>
      refine ⟨List.mem_append_left _ lost, .of_thread there member ?_, rfl⟩
      exact (congrArg (·[serverThread]?) (Threads.zip_set_left at_t _)).trans
        (List.getElem?_set_ne (other at_t))
  | thread moved => exact ⟨lost, h.waits_thread lost waiting moved, rfl⟩
  | wake moved => exact ⟨lost, waits_wake waiting moved, rfl⟩

theorem reach_stopped (run : Reach step Anything (start stores) s) (lost : f ∈ s.lost)
    (waits : s.WaitsFor f) (later : Reach step Anything s s') :
    s'.WaitsFor f ∧ s'.workers = s.workers := by
  have all : s'.InTurn ∧ f ∈ s'.lost ∧ s'.WaitsFor f ∧ s'.workers = s.workers := by
    induction later with
    | refl => exact ⟨reach_inTurn run, lost, waits, rfl⟩
    | tail _ _ ok ih =>
        obtain ⟨inTurn, lost, waits, same⟩ := ih
        obtain ⟨lost', waits', same'⟩ := inTurn.waits_step lost waits ok
        exact ⟨inTurn.step ok, lost', waits', same'.trans same⟩
  exact ⟨all.2.2.1, all.2.2.2⟩

theorem InTurn.waitsFor (h : s.InTurn)
    (parked : s.locks.threads[serverThread]? = some (.readParked f)) : s.WaitsFor f := by
  obtain ⟨r, handler, k, -, there, serves⟩ := h.server
  obtain rfl := Option.some.inj ((mem_threads.mp there).2.symm.trans parked)
  cases serves with
  | waiting _ _ _ waits =>
      cases waits
      exact ⟨_, _, _, _, there, by simp⟩

/-- The file is stored again, with success and a notification. -/
theorem notified_stopped : ∃ s s' : FileServer,
    s.locks.threads[serverThread]? = some (.readParked [97]) ∧
    s'.locks.threads[serverThread]? = some (.readWait [97]) ∧ Reach step Anything s s' ∧
    s'.WaitsFor [97] ∧ s'.workers = s.workers := by
  let again : List Event := [.store 1 [97], .thread 1 none, .thread 1 none, .advance 1 true,
    .advance 1 true, .advance 1 true, .advance 1 true, .thread 1 none, .thread 1 none, .thread 0 none]
  obtain ⟨s, run, lost⟩ := exists_reach_of_exec step Anything (start 1)
    [.store 1 [97], .thread 1 none, .thread 1 none, .advance 1 true, .advance 1 false,
      .accept (.zeros _) (.zeros _), .read 0 RequestServer.requestA, .thread 0 none, .thread 0 none]
    (fun s => [97] ∈ s.lost ∧ s.locks.threads[serverThread]? = some (.readParked [97]) ∧
      (exec step Anything s again).any fun s' =>
        s'.locks.threads[serverThread]? = some (.readWait [97])) (by decide +kernel)
  obtain ⟨lost, parked, ended⟩ := of_decide_eq_true lost
  obtain ⟨s', later, waits⟩ := exists_reach_of_exec step Anything s again _ ended
  have waiting := (reach_inTurn run).waitsFor parked
  exact ⟨s, s', parked, of_decide_eq_true waits, later, reach_stopped run lost waiting later⟩

end FileServer

end SimpleP2P
