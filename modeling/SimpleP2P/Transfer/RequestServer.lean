import SimpleP2P.Transfer.Connection
import SimpleP2P.Transfer.Reply

namespace SimpleP2P
open Library

namespace FileManager

def servable (m : FileManager) (request : SegmentRequest) (disk : Option Bytes) : Bool :=
  (m.register request.fileName disk).2.readable request.fileName request.segment
    (requestedSegmentSize request.fileSize request.segment).toNat

end FileManager

structure RequestWorker where
  recvData : RecvData
  sendData : Buffer segmentSize
  pending : Pending := .reading
  /-- The files it has read-locked with success and not released by a quit. -/
  held : List FileName := []
  deriving DecidableEq

namespace RequestWorker

def live (w : RequestWorker) : Bool := w.pending ≠ .deleted

def holds (w : RequestWorker) (fileName : FileName) : Prop := w.live = true ∧ fileName ∈ w.held

instance (w : RequestWorker) (fileName : FileName) : Decidable (w.holds fileName) :=
  inferInstanceAs (Decidable (w.live = true ∧ fileName ∈ w.held))

def lockedAfter (w : RequestWorker) (m : FileManager) (fileName : FileName)
    (disk : Option Bytes) : List FileName :=
  if (m.register fileName disk).1 then w.held.insert fileName else w.held

/-- `handle_read` without an error; `disk` is the content of the file it may open. -/
def handleRead (w : RequestWorker) (m : FileManager) (disk : Option Bytes) :
    Except Fault (RequestWorker × FileManager) :=
  match SimpleP2P.handleRead w.recvData with
  | .answer request => do
      let held := w.lockedAfter m request.fileName disk
      let (ok, m, sendData) ← m.serve request disk w.sendData
      return ({ w with sendData, held, pending := if ok then .writing else .deleted }, m)
  | .quit fileName => do
      let m ← m.readUnlock fileName
      return ({ w with held := w.held.filter (· ≠ fileName), pending := .deleted }, m)
  | .nothing => .ok ({ w with pending := .nothing }, m)

end RequestWorker

structure RequestServer where
  files : FileManager := {}
  workers : List RequestWorker := []
  deriving DecidableEq

namespace RequestServer

inductive Event
  /-- A client connects; the buffers of its worker hold anything. -/
  | accept (recvData : RecvData) (sendData : Buffer segmentSize)
  | read (i : Nat) (received : Bytes) (disk : Option Bytes)
  | readError (i : Nat)
  | written (i : Nat) (ok : Bool)
  deriving DecidableEq

def step (s : RequestServer) : Event → Except Halt RequestServer
  | .accept recvData sendData => .ok { s with workers := s.workers ++ [{ recvData, sendData }] }
  | .read i received disk =>
      match s.workers[i]? with
      | some w =>
          if fits : w.pending = .reading ∧ received ≠ [] ∧ received.length ≤ maxRecvDataLength then do
            let w := { w with recvData := w.recvData.receive received fits.2.2 }
            let (w, files) ← (w.handleRead s.files disk).mapError .fault
            return { files, workers := s.workers.set i w }
          else .error .blocked
      | none => .error .blocked
  | .readError i =>
      match s.workers[i]? with
      | some w =>
          if w.pending = .reading then
            .ok { s with workers := s.workers.set i { w with pending := .deleted } }
          else .error .blocked
      | none => .error .blocked
  | .written i ok =>
      match s.workers[i]? with
      | some w =>
          if w.pending = .writing then
            .ok { s with workers :=
              s.workers.set i { w with pending := if ok then .reading else .deleted } }
          else .error .blocked
      | none => .error .blocked

def LocksHeld (s : RequestServer) : Prop :=
  ∀ f, f ∈ s.files.readNames ↔ ∃ w ∈ s.workers, w.holds f

def HeldByOther (s : RequestServer) (i : Nat) (f : FileName) : Prop :=
  ∃ j < s.workers.length, j ≠ i ∧ ∃ w ∈ s.workers[j]?, w.holds f

instance (s : RequestServer) (i : Nat) (f : FileName) : Decidable (s.HeldByOther i f) :=
  inferInstanceAs (Decidable (∃ j < s.workers.length, j ≠ i ∧ ∃ w ∈ s.workers[j]?, w.holds f))

def AllHeldByOthers (s : RequestServer) (i : Nat) (fileNames : List FileName) : Prop :=
  ∀ f ∈ fileNames, s.HeldByOther i f

instance (s : RequestServer) (i : Nat) (fileNames : List FileName) :
    Decidable (s.AllHeldByOthers i fileNames) :=
  inferInstanceAs (Decidable (∀ f ∈ fileNames, s.HeldByOther i f))

/-- The condition on one reaction of worker `i`: where it deletes itself, other live workers hold all
that it holds, and where it quits they do not hold the file that is unlocked. -/
def ReactsRightly (s : RequestServer) (i : Nat) (w : RequestWorker) (disk : Option Bytes) :
    Reaction → Prop
  | .answer request => s.files.servable request disk = true ∨
      s.AllHeldByOthers i (w.lockedAfter s.files request.fileName disk)
  | .quit f => ¬s.HeldByOther i f ∧ s.AllHeldByOthers i (w.held.filter (· ≠ f))
  | .nothing => True

instance (s : RequestServer) (i : Nat) (w : RequestWorker) (disk : Option Bytes) :
    (r : Reaction) → Decidable (s.ReactsRightly i w disk r)
  | .answer request => inferInstanceAs (Decidable (s.files.servable request disk = true ∨
      s.AllHeldByOthers i (w.lockedAfter s.files request.fileName disk)))
  | .quit f => inferInstanceAs (Decidable
      (¬s.HeldByOther i f ∧ s.AllHeldByOthers i (w.held.filter (· ≠ f))))
  | .nothing => .isTrue trivial

def ReleasesRightly (s : RequestServer) : Event → Prop
  | .accept _ _ => True
  | .read i received disk => ∀ w ∈ s.workers[i]?, ∀ fits : received.length ≤ maxRecvDataLength,
      s.ReactsRightly i w disk (handleRead (w.recvData.receive received fits))
  | .readError i => ∀ w ∈ s.workers[i]?, s.AllHeldByOthers i w.held
  | .written i ok => ok = true ∨ ∀ w ∈ s.workers[i]?, s.AllHeldByOthers i w.held

instance (s : RequestServer) : (e : Event) → Decidable (s.ReleasesRightly e)
  | .accept _ _ => .isTrue trivial
  | .read i received disk => inferInstanceAs (Decidable (∀ w ∈ s.workers[i]?,
      ∀ fits : received.length ≤ maxRecvDataLength,
        s.ReactsRightly i w disk (handleRead (w.recvData.receive received fits))))
  | .readError i => inferInstanceAs (Decidable (∀ w ∈ s.workers[i]?, s.AllHeldByOthers i w.held))
  | .written i ok => inferInstanceAs (Decidable
      (ok = true ∨ ∀ w ∈ s.workers[i]?, s.AllHeldByOthers i w.held))

def Event.received : Event → Option Bytes
  | .read _ received _ => some received
  | _ => none

def ValidInput (_ : RequestServer) (e : Event) : Prop :=
  ∀ received ∈ e.received, (∃ (r : Resource) (id : SegmentId), r.WellNamed ∧
    id < r.calcSegmentsCount ∧ serializeSegmentRequest r id = .ok received) ∨
      received.head? = some quitConn

end RequestServer

variable {m m' : FileManager} {disk : Option Bytes}

namespace RequestWorker

variable {w w' : RequestWorker}

theorem mem_lockedAfter {fileName f : FileName} : f ∈ w.lockedAfter m fileName disk ↔
    f ∈ w.held ∨ (m.register fileName disk).1 = true ∧ f = fileName := by
  unfold lockedAfter
  split <;> simp_all [or_comm]

theorem handleRead_cases (nodup : m.readNames.Nodup) (h : w.handleRead m disk = .ok (w', m')) :
    match SimpleP2P.handleRead w.recvData with
    | .answer request => w'.live = m.servable request disk ∧
        w'.held = w.lockedAfter m request.fileName disk ∧ ∀ f, f ∈ m'.readNames ↔
          f ∈ m.readNames ∨ (m.register request.fileName disk).1 = true ∧ f = request.fileName
    | .quit fileName => w'.live = false ∧
        ∀ f, f ∈ m'.readNames ↔ f ∈ m.readNames ∧ f ≠ fileName
    | .nothing => w'.live = true ∧ w'.held = w.held ∧ m' = m := by
  unfold handleRead at h
  split at h
  · rename_i request asked
    obtain ⟨⟨ok, m'', sendData⟩, served, eq⟩ := bind_eq_ok.mp h
    obtain ⟨rfl, rfl⟩ := Prod.mk.inj (Except.ok.inj eq)
    have same := FileManager.getSegment_readNames served
    refine ⟨?_, rfl, fun f => by rw [same, FileManager.mem_register]⟩
    rw [FileManager.servable, ← FileManager.getSegment_fst served]
    cases ok <;> rfl
  · rename_i fileName asked
    obtain ⟨m'', unlocked, eq⟩ := bind_eq_ok.mp h
    obtain ⟨rfl, rfl⟩ := Prod.mk.inj (Except.ok.inj eq)
    refine ⟨rfl, fun f => ?_⟩
    rw [FileManager.readUnlock_of_nodup nodup unlocked]
    simp
  · rename_i asked
    obtain ⟨rfl, rfl⟩ := Prod.mk.inj (Except.ok.inj h)
    exact ⟨rfl, rfl, rfl⟩

theorem handleRead_nodup (nodup : m.readNames.Nodup) (h : w.handleRead m disk = .ok (w', m')) :
    m'.readNames.Nodup := by
  unfold handleRead at h
  split at h
  · rename_i request asked
    obtain ⟨⟨ok, m'', sendData⟩, served, eq⟩ := bind_eq_ok.mp h
    obtain ⟨rfl, rfl⟩ := Prod.mk.inj (Except.ok.inj eq)
    rw [FileManager.getSegment_readNames served]
    exact FileManager.register_nodup nodup _ _
  · obtain ⟨m'', unlocked, eq⟩ := bind_eq_ok.mp h
    obtain ⟨rfl, rfl⟩ := Prod.mk.inj (Except.ok.inj eq)
    rw [FileManager.readUnlock_of_nodup nodup unlocked]
    exact nodup.filter _
  · obtain ⟨rfl, rfl⟩ := Prod.mk.inj (Except.ok.inj h)
    exact nodup

end RequestWorker

namespace RequestServer

variable {s s' : RequestServer} {i : Nat} {w w' : RequestWorker}

theorem heldByOther_iff {f : FileName} :
    s.HeldByOther i f ↔ ∃ j w, j ≠ i ∧ s.workers[j]? = some w ∧ w.holds f := by
  constructor
  · rintro ⟨j, -, other, w, there, holds⟩
    exact ⟨j, w, other, Option.mem_def.mp there, holds⟩
  · rintro ⟨j, w, other, there, holds⟩
    obtain ⟨inside, -⟩ := List.getElem?_eq_some_iff.mp there
    exact ⟨j, inside, other, w, there, holds⟩

theorem LocksHeld.iff (h : s.LocksHeld) (there : s.workers[i]? = some w) (f : FileName) :
    f ∈ s.files.readNames ↔ w.holds f ∨ s.HeldByOther i f := by
  rw [h f, Threads.exists_iff there, heldByOther_iff]

theorem locksHeld_set {files : FileManager} (there : s.workers[i]? = some w) :
    ({ files, workers := s.workers.set i w' } : RequestServer).LocksHeld ↔
      ∀ f, f ∈ files.readNames ↔ w'.holds f ∨ s.HeldByOther i f := by
  obtain ⟨inside, -⟩ := List.getElem?_eq_some_iff.mp there
  refine forall_congr' fun f => ?_
  rw [Threads.exists_set_iff inside, ← heldByOther_iff]

theorem locksHeld_locked_iff (h : s.LocksHeld) (there : s.workers[i]? = some w)
    (live : w.live = true) (Locked : FileName → Prop) {files : FileManager}
    (names : ∀ f, f ∈ files.readNames ↔ f ∈ s.files.readNames ∨ Locked f)
    (held : ∀ f, f ∈ w'.held ↔ f ∈ w.held ∨ Locked f) :
    ({ files, workers := s.workers.set i w' } : RequestServer).LocksHeld ↔
      w'.live = true ∨ s.AllHeldByOthers i w'.held := by
  have before : ∀ f, f ∈ files.readNames ↔ f ∈ w'.held ∨ s.HeldByOther i f := by
    intro f
    rw [names, h.iff there, held, RequestWorker.holds, and_iff_right live]
    tauto
  rw [locksHeld_set there]
  cases lives : w'.live with
  | true => simp [RequestWorker.holds, lives, before]
  | false =>
      simp only [RequestWorker.holds, lives, before, Bool.false_eq_true, false_and, false_or,
        or_iff_right_iff_imp]
      exact Iff.rfl

theorem locksHeld_unlocked_iff (h : s.LocksHeld) (there : s.workers[i]? = some w)
    (live : w.live = true) (gone : w'.live = false) {files : FileManager} {fileName : FileName}
    (names : ∀ f, f ∈ files.readNames ↔ f ∈ s.files.readNames ∧ f ≠ fileName) :
    ({ files, workers := s.workers.set i w' } : RequestServer).LocksHeld ↔
      ¬s.HeldByOther i fileName ∧ s.AllHeldByOthers i (w.held.filter (· ≠ fileName)) := by
  rw [locksHeld_set there]
  have before : ∀ f, f ∈ files.readNames ↔
      (f ∈ w.held ∨ s.HeldByOther i f) ∧ f ≠ fileName := by
    intro f
    rw [names, h.iff there, RequestWorker.holds, and_iff_right live]
  have after : ∀ f, ¬w'.holds f := fun f holds => by simp [RequestWorker.holds, gone] at holds
  simp only [before, after, false_or]
  constructor
  · intro same
    refine ⟨fun other => ((same fileName).mpr other).2 rfl, fun f member => ?_⟩
    obtain ⟨held, different⟩ := List.mem_filter.mp member
    exact (same f).mp ⟨.inl held, by simpa using different⟩
  · rintro ⟨free, others⟩ f
    constructor
    · rintro ⟨held | other, different⟩
      · exact others f (List.mem_filter.mpr ⟨held, by simpa using different⟩)
      · exact other
    · intro other
      exact ⟨.inr other, fun same => free (same ▸ other)⟩

inductive Move (s : RequestServer) : Event → RequestServer → Prop
  | accept {recvData : RecvData} {sendData : Buffer segmentSize} : Move s (.accept recvData sendData)
      { s with workers := s.workers ++ [{ recvData, sendData }] }
  | read {i : Nat} {received : Bytes} {disk : Option Bytes} {w w' : RequestWorker}
      {files : FileManager} : s.workers[i]? = some w → w.pending = .reading → received ≠ [] →
      ∀ fits : received.length ≤ maxRecvDataLength,
      { w with recvData := w.recvData.receive received fits }.handleRead s.files disk =
        .ok (w', files) → Move s (.read i received disk) { files, workers := s.workers.set i w' }
  | readError {i : Nat} {w : RequestWorker} : s.workers[i]? = some w → w.pending = .reading →
      Move s (.readError i) { s with workers := s.workers.set i { w with pending := .deleted } }
  | written {i : Nat} {ok : Bool} {w : RequestWorker} : s.workers[i]? = some w →
      w.pending = .writing → Move s (.written i ok) { s with
        workers := s.workers.set i { w with pending := if ok then .reading else .deleted } }

theorem step_move {e : Event} (ok : s.step e = .ok s') : Move s e s' := by
  cases e with
  | accept recvData sendData => exact Except.ok.inj ok ▸ .accept
  | read i received disk =>
      simp only [step] at ok
      split at ok
      · rename_i w there
        split at ok
        · rename_i fits
          obtain ⟨⟨w', files⟩, handled, eq⟩ := bind_eq_ok.mp ok
          obtain rfl := Except.ok.inj eq
          exact .read there fits.1 fits.2.1 fits.2.2 (mapError_ok.mp handled)
        · contradiction
      · contradiction
  | readError i =>
      simp only [step] at ok
      split at ok
      · rename_i w there
        split at ok
        · rename_i reading
          exact Except.ok.inj ok ▸ .readError there reading
        · contradiction
      · contradiction
  | written i done =>
      simp only [step] at ok
      split at ok
      · rename_i w there
        split at ok
        · rename_i writing
          exact Except.ok.inj ok ▸ .written there writing
        · contradiction
      · contradiction

theorem live_of_pending {pending : Pending} (there : w.pending = pending)
    (alive : pending ≠ .deleted) : w.live = true := by
  rw [RequestWorker.live, there]
  simpa using alive

theorem step_locksHeld_iff (h : s.LocksHeld) (nodup : s.files.readNames.Nodup) {e : Event}
    (ok : s.step e = .ok s') : s'.LocksHeld ↔ s.ReleasesRightly e := by
  cases step_move ok with
  | accept =>
      refine iff_of_true (fun f => ?_) trivial
      rw [h f]
      simp [RequestWorker.holds, or_and_right, exists_or]
  | @read i received disk w w' files there reading _ fits handled =>
      have live := live_of_pending reading (by simp)
      have effect := RequestWorker.handleRead_cases nodup handled
      have condition : s.ReleasesRightly (.read i received disk) ↔ s.ReactsRightly i w disk
          (SimpleP2P.handleRead (w.recvData.receive received fits)) := by
        simp [ReleasesRightly, there, fits]
      rw [condition]
      cases reaction : SimpleP2P.handleRead (w.recvData.receive received fits) with
      | answer request =>
          simp only [reaction] at effect
          obtain ⟨lives, held, names⟩ := effect
          rw [locksHeld_locked_iff h there live _ names
            (fun f => by rw [held, RequestWorker.mem_lockedAfter]), lives, held]
          rfl
      | quit fileName =>
          simp only [reaction] at effect
          obtain ⟨gone, names⟩ := effect
          exact locksHeld_unlocked_iff h there live gone names
      | nothing =>
          simp only [reaction] at effect
          obtain ⟨lives, held, rfl⟩ := effect
          rw [locksHeld_locked_iff h there live (fun _ => False) (by simp) (by simp [held])]
          exact iff_of_true (.inl lives) trivial
  | readError there reading =>
      rw [locksHeld_locked_iff h there (live_of_pending reading (by simp)) (fun _ => False)
        (by simp) (by simp)]
      simp [RequestWorker.live, ReleasesRightly, there]
  | @written i done w there writing =>
      rw [locksHeld_locked_iff h there (live_of_pending writing (by simp)) (fun _ => False)
        (by simp) (by simp)]
      cases done <;> simp [RequestWorker.live, ReleasesRightly, there]

theorem step_nodup (nodup : s.files.readNames.Nodup) {e : Event} (ok : s.step e = .ok s') :
    s'.files.readNames.Nodup := by
  cases step_move ok with
  | read _ _ _ _ handled => exact RequestWorker.handleRead_nodup nodup handled
  | accept | readError | written => exact nodup

theorem reach_locksHeld (h : Reach step ReleasesRightly {} s) : s.LocksHeld := by
  have nodup : ∀ {s : RequestServer}, Reach step ReleasesRightly {} s → s.files.readNames.Nodup :=
    fun reached => reached.invariant List.nodup_nil fun _ _ _ nodup _ ok => step_nodup nodup ok
  induction h with
  | refl => exact fun f => by simp [FileManager.readNames]
  | tail before rightly ok ih => exact (step_locksHeld_iff ih (nodup before) ok).mpr rightly

/-- The whole request for segment 0 of `"a"`, a file of three bytes. -/
def requestA : Bytes :=
  reqSegment :: ([97] ++ List.replicate 255 0 ++ BigEndian.bytesOf 8 3 ++ BigEndian.bytesOf 2 0)

theorem shared_locksHeld : ∃ s : RequestServer, [97] ∈ s.files.readNames ∧ s.LocksHeld := by
  obtain ⟨s, run, locked⟩ := exists_reach_of_exec step ReleasesRightly {}
    [.accept (.zeros _) (.zeros _), .accept (.zeros _) (.zeros _),
      .read 0 requestA (some [1, 2, 3]), .read 1 requestA (some [1, 2, 3]), .written 0 false]
    (fun s => [97] ∈ s.files.readNames) (by decide +kernel)
  exact ⟨s, of_decide_eq_true locked, reach_locksHeld run⟩

/-- The client goes when it has its segment, and the file stays locked. -/
theorem locksHeld_fails : ¬∀ s : RequestServer, Reach step ValidInput {} s → s.LocksHeld := by
  intro claim
  obtain ⟨s, run, leaked⟩ := exists_reach_of_exec step
    (fun _ e => ∀ received ∈ e.received, received = requestA) {}
    [.accept (.zeros _) (.zeros _), .read 0 requestA (some [1, 2, 3]), .written 0 true, .readError 0]
    (fun s => [97] ∈ s.files.readNames ∧ ∀ w ∈ s.workers, ¬w.holds [97]) (by decide +kernel)
  obtain ⟨locked, unheld⟩ := of_decide_eq_true leaked
  have valid : ∀ (s : RequestServer) (e : Event),
      (∀ received ∈ e.received, received = requestA) → s.ValidInput e := by
    intro _ e own received member
    refine .inl ⟨{ size := 3, name := [97] }, 0, by decide, by decide, ?_⟩
    rw [own received member]
    exact Resource.WellNamed.serialized (by decide) 0
  obtain ⟨w, member, holds⟩ := (claim s (run.mono valid) [97]).mp locked
  exact unheld w member holds

end RequestServer

end SimpleP2P
