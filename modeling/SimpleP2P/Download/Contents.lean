import SimpleP2P.Download.Counter
import SimpleP2P.Download.Phases
import SimpleP2P.Library.Filling
import SimpleP2P.Transfer.Reply

namespace SimpleP2P
open Library

namespace DownloadWorker

variable {w w' : DownloadWorker} {segment : Segment}

theorem advance_receiving {completed : Bool} {delays : HostDelays} {choice : Choice}
    (h : w.advance completed delays choice = .ok w') (reading : w'.receiving? = some segment) :
    w.receiving? = none := by
  cases pc : w.pc with
  | receiving s =>
      simp only [advance, pc, Except.ok.injEq] at h
      subst h
      cases io : choice.io <;> simp [receiving?, io] at reading
  | _ => simp [receiving?, pc]

theorem advance_received {completed : Bool} {delays : HostDelays} {choice : Choice}
    (h : w.advance completed delays choice = .ok w') (stored : w'.phase = .received segment) :
    w.phase = .received segment ∨ w.receiving? = some segment ∧ choice.io = true := by
  rcases advance_phase h with ⟨same, -, -⟩ | ⟨s, ⟨-, requested, -⟩ | ⟨requested, ended, -, outcome⟩⟩
  · exact .inl (same ▸ stored)
  · simp [requested] at stored
  · rcases outcome with ⟨io, received⟩ | ⟨io, failed⟩
    · obtain rfl := Phase.received.inj (received.symm.trans stored)
      refine .inr ⟨?_, io⟩
      cases pc : w.pc with
      | receiving t =>
          simp only [phase, pc, Phase.requested.injEq] at requested
          rw [receiving?_eq_some, pc, requested]
      | _ => simp [ends, pc, io] at ended
    · simp [failed] at stored

end DownloadWorker

namespace Download

variable {d d' : Download} {e : Event} {i : Nat} {w w' : DownloadWorker}

theorem step_completed (ok : d.step e = .ok d') {id : Nat}
    (set : d'.complete.completedSegments[id]? = some true) :
    d.complete.completedSegments[id]? = some true ∨ ∃ (i : Nat) (w : DownloadWorker) (segment : Segment),
      d.workers[i]? = some w ∧ w.phase = .received segment ∧ segment.id.toNat = id := by
  cases step_move ok with
  | take acting pc taken =>
      obtain ⟨id, -, -, -, -, rfl⟩ := CompleteResource.takeSegment_some taken
      exact .inl set
  | @complete j choice v segment next acting pc completing =>
      obtain ⟨inside, same⟩ := CompleteResource.setSegment_ok.mp (setSegment_complete completing)
      rw [update_complete, same] at set
      by_cases here : segment.id.toNat = id
      · exact .inr ⟨j, v, segment, acting, by simp [DownloadWorker.phase, pc], here⟩
      · simp only [Vector.getElem?_set_ne _ here] at set
        exact .inl set
  | fail acting pc unset =>
      obtain ⟨inside, same⟩ := CompleteResource.unsetBusy_ok.mp (unsetBusy_complete unset)
      rw [update_complete, same] at set
      exact .inl set
  | @release i id choice next pc unset =>
      obtain ⟨inside, same⟩ := CompleteResource.unsetBusy_ok.mp (unsetBusy_complete unset)
      change next.complete.completedSegments[_]? = _ at set
      rw [same] at set
      exact .inl set
  | _ => exact .inl set

end Download

/-! ## The data -/

/-- `received` is how many bytes of the present reply each worker has read. -/
structure Contents where
  download : Download
  data : Bytes
  received : Nat → Nat := fun _ => 0

namespace Contents

inductive Event
  | step (e : Download.Event)
  /-- Some more bytes of a reply arrive on the socket of a worker. -/
  | arrive (i : Nat) (bytes : Bytes)
  deriving DecidableEq, Repr

/-- The data is not initialized. -/
def start (resource : Resource) (possessors : List HostPtr) (delays : HostPtr → HostDelays)
    (data : Bytes) : Contents where
  download := .start resource possessors delays
  data := data

def receiving? (s : Contents) (i : Nat) : Option Segment :=
  s.download.workers[i]?.bind DownloadWorker.receiving?

/-- `boost::asio::read` ends without an error only when the whole segment is there. -/
def ended (s : Contents) : Download.Event → Except Halt (Nat → Nat)
  | .worker i choice =>
      if (s.receiving? i).isSome then
        if choice.io && s.received i != segmentSize then .error .blocked
        else .ok (Function.update s.received i 0)
      else .ok s.received
  | _ => .ok s.received

def arrive (s : Contents) (i : Nat) (bytes : Bytes) : Except Halt Contents :=
  match s.receiving? i with
  | some segment =>
      if s.received i + bytes.length ≤ segmentSize then
        match segment.data with
        | some address => do
            let data ← (memcpy s.data (address + s.received i) bytes).mapError .fault
            let received := Function.update s.received i (s.received i + bytes.length)
            return { s with data, received }
        | none => .error (.fault .expiredPointer)
      else .error .blocked
  | none => .error .blocked

def step (s : Contents) : Event → Except Halt Contents
  | .step e => do
      let received ← s.ended e
      let download ← s.download.step e
      return { s with download, received }
  | .arrive i bytes => s.arrive i bytes

/-- The bytes are the next ones of a reply to the request of the worker, made by a server that has the
file with this content. -/
def Honest (content : Bytes) (s : Contents) : Event → Prop
  | .arrive i bytes => ∀ segment ∈ s.receiving? i, ∃ reply,
      Replied s.download.complete.resource content segment.id reply ∧
        bytes = (reply.bytes.drop (s.received i)).take bytes.length
  | .step _ => True

structure Safe (r : Resource) (s : Contents) : Prop where
  resource : s.download.complete.resource = r
  length : s.data.length = r.calcSegmentsCount.toNat * segmentSize
  equipped : ∀ (i : Nat) (w : DownloadWorker), s.download.workers[i]? = some w → Download.Equipped r w
  fresh : ∀ (i : Nat) (w : DownloadWorker), s.download.workers[i]? = some w → w.receiving? = none →
    s.received i = 0

variable {r : Resource} {s s' : Contents} {i : Nat} {bytes content : Bytes}

theorem ended_ok {e : Download.Event} {received : Nat → Nat} (ok : s.ended e = .ok received) :
    (received = s.received ∧ ∀ i choice, e = .worker i choice → s.receiving? i = none) ∨
      ∃ i choice segment, e = .worker i choice ∧ s.receiving? i = some segment ∧
        (choice.io = true → s.received i = segmentSize) ∧
        received = Function.update s.received i 0 := by
  cases e with
  | worker i choice =>
      simp only [ended] at ok
      cases reading : s.receiving? i with
      | none =>
          rw [reading, if_neg (by simp)] at ok
          refine .inl ⟨(Except.ok.inj ok).symm, ?_⟩
          rintro j choice' ⟨⟩
          exact reading
      | some segment =>
          simp only [reading, Option.isSome_some, if_true] at ok
          split at ok
          · contradiction
          · rename_i whole
            refine .inr ⟨i, choice, segment, rfl, reading, fun io => ?_, (Except.ok.inj ok).symm⟩
            simpa [io] using whole
  | _ => exact .inl ⟨(Except.ok.inj ok).symm, by simp⟩

theorem step_ok {e : Download.Event} (ok : s.step (.step e) = .ok s') :
    s.ended e = .ok s'.received ∧ s.download.step e = .ok s'.download ∧ s'.data = s.data := by
  obtain ⟨received, ends, ok⟩ := bind_eq_ok.mp ok
  obtain ⟨download, moved, ok⟩ := bind_eq_ok.mp ok
  obtain rfl := Except.ok.inj ok
  exact ⟨ends, moved, rfl⟩

theorem arrive_ok (ok : s.arrive i bytes = .ok s') : ∃ segment address data,
    s.receiving? i = some segment ∧ s.received i + bytes.length ≤ segmentSize ∧
      segment.data = some address ∧ memcpy s.data (address + s.received i) bytes = .ok data ∧
      s' = { s with
        data
        received := Function.update s.received i (s.received i + bytes.length) } := by
  unfold arrive at ok
  split at ok
  · rename_i segment reading
    split at ok
    · rename_i fits
      split at ok
      · rename_i address named
        obtain ⟨data, copied, ok⟩ := bind_eq_ok.mp ok
        exact ⟨segment, address, data, reading, fits, named, mapError_ok.mp copied,
          (Except.ok.inj ok).symm⟩
      · contradiction
    · contradiction
  · contradiction

theorem receiving?_eq_some {segment : Segment} : s.receiving? i = some segment ↔
    ∃ w, s.download.workers[i]? = some w ∧ w.pc = .receiving segment := by
  simp [receiving?, Option.bind_eq_some_iff, DownloadWorker.receiving?_eq_some]

theorem Safe.receiving (h : s.Safe r) {segment : Segment} (reading : s.receiving? i = some segment) :
    Download.Placed r segment := by
  obtain ⟨w, there, pc⟩ := receiving?_eq_some.mp reading
  exact (h.equipped i w there).placed segment (by simp [DownloadWorker.phase, pc, Phase.segment?])

theorem room {segment : Segment} (placed : Download.Placed r segment) :
    segment.id.toNat * segmentSize + segmentSize ≤ r.calcSegmentsCount.toNat * segmentSize := by
  have below := UInt16.lt_iff_toNat_lt.mp placed.1
  calc segment.id.toNat * segmentSize + segmentSize = (segment.id.toNat + 1) * segmentSize :=
        (Nat.succ_mul _ _).symm
    _ ≤ r.calcSegmentsCount.toNat * segmentSize := Nat.mul_le_mul_right _ below

/-! ## Where the workers write -/

theorem ended_fresh {e : Download.Event} {received : Nat → Nat} (ok : s.ended e = .ok received)
    (none : s.received i = 0) : received i = 0 := by
  rcases ended_ok ok with ⟨rfl, -⟩ | ⟨j, choice, segment, -, -, -, rfl⟩
  · exact none
  · by_cases same : i = j
    · rw [same, Function.update_self]
    · rw [Function.update_of_ne same, none]

theorem Safe.ended (h : s.Safe r) {e : Download.Event} {received : Nat → Nat} {w w' : DownloadWorker}
    (ok : s.ended e = .ok received) (there : s.download.workers[i]? = some w)
    (became : s.download.Becomes e i w w') (none : w'.receiving? = none) : received i = 0 := by
  cases became with
  | same pc _ _ =>
      refine ended_fresh ok (h.fresh i w there ?_)
      rwa [DownloadWorker.receiving?, ← pc]
  | idle before _ _ => exact ended_fresh ok (h.fresh i w there before)
  | took before _ _ => exact ended_fresh ok (h.fresh i w there before)
  | @advanced choice acting moved =>
      rcases ended_ok ok with ⟨rfl, outside⟩ | ⟨j, choice', segment, acting', -, -, rfl⟩
      · refine h.fresh i w there ?_
        simpa [receiving?, there] using outside i choice acting
      · obtain ⟨rfl, -⟩ := Download.Event.worker.inj (acting.symm.trans acting')
        rw [Function.update_self]

theorem Safe.step (h : s.Safe r) {e : Event} (ok : s.step e = .ok s') : s'.Safe r := by
  cases e with
  | step e =>
      obtain ⟨ends, moved, data⟩ := step_ok ok
      refine ⟨(Download.step_resource moved).trans h.resource, data ▸ h.length, ?_, ?_⟩
      · intro i w' there
        obtain ⟨w, old, became⟩ := Download.step_becomes moved there
        exact (h.equipped i w old).becomes h.resource became
      · intro i w' there none
        obtain ⟨w, old, became⟩ := Download.step_becomes moved there
        exact h.ended ends old became none
  | arrive i bytes =>
      obtain ⟨segment, address, data, reading, fits, named, copied, rfl⟩ := arrive_ok ok
      refine ⟨h.resource, (memcpy_length copied).trans h.length, h.equipped, fun j w there none => ?_⟩
      have other : j ≠ i := by
        rintro rfl
        simp [receiving?, there, none] at reading
      exact (Function.update_of_ne other _ _).trans (h.fresh j w there none)

theorem Safe.start (r : Resource) (possessors : List HostPtr) (delays : HostPtr → HostDelays)
    {data : Bytes} (length : data.length = (CompleteResource.ofResource r).dataSize) :
    (start r possessors delays data).Safe r := by
  refine ⟨rfl, length, fun i w there => ?_, fun _ _ _ _ => rfl⟩
  obtain ⟨host, -, rfl⟩ := List.mem_map.mp (List.mem_of_getElem? there)
  exact .idle rfl

/-! ## What they write -/

def image (r : Resource) (content : Bytes) : Bytes :=
  padded (r.calcSegmentsCount.toNat * segmentSize) content

def Has (r : Resource) (content : Bytes) (s : Contents) (id count : Nat) : Prop :=
  AgreesOn s.data (image r content) (id * segmentSize) count

structure Filled (r : Resource) (content : Bytes) (s : Contents) : Prop where
  receiving : ∀ (i : Nat) (segment : Segment), s.receiving? i = some segment →
    s.Has r content segment.id.toNat (s.received i)
  received : ∀ (i : Nat) (w : DownloadWorker) (segment : Segment), s.download.workers[i]? = some w →
    w.phase = .received segment → s.Has r content segment.id.toNat segmentSize
  completed : ∀ id, s.download.complete.completedSegments[id]? = some true →
    s.Has r content id segmentSize

def Pieces (content : Bytes) (s : Contents) : Event → Prop
  | .arrive i bytes => ∀ segment ∈ s.receiving? i,
      bytes = ((block segmentSize content segment.id.toNat).drop (s.received i)).take bytes.length
  | .step _ => True

structure Announces (r : Resource) (content : Bytes) : Prop where
  named : r.WellNamed
  size : r.size.toNat = content.length
  fits : content.length ≤ 65535 * 1024

theorem Announces.room (announced : Announces r content) :
    content.length ≤ r.calcSegmentsCount.toNat * segmentSize := by
  have count := calcSegmentsCount_of_le (r := r) (announced.size ▸ announced.fits)
  rw [count, ← announced.size, segmentSize]
  omega

theorem Safe.pieces_part (h : s.Safe r) (announced : Announces r content) {part : Bytes}
    (begins : part <+: content) {e : Event} (honest : s.Honest part e) : s.Pieces content e := by
  cases e with
  | step e => trivial
  | arrive i bytes =>
      intro segment reading
      obtain ⟨reply, replied, same⟩ := honest segment reading
      obtain ⟨below, -⟩ := h.receiving reading
      rw [h.resource] at replied
      rwa [replied.bytes_part announced.named announced.size announced.fits below begins] at same

theorem Safe.pieces (h : s.Safe r) (announced : Announces r content) {e : Event}
    (honest : s.Honest content e) : s.Pieces content e :=
  h.pieces_part announced (List.prefix_refl content) honest

theorem Safe.sameLength (h : s.Safe r) (announced : Announces r content) :
    s.data.length = (image r content).length :=
  h.length.trans (padded_length announced.room).symm

theorem Safe.arrive (h : s.Safe r) (announced : Announces r content) {segment : Segment}
    (reading : s.receiving? i = some segment) (pieces : s.Pieces content (.arrive i bytes))
    (ok : s.arrive i bytes = .ok s') :
    (∀ id count, s.Has r content id count → s'.Has r content id count) ∧
      (s.Has r content segment.id.toNat (s.received i) →
        s'.Has r content segment.id.toNat (s'.received i)) := by
  obtain ⟨segment', address, data, reading', fits, named, copied, rfl⟩ := arrive_ok ok
  obtain rfl := Option.some.inj (reading.symm.trans reading')
  obtain ⟨below, placed⟩ := h.receiving reading
  obtain rfl := Option.some.inj (named.symm.trans placed)
  have part : PartOf (image r content) (segment.id.toNat * segmentSize + s.received i) bytes :=
    partOf_piece (UInt16.lt_iff_toNat_lt.mp below) fits (pieces segment reading)
  refine ⟨fun id count has => has.memcpy part (h.sameLength announced) copied, fun has => ?_⟩
  have extended := has.extend part (h.sameLength announced) copied
  simpa only [Has, Function.update_self] using extended

theorem ended_other {e : Download.Event} {received : Nat → Nat} (ok : s.ended e = .ok received)
    (other : ∀ choice, e ≠ .worker i choice) : received i = s.received i := by
  rcases ended_ok ok with ⟨rfl, -⟩ | ⟨j, choice, segment, rfl, -, -, rfl⟩
  · rfl
  · have different : i ≠ j := by
      rintro rfl
      exact other choice rfl
    exact Function.update_of_ne different _ _

theorem ended_whole {choice : Choice} {received : Nat → Nat} {segment : Segment}
    (ok : s.ended (.worker i choice) = .ok received) (reading : s.receiving? i = some segment)
    (io : choice.io = true) : s.received i = segmentSize := by
  rcases ended_ok ok with ⟨-, outside⟩ | ⟨j, choice', segment', acting, -, whole, -⟩
  · rw [outside i choice rfl] at reading
    contradiction
  · obtain ⟨rfl, rfl⟩ := Download.Event.worker.inj acting
    exact whole io

theorem Filled.receiving_step (h : s.Filled r content) (safe : s.Safe r) {e : Download.Event}
    (ok : s.step (.step e) = .ok s') {segment : Segment} (reading : s'.receiving? i = some segment) :
    s.Has r content segment.id.toNat (s'.received i) := by
  obtain ⟨ends, moved, -⟩ := step_ok ok
  obtain ⟨w', there, pc⟩ := receiving?_eq_some.mp reading
  obtain ⟨w, old, became⟩ := Download.step_becomes moved there
  cases became with
  | same unchanged _ other =>
      rw [ended_other ends other]
      exact h.receiving i segment (receiving?_eq_some.mpr ⟨w, old, unchanged ▸ pc⟩)
  | idle _ _ outside => simp [DownloadWorker.receiving?, pc] at outside
  | took _ _ returned => simp [pc] at returned
  | advanced acting advanced =>
      have before := DownloadWorker.advance_receiving advanced
        (DownloadWorker.receiving?_eq_some.mpr pc)
      rw [ended_fresh ends (safe.fresh i w old before)]
      exact agreesOn_zero _ _ _

theorem Filled.received_step (h : s.Filled r content) {e : Download.Event}
    (ok : s.step (.step e) = .ok s') {w' : DownloadWorker} {segment : Segment}
    (there : s'.download.workers[i]? = some w') (phase : w'.phase = .received segment) :
    s.Has r content segment.id.toNat segmentSize := by
  obtain ⟨ends, moved, -⟩ := step_ok ok
  obtain ⟨w, old, became⟩ := Download.step_becomes moved there
  cases became with
  | same unchanged _ _ =>
      refine h.received i w segment old ?_
      rwa [DownloadWorker.phase, ← unchanged]
  | idle _ idle _ => simp [phase] at idle
  | took _ _ returned =>
      simp only [DownloadWorker.phase, returned] at phase
      split at phase <;> contradiction
  | advanced acting advanced =>
      subst acting
      rcases DownloadWorker.advance_received advanced phase with before | ⟨reading, io⟩
      · exact h.received i w segment old before
      · have mine : s.receiving? i = some segment := by rwa [receiving?, old]
        exact ended_whole ends mine io ▸ h.receiving i segment mine

theorem Filled.completed_step (h : s.Filled r content) {e : Download.Event}
    (ok : s.step (.step e) = .ok s') {id : Nat}
    (set : s'.download.complete.completedSegments[id]? = some true) :
    s.Has r content id segmentSize := by
  obtain ⟨-, moved, -⟩ := step_ok ok
  rcases Download.step_completed moved set with before | ⟨i, w, segment, there, phase, rfl⟩
  · exact h.completed id before
  · exact h.received i w segment there phase

theorem Filled.step (h : s.Filled r content) (safe : s.Safe r) (announced : Announces r content)
    {e : Event} (pieces : s.Pieces content e) (ok : s.step e = .ok s') : s'.Filled r content := by
  cases e with
  | step e =>
      obtain ⟨ends, moved, data⟩ := step_ok ok
      have kept : ∀ id count, s.Has r content id count → s'.Has r content id count := by
        intro id count has
        rwa [Has, data]
      exact ⟨fun i segment reading => kept _ _ (h.receiving_step safe ok reading),
        fun i w segment there phase => kept _ _ (h.received_step ok there phase),
        fun id set => kept _ _ (h.completed_step ok set)⟩
  | arrive i bytes =>
      have arrived : s.arrive i bytes = .ok s' := ok
      obtain ⟨segment, address, data, reading, -, -, -, same⟩ := arrive_ok arrived
      obtain ⟨kept, extended⟩ := safe.arrive announced reading pieces arrived
      have download : s'.download = s.download := by rw [same]
      refine ⟨fun j other reading' => ?_, fun j w other there phase => ?_, fun id set => ?_⟩
      · have old : s.receiving? j = some other := by rwa [receiving?, ← download]
        by_cases mine : j = i
        · subst mine
          obtain rfl := Option.some.inj (reading.symm.trans old)
          exact extended (h.receiving j segment reading)
        · have received : s'.received j = s.received j := by
            rw [same]
            exact Function.update_of_ne mine _ _
          rw [received]
          exact kept _ _ (h.receiving j other old)
      · exact kept _ _ (h.received j w other (download ▸ there) phase)
      · exact kept _ _ (h.completed id (download ▸ set))

theorem Filled.start (r : Resource) (possessors : List HostPtr) (delays : HostPtr → HostDelays)
    (data : Bytes) : (start r possessors delays data).Filled r content := by
  refine ⟨fun i segment reading => ?_, fun i w segment there phase => ?_, fun id set => ?_⟩
  · obtain ⟨w, there, pc⟩ := receiving?_eq_some.mp reading
    obtain ⟨host, -, rfl⟩ := by
      simpa [Contents.start, Download.start, Option.map_eq_some_iff] using there
    contradiction
  · obtain ⟨host, -, rfl⟩ := by
      simpa [Contents.start, Download.start, Option.map_eq_some_iff] using there
    contradiction
  · obtain ⟨inside, set⟩ := Vector.getElem?_eq_some_iff.mp set
    simp [Contents.start, Download.start, CompleteResource.ofResource] at set

/-! ## Runs -/

variable {possessors : List HostPtr} {delays : HostPtr → HostDelays} {data : Bytes}

theorem reach_safe {allowed : Contents → Event → Prop}
    (length : data.length = (CompleteResource.ofResource r).dataSize)
    (h : Reach step allowed (start r possessors delays data) s) : s.Safe r :=
  h.invariant (.start r possessors delays length) fun _ _ _ safe _ ok => safe.step ok

theorem reach_filled (announced : Announces r content)
    (length : data.length = (CompleteResource.ofResource r).dataSize)
    (h : Reach step (Honest content) (start r possessors delays data) s) : s.Filled r content := by
  have both : s.Safe r ∧ s.Filled r content := by
    induction h with
    | refl => exact ⟨.start r possessors delays length, .start r possessors delays data⟩
    | tail _ honest ok ih =>
        obtain ⟨safe, filled⟩ := ih
        exact ⟨safe.step ok, filled.step safe announced (safe.pieces announced honest) ok⟩
  exact both.2

theorem Safe.arrive_error (h : s.Safe r) {e : Halt} (failed : s.arrive i bytes = .error e) :
    e = .blocked := by
  unfold Contents.arrive at failed
  cases reading : s.receiving? i with
  | none => simpa [reading, eq_comm] using failed
  | some segment =>
      obtain ⟨below, placed⟩ := h.receiving reading
      have room := room (h.receiving reading)
      by_cases fits : s.received i + bytes.length ≤ segmentSize
      · have inside : segment.id.toNat * segmentSize + s.received i + bytes.length ≤ s.data.length := by
          rw [h.length]
          omega
        have copied := memcpy_ok.mpr ⟨inside, rfl⟩
        simp [reading, fits, placed, copied, Except.mapError, bind, Except.bind, pure,
          Except.pure] at failed
      · simpa [reading, fits, eq_comm] using failed

/-- Whatever the hosts send, a read does not leave the data, and it changes nothing but the segment
that its worker was given. -/
theorem reach_arrive_inside (length : data.length = (CompleteResource.ofResource r).dataSize)
    (h : Reach step Anything (start r possessors delays data) s) (i : Nat) (bytes : Bytes) :
    (∀ f, s.step (.arrive i bytes) ≠ .error (.fault f)) ∧
      ∀ s', s.step (.arrive i bytes) = .ok s' → ∃ segment, s.receiving? i = some segment ∧
        segment.id < r.calcSegmentsCount ∧ s'.data.length = s.data.length ∧
        ∀ j, s'.data[j]? ≠ s.data[j]? →
          segment.id.toNat * 1024 ≤ j ∧ j < (segment.id.toNat + 1) * 1024 := by
  have safe := reach_safe length h
  refine ⟨fun f failed => ?_, fun s' ok => ?_⟩
  · simpa using safe.arrive_error failed
  · obtain ⟨segment, address, data', reading, fits, named, copied, rfl⟩ := arrive_ok ok
    obtain ⟨below, placed⟩ := safe.receiving reading
    obtain rfl := Option.some.inj (named.symm.trans placed)
    refine ⟨segment, reading, below, memcpy_length copied, fun j changed => ?_⟩
    by_contra outside
    refine changed ((memcpy_getElem? copied j).trans (if_neg fun within => outside ?_))
    obtain ⟨after, before⟩ := within
    have inside : segment.id.toNat * segmentSize ≤ j ∧
        j < (segment.id.toNat + 1) * segmentSize := by
      rw [Nat.succ_mul]
      omega
    exact inside

theorem Filled.completed_block (h : s.Filled r content) (safe : s.Safe r) {id : Nat}
    (set : s.download.complete.completedSegments[id]? = some true) :
    (s.data.drop (id * segmentSize)).take segmentSize = block segmentSize content id := by
  have has := h.completed id set
  have below : id < r.calcSegmentsCount.toNat := by
    obtain ⟨inside, -⟩ := Vector.getElem?_eq_some_iff.mp set
    rwa [safe.resource] at inside
  have part : PartOf (image r content) (id * segmentSize) (block segmentSize content id) :=
    partOf_block below
  apply List.ext_getElem?
  intro k
  by_cases small : k < segmentSize
  · rw [List.getElem?_take_of_lt small, List.getElem?_drop, has _ (by omega) (by omega)]
    exact (part.same k (by rwa [block_length])).symm
  · rw [List.getElem?_eq_none (by rw [List.length_take]; omega),
      List.getElem?_eq_none (by rw [block_length]; omega)]

def CompletesOnce (s : Contents) : Event → Prop
  | .step e => s.download.CompletesOnce e
  | .arrive _ _ => True

def Orderly (content : Bytes) (s : Contents) (e : Event) : Prop :=
  s.Honest content e ∧ s.CompletesOnce e

theorem reach_download (h : Reach step (Orderly content) (start r possessors delays data) s) :
    Reach Download.step Download.CompletesOnce (.start r possessors delays) s.download := by
  induction h with
  | refl => exact .refl
  | @tail s s' e _ orderly ok ih =>
      cases e with
      | step e => exact ih.tail orderly.2 (step_ok ok).2.1
      | arrive i bytes =>
          obtain ⟨segment, address, data, -, -, -, -, rfl⟩ := arrive_ok ok
          exact ih

theorem Filled.stored (h : s.Filled r content) (safe : s.Safe r) (announced : Announces r content)
    (counts : s.download.CountsSegments) (storing : s.download.controller = .storing) :
    storedBytes r s.data = .ok content := by
  have all := counts.stored storing
  have whole : s.data = image r content := by
    refine eq_of_blocks safe.length announced.room fun id below => h.completed id ?_
    exact all id (by rwa [safe.resource])
  have room := announced.room
  have room' : r.size.toNat ≤ s.data.length := by
    rw [safe.length, announced.size]
    exact room
  rw [storedBytes, Memory.readRange_ofBytes (by omega), List.drop_zero, announced.size, whole, image,
    padded, List.take_left]

theorem Safe.honest (safe : s.Safe r) (announced : Announces r content) {e : Event}
    (pieces : s.Pieces content e) : s.Honest content e := by
  cases e with
  | step e => trivial
  | arrive i bytes =>
      intro segment reading
      obtain ⟨below, -⟩ := safe.receiving reading
      have transfers := transfers_of_le announced.named announced.size announced.fits
      obtain ⟨data, whole, request, m', reply, serialized, decoded, served, same⟩ :=
        transfers.reply segment.id below {} (.zeros _) (.zeros _) .refl
      refine ⟨reply, ⟨{}, m', .zeros _, data, whole, request, .zeros _, .refl, ?_, decoded, served⟩, ?_⟩
      · rwa [safe.resource]
      · rw [same]
        exact pieces segment reading

instance (content : Bytes) (s : Contents) : (e : Event) → Decidable (s.Pieces content e)
  | .arrive i bytes => inferInstanceAs (Decidable (∀ segment ∈ s.receiving? i, bytes =
      ((block segmentSize content segment.id.toNat).drop (s.received i)).take bytes.length))
  | .step _ => .isTrue trivial

instance (s : Contents) : (e : Event) → Decidable (s.CompletesOnce e)
  | .step e => inferInstanceAs (Decidable (s.download.CompletesOnce e))
  | .arrive _ _ => .isTrue trivial

theorem reach_orderly (announced : Announces r content)
    (length : data.length = (CompleteResource.ofResource r).dataSize)
    (h : Reach step (fun s e => s.Pieces content e ∧ s.CompletesOnce e)
      (start r possessors delays data) s) :
    Reach step (Orderly content) (start r possessors delays data) s := by
  induction h with
  | refl => exact .refl
  | tail earlier guard ok ih =>
      exact ih.tail ⟨(reach_safe length earlier).honest announced guard.1, guard.2⟩ ok

/-- The segment of a host that timed out is received again from another host, while the first one is
still sending it. -/
theorem exists_orderly : ∃ s, Reach step (Orderly [1, 2, 3])
    (start { size := 3, name := [97] } [0, 1] (fun _ => { banTime := 0 }) (List.replicate 1024 9)) s ∧
      s.download.controller = .storing ∧ s.download.complete.completedSegments[0]? = some true := by
  have announced : Announces { size := 3, name := [97] } [1, 2, 3] := ⟨by decide, rfl, by decide⟩
  let slow : Event := .step (.worker 0 {})
  let other : Event := .step (.worker 1 {})
  let service : Event := .step (.controller {})
  let rest : Bytes := List.replicate 1021 0
  obtain ⟨s, run, ended⟩ := exists_reach_of_exec step
    (fun s e => s.Pieces [1, 2, 3] e ∧ s.CompletesOnce e)
    (start { size := 3, name := [97] } [0, 1] (fun _ => { banTime := 0 }) (List.replicate 1024 9))
    (List.replicate 7 slow ++ [.arrive 0 [1, 2]] ++ List.replicate 14 service ++
      List.replicate 7 other ++ [.arrive 1 (1 :: 2 :: 3 :: rest), .arrive 0 [3]] ++
      List.replicate 3 other ++ List.replicate 4 service)
    (fun s => s.download.controller = .storing ∧
      s.download.complete.completedSegments[0]? = some true) (by decide +kernel)
  refine ⟨s, reach_orderly announced ?_ run, of_decide_eq_true ended⟩
  rw [List.length_replicate]
  rfl

/-- A host sends two bytes of its own, and could send more than there is room for. -/
theorem foreign_bytes_inside : ∃ s s' : Contents, s.step (.arrive 0 [7, 7]) = .ok s' ∧
    (∀ f, s.step (.arrive 0 (List.replicate 2000 7)) ≠ .error (.fault f)) ∧
    ∃ segment, s.receiving? 0 = some segment ∧
      segment.id < ({ size := 1025, name := [97] } : Resource).calcSegmentsCount ∧
      s'.data.length = s.data.length ∧ ∀ j, s'.data[j]? ≠ s.data[j]? →
        segment.id.toNat * 1024 ≤ j ∧ j < (segment.id.toNat + 1) * 1024 := by
  obtain ⟨s, run, reads⟩ := exists_reach_of_exec step Anything
    (start { size := 1025, name := [97] } [0] (fun _ => { banTime := 0 }) (List.replicate 2048 9))
    (List.replicate 7 (.step (.worker 0 {})))
    (fun s => (s.step (.arrive 0 [7, 7])).toOption.isSome) (by decide +kernel)
  have inside := reach_arrive_inside (by rw [List.length_replicate]; rfl) run 0
  cases arrives : s.step (.arrive 0 [7, 7]) with
  | error e => simp [arrives, Except.toOption] at reads
  | ok s' => exact ⟨s, s', arrives, (inside _).1, (inside _).2 s' arrives⟩

end Contents

end SimpleP2P
