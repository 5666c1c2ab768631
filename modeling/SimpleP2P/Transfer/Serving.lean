import SimpleP2P.Transfer.RequestServer
import SimpleP2P.FileManager.SharedStreams

namespace SimpleP2P
open Library

/-- The size found for the segment, where the two conversions of the quotient give `last` and `last'`. -/
def requestedSizeWith (last last' : UInt16) (fileSize : UInt64) (segment : SegmentId) : UInt32 :=
  if segment = last then (fileSize - last'.toUInt64 * 1024).toUInt32 else 1024

theorem requestedSegmentSize_eq (fileSize : UInt64) (segment : SegmentId) :
    requestedSegmentSize fileSize segment =
      requestedSizeWith (lastSegmentIndex fileSize) (lastSegmentIndex fileSize) fileSize segment := rfl

namespace IfStream

def segmentWrites (s : IfStream) (segment : SegmentId) (requested : Nat) : List (Nat × Bytes) :=
  let start := segment.toNat * segmentSize
  let (s, position) := (s.seekg start).tellg
  if position ≠ some start then []
  else if (s.read requested).1.failbit then [(0, (s.read requested).2)]
  else if requested < segmentSize then
    [(0, (s.read requested).2), (requested, List.replicate (segmentSize - requested) 0)]
  else [(0, (s.read requested).2)]

end IfStream

namespace FileManager

def segmentWrites (m : FileManager) (fileName : FileName) (segment : SegmentId) (requested : Nat) :
    List (Nat × Bytes) :=
  match m.streamOf fileName with
  | some s => if requested ≤ segmentSize then s.segmentWrites segment requested else []
  | none => []

def serveWith (last last' : UInt16) (m : FileManager) (request : SegmentRequest)
    (disk : Option Bytes) (sendData : Buffer segmentSize) :
    Except Fault (Bool × FileManager × Buffer segmentSize) :=
  (m.register request.fileName disk).2.getSegment request.fileName request.segment sendData
    (requestedSizeWith last last' request.fileSize request.segment).toNat

theorem serve_eq (m : FileManager) (request : SegmentRequest) (disk : Option Bytes)
    (sendData : Buffer segmentSize) : m.serve request disk sendData =
      m.serveWith (lastSegmentIndex request.fileSize) (lastSegmentIndex request.fileSize) request disk
        sendData := rfl

structure LooksUp (last last' : UInt16) (m : FileManager) (request : SegmentRequest)
    (disk : Option Bytes) (sendData : Buffer segmentSize) : Prop where
  assigned : m.serveWith last last' request disk sendData ≠ .error .expiredPointer
  refused : (m.register request.fileName disk).1 = false →
    ∃ sendData', m.serveWith last last' request disk sendData = .ok (false, m, sendData')

structure SendsOnlyNew (last last' : UInt16) (m : FileManager) (request : SegmentRequest)
    (disk : Option Bytes) : Prop where
  same : ∀ sendData sendData' : Buffer segmentSize, ∃ ok m₁ m₂ reply reply',
    m.serveWith last last' request disk sendData = .ok (ok, m₁, reply) ∧
    m.serveWith last last' request disk sendData' = .ok (ok, m₂, reply') ∧
    (ok = true → reply = reply')
  written : ∀ sendData : Buffer segmentSize, ∃ ok m' reply,
    m.serveWith last last' request disk sendData = .ok (ok, m', reply) ∧
    copyAll sendData.bytes ((m.register request.fileName disk).2.segmentWrites request.fileName
      request.segment (requestedSizeWith last last' request.fileSize request.segment).toNat) =
        .ok reply.bytes ∧
    (ok = true → ∀ i < segmentSize, ∃ p ∈ (m.register request.fileName disk).2.segmentWrites
      request.fileName request.segment
      (requestedSizeWith last last' request.fileSize request.segment).toNat,
        p.1 ≤ i ∧ i < p.1 + p.2.length)

end FileManager

namespace IfStream

variable {s : IfStream} {segment : SegmentId} {result : Buffer segmentSize} {requested : Nat}

theorem copyAll_segmentWrites (fits : requested ≤ segmentSize) :
    copyAll result.bytes (s.segmentWrites segment requested) =
      .ok (s.getSegment segment result requested fits).2.2.bytes := by
  cases failed : s.failbit with
  | true => simp [segmentWrites, getSegment, seekg_tellg_failed failed, copyAll, pure, Except.pure]
  | false =>
      simp only [segmentWrites, getSegment, seekg_tellg failed, ne_eq, not_true, if_false]
      have room := Nat.le_trans (read_length (s.placed (segment.toNat * segmentSize)) requested) fits
      have first := result.memcpy_receive _ room
      cases short : (read (s.placed (segment.toNat * segmentSize)) requested).1.failbit with
      | true => simp [copyAll, first, bind, Except.bind, pure, Except.pure]
      | false =>
          simp only [if_neg Bool.false_ne_true, Bool.false_and]
          split
          · have second := (result.receive _ room).memcpy_clearFrom fits
            simp [copyAll, first, second, bind, Except.bind, pure, Except.pure]
          · simp [copyAll, first, bind, Except.bind, pure, Except.pure]

theorem segmentWrites_cover (served : s.serves segment requested = true) :
    ∀ i < segmentSize, ∃ p ∈ s.segmentWrites segment requested, p.1 ≤ i ∧ i < p.1 + p.2.length := by
  intro i inside
  obtain ⟨sound, enough⟩ := Bool.and_eq_true_iff.mp served
  have sound : s.failbit = false := by simpa using sound
  have whole := s.placed_read_failbit (segment.toNat * segmentSize) requested
  rw [enough, Bool.not_true] at whole
  have length := read_whole whole
  simp only [segmentWrites, seekg_tellg sound, ne_eq, not_true, if_false, whole,
    if_neg Bool.false_ne_true]
  split
  · by_cases early : i < requested
    · exact ⟨_, List.mem_cons_self, Nat.zero_le i, by simpa [length] using early⟩
    · refine ⟨_, List.mem_cons_of_mem _ (List.mem_singleton_self _), Nat.le_of_not_lt early, ?_⟩
      rw [List.length_replicate]
      omega
  · exact ⟨_, List.mem_singleton_self _, Nat.zero_le i, by rw [length]; omega⟩

end IfStream

namespace FileManager

variable {last last' : UInt16} {m : FileManager} {request : SegmentRequest} {disk : Option Bytes}
  {sendData : Buffer segmentSize}

theorem register_fst {fileName : FileName} :
    (m.register fileName disk).1 = true ↔ disk ≠ none ∨ fileName ∈ m.readNames := by
  unfold register
  split
  · simp_all
  · cases disk <;> simp_all

theorem register_refused {fileName : FileName} (refused : (m.register fileName disk).1 = false) :
    (m.register fileName disk).2 = m ∧ fileName ∉ m.readNames := by
  unfold register at refused ⊢
  split at refused
  · contradiction
  · rename_i closed
    rw [if_neg closed]
    cases disk with
    | none => exact ⟨rfl, closed⟩
    | some content => contradiction

theorem register_streamOf {fileName : FileName} (opened : (m.register fileName disk).1 = true) :
    ∃ s, (m.register fileName disk).2.streamOf fileName = some s := by
  apply Option.ne_none_iff_exists'.mp
  intro closed
  exact streamOf_eq_none.mp closed (mem_register.mpr (.inr ⟨opened, rfl⟩))

theorem serveWith_opened (last last' : UInt16)
    (opened : (m.register request.fileName disk).1 = true) (sendData : Buffer segmentSize) :
    ∃ m' reply, m.serveWith last last' request disk sendData =
      .ok ((m.register request.fileName disk).2.readable request.fileName request.segment
        (requestedSizeWith last last' request.fileSize request.segment).toNat, m', reply) ∧
    copyAll sendData.bytes ((m.register request.fileName disk).2.segmentWrites request.fileName
      request.segment (requestedSizeWith last last' request.fileSize request.segment).toNat) =
        .ok reply.bytes := by
  obtain ⟨s, there⟩ := register_streamOf opened
  rw [serveWith, segmentWrites, there]
  by_cases fits :
      (requestedSizeWith last last' request.fileSize request.segment).toNat ≤ segmentSize
  · obtain ⟨m', ran, -⟩ := getSegment_streamOf there request.segment sendData fits
    refine ⟨m', _, ?_, by simpa only [if_pos fits] using IfStream.copyAll_segmentWrites fits⟩
    rw [← getSegment_fst ran, ran]
  · refine ⟨(m.register request.fileName disk).2, sendData, ?_, ?_⟩
    · rw [getSegment, dif_neg fits]
      simp [readable, fits]
    · simp only [if_neg fits]
      rfl

theorem segmentWrites_of_readable {fileName : FileName} {segment : SegmentId} {requested : Nat}
    (readable : m.readable fileName segment requested = true) : ∀ i < segmentSize,
    ∃ p ∈ m.segmentWrites fileName segment requested, p.1 ≤ i ∧ i < p.1 + p.2.length := by
  obtain ⟨fits, found⟩ := Bool.and_eq_true_iff.mp readable
  have fits := of_decide_eq_true fits
  cases first : m.rlockedFiles.find? (·.fileName = fileName) with
  | none => simp [first] at found
  | some f =>
      have there : m.streamOf fileName = some f.stream := by rw [streamOf, first, Option.map_some]
      rw [first, Option.any_some] at found
      rw [segmentWrites, there]
      simpa only [if_pos fits] using IfStream.segmentWrites_cover found

theorem looksUp_iff (last last' : UInt16) (m : FileManager) (request : SegmentRequest)
    (disk : Option Bytes) (sendData : Buffer segmentSize) :
    LooksUp last last' m request disk sendData ↔ disk ≠ none ∨ request.fileName ∈ m.readNames ∨
      segmentSize < (requestedSizeWith last last' request.fileSize request.segment).toNat := by
  rw [← or_assoc, ← register_fst]
  cases opened : (m.register request.fileName disk).1 with
  | true =>
      obtain ⟨m', reply, served, -⟩ := serveWith_opened last last' opened sendData
      refine iff_of_true ⟨by rw [served]; rintro ⟨⟩, fun refused => ?_⟩ (.inl rfl)
      exact absurd (opened.symm.trans refused) (by decide)
  | false =>
      obtain ⟨same, closed⟩ := register_refused opened
      by_cases fits :
          (requestedSizeWith last last' request.fileSize request.segment).toNat ≤ segmentSize
      · have unset : m.serveWith last last' request disk sendData = .error .expiredPointer := by
          rw [serveWith, same, getSegment, dif_pos fits, getSegmentFrom_of_closed _ _ fits closed]
          rfl
        refine iff_of_false (fun looks => looks.assigned unset) ?_
        simpa using fits
      · have refused : m.serveWith last last' request disk sendData = .ok (false, m, sendData) := by
          rw [serveWith, same, getSegment, dif_neg fits]
        refine iff_of_true ⟨by rw [refused]; rintro ⟨⟩, fun _ => ⟨_, refused⟩⟩ ?_
        exact .inr (Nat.lt_of_not_le fits)

/-- A request for a file that is not there. -/
theorem looksUp_fails : ¬∀ (last last' : UInt16) (m : FileManager) (recvData : RecvData)
    (request : SegmentRequest) (disk : Option Bytes) (sendData : Buffer segmentSize),
    handleRead recvData = .answer request → LooksUp last last' m request disk sendData := by
  intro claim
  have looks := claim 0 0 {} ((Buffer.zeros _).receive RequestServer.requestA (by decide +kernel))
    { fileName := [97], fileSize := 3, segment := 0 } none (.zeros _) (by decide +kernel)
  exact looks.assigned rfl

theorem sendsOnlyNew_of_opened (last last' : UInt16)
    (opened : (m.register request.fileName disk).1 = true) :
    SendsOnlyNew last last' m request disk := by
  refine ⟨fun sendData sendData' => ?_, fun sendData => ?_⟩
  · obtain ⟨m₁, reply, served, written⟩ := serveWith_opened last last' opened sendData
    obtain ⟨m₂, reply', served', written'⟩ := serveWith_opened last last' opened sendData'
    refine ⟨_, m₁, m₂, reply, reply', served, served', fun success => ?_⟩
    apply Buffer.eq_of_bytes
    apply List.ext_getElem?
    intro i
    rcases Nat.lt_or_ge i segmentSize with inside | outside
    · exact copyAll_getElem? written written' (.inr (segmentWrites_of_readable success i inside))
    · rw [List.getElem?_eq_none (by rw [reply.full]; exact outside),
        List.getElem?_eq_none (by rw [reply'.full]; exact outside)]
  · obtain ⟨m', reply, served, written⟩ := serveWith_opened last last' opened sendData
    exact ⟨_, m', reply, served, written, segmentWrites_of_readable⟩

theorem handleRead_sendsOnlyNew (last last' : UInt16) (m : FileManager) (recvData : RecvData)
    (disk : Option Bytes) (asked : recvData.command = reqSegment)
    (opened : (m.register recvData.fileName disk).1 = true) :
    ∃ request, handleRead recvData = .answer request ∧ SendsOnlyNew last last' m request disk := by
  have decoded : handleRead recvData = .answer
      { fileName := recvData.fileName, fileSize := recvData.fileSize,
        segment := recvData.segment } := by
    rw [handleRead, if_pos asked]
  exact ⟨_, decoded, sendsOnlyNew_of_opened last last' opened⟩

theorem requestA_sendsOnlyNew : ∃ request,
    handleRead ((Buffer.zeros _).receive RequestServer.requestA (by decide +kernel)) = .answer request ∧
      SendsOnlyNew 0 0 {} request (some [1, 2, 3]) :=
  handleRead_sendsOnlyNew 0 0 {} _ (some [1, 2, 3]) (by decide +kernel) (by decide +kernel)

end FileManager

end SimpleP2P
