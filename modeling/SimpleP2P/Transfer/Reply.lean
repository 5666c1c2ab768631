import SimpleP2P.Transfer.RequestWorker
import SimpleP2P.Download.SegmentArithmetic
import SimpleP2P.FileManager.Streams

namespace SimpleP2P
open Library

/-- What `handle_read` does for a request: `read_lock`, of which the result is not looked at, and
`get_segment`. The state is the one in which `read_lock` has stopped waiting for writers. -/
def FileManager.serve (m : FileManager) (request : SegmentRequest) (disk : Option Bytes)
    (sendData : Buffer segmentSize) : Except Fault (Bool × FileManager × Buffer segmentSize) :=
  (m.register request.fileName disk).2.getSegment request.fileName request.segment sendData
    (requestedSegmentSize request.fileSize request.segment).toNat

def HandedOut (r : Resource) (segment : Segment) : Prop :=
  ∃ c c' : CompleteResource, c.resource = r ∧ c.takeSegment = some (segment, c')

def receiveSegment (data : Bytes) (segment : Segment) (reply : Buffer segmentSize) :
    Except Fault Bytes :=
  match segment.data with
  | some address => memcpy data address reply.bytes
  | none => .error .expiredPointer

def storedBytes (r : Resource) (data : Bytes) : Except Fault Bytes :=
  (Memory.ofBytes data).readRange 0 r.size.toNat

/-- A reply to a request for the segment that arrives whole, at some time while the file has this
content. -/
def Replied (r : Resource) (content : Bytes) (id : SegmentId) (reply : Buffer segmentSize) : Prop :=
  ∃ (m m' : FileManager) (recvData : RecvData) (data : Bytes)
    (whole : data.length ≤ maxRecvDataLength) (request : SegmentRequest)
    (sendData : Buffer segmentSize),
    Reach FileManager.call (FileManager.ReadsWell r.name content) {} m ∧
      serializeSegmentRequest r id = .ok data ∧
      handleRead (recvData.receive data whole) = .answer request ∧
      m.serve request (some content) sendData = .ok (true, m', reply)

structure Transfers (r : Resource) (content : Bytes) : Prop where
  reply : ∀ id < r.calcSegmentsCount, ∀ (m : FileManager) (recvData : RecvData)
    (sendData : Buffer segmentSize),
    Reach FileManager.call (FileManager.ReadsWell r.name content) {} m →
    ∃ (data : Bytes) (whole : data.length ≤ maxRecvDataLength) (request : SegmentRequest)
      (m' : FileManager) (reply : Buffer segmentSize), serializeSegmentRequest r id = .ok data ∧
      handleRead (recvData.receive data whole) = .answer request ∧
      m.serve request (some content) sendData = .ok (true, m', reply) ∧
      reply.bytes = block segmentSize content id.toNat
  /-- Replies to all requests, received at the addresses of their segments in any order. -/
  stored : ∀ (replies : List (Segment × Buffer segmentSize)) (data : Bytes),
    data.length = (CompleteResource.ofResource r).dataSize →
    (∀ p ∈ replies, HandedOut r p.1 ∧ Replied r content p.1.id p.2) →
    (∀ id < r.calcSegmentsCount, ∃ p ∈ replies, p.1.id = id) →
    ∃ data', replies.foldlM (fun data p => receiveSegment data p.1 p.2) data = .ok data' ∧
      storedBytes r data' = .ok content

variable {r : Resource} {content : Bytes}

theorem requested_block (size : r.size.toNat = content.length) (fits : content.length ≤ 65535 * 1024)
    {id : SegmentId} (below : id < r.calcSegmentsCount) :
    0 < (requestedSegmentSize r.size id).toNat ∧
      (requestedSegmentSize r.size id).toNat ≤ segmentSize ∧
      id.toNat * segmentSize + (requestedSegmentSize r.size id).toNat ≤ content.length ∧
      padded segmentSize ((content.drop (id.toNat * segmentSize)).take
        (requestedSegmentSize r.size id).toNat) = block segmentSize content id.toNat := by
  have fits' : r.size.toNat ≤ 67107840 := size ▸ fits
  have requested := requestedSegmentSize_of_le fits' id
  have count := calcSegmentsCount_of_le fits'
  have inside : id.toNat < r.calcSegmentsCount.toNat := UInt16.lt_iff_toNat_lt.mp below
  have taken : (content.drop (id.toNat * segmentSize)).take (requestedSegmentSize r.size id).toNat =
      (content.drop (id.toNat * segmentSize)).take segmentSize := by
    rw [requested]
    split
    · rename_i last
      rw [List.take_of_length_le, List.take_of_length_le] <;>
        (rw [List.length_drop, ← size]; simp only [segmentSize]; omega)
    · rfl
  refine ⟨?_, ?_, ?_, by rw [taken, block]⟩
  · rw [requested]
    split <;> omega
  · rw [requested]
    split <;> (simp only [segmentSize]; omega)
  · rw [requested, ← size]
    split <;> (simp only [segmentSize]; omega)

theorem FileManager.Intact.serve {m : FileManager} (intact : m.Intact r.name content)
    (size : r.size.toNat = content.length) (fits : content.length ≤ 65535 * 1024) {id : SegmentId}
    (below : id < r.calcSegmentsCount) (sendData : Buffer segmentSize) :
    ∃ m' reply, m.serve { fileName := r.name, fileSize := r.size, segment := id } (some content)
        sendData = .ok (true, m', reply) ∧ reply.bytes = block segmentSize content id.toNat := by
  obtain ⟨-, small, room, asked⟩ := requested_block size fits below
  obtain ⟨m', reply, served, bytes⟩ :=
    (intact.register fun _ c same => (Option.mem_some.mp same).symm).getSegment
      (m.register_mem r.name content) small room
  exact ⟨m', reply, served, by rw [bytes, asked]⟩

/-- A server that has only the beginning of the file sends a whole segment of the file or none. -/
theorem FileManager.Intact.serve_part {m m' : FileManager} {part : Bytes}
    (intact : m.Intact r.name part) (begins : part <+: content)
    (size : r.size.toNat = content.length) (fits : content.length ≤ 65535 * 1024) {id : SegmentId}
    (below : id < r.calcSegmentsCount) {sendData reply : Buffer segmentSize}
    (served : m.serve { fileName := r.name, fileSize := r.size, segment := id } (some part)
      sendData = .ok (true, m', reply)) : reply.bytes = block segmentSize content id.toNat := by
  obtain ⟨positive, small, -, asked⟩ := requested_block size fits below
  have registered : (m.register r.name (some part)).2.Intact r.name part :=
    intact.register fun _ c same => (Option.mem_some.mp same).symm
  rcases getSegment_ok served with
    ⟨-, failed, -⟩ | ⟨fits', before, f, after, stream', parts, same, -, read, -⟩
  · contradiction
  · obtain ⟨good, kept⟩ := registered f (by simp [parts]) same
    have succeeds := IfStream.getSegment_fst.symm.trans (congrArg Prod.fst read)
    have enough : (requestedSegmentSize r.size id).toNat ≤ part.length - id.toNat * segmentSize := by
      simpa [IfStream.serves, good.failbit, kept] using succeeds
    have inside : id.toNat * segmentSize + (requestedSegmentSize r.size id).toNat ≤ part.length := by
      omega
    obtain ⟨-, bytes⟩ : _ ∧ (f.stream.getSegment id sendData _ fits').2.2.bytes = _ :=
      IfStream.getSegment_of_good good (by rwa [kept])
    rw [read, kept] at bytes
    obtain ⟨rest, rfl⟩ := begins
    rw [bytes, ← asked, List.drop_append_of_le_length (by omega),
      List.take_append_of_le_length (by rw [List.length_drop]; omega)]

theorem Resource.WellNamed.serialized_length (named : r.WellNamed) {id : SegmentId} {data : Bytes}
    (serialized : serializeSegmentRequest r id = .ok data) : data.length ≤ maxRecvDataLength := by
  have short := named.1
  obtain rfl := Except.ok.inj ((named.serialized id).symm.trans serialized)
  simp only [List.length_cons, List.length_append, List.length_replicate, BigEndian.bytesOf_length,
    fileNameLength, fileSizeLength, maxRecvDataLength] at short ⊢
  omega

theorem Replied.bytes_part (named : r.WellNamed) (size : r.size.toNat = content.length)
    (fits : content.length ≤ 65535 * 1024) {id : SegmentId} (below : id < r.calcSegmentsCount)
    {part : Bytes} (begins : part <+: content) {reply : Buffer segmentSize}
    (replied : Replied r part id reply) : reply.bytes = block segmentSize content id.toNat := by
  obtain ⟨m, m', recvData, data, whole, request, sendData, reached, serialized, decoded, served⟩ :=
    replied
  obtain rfl := Reaction.answer.inj
    ((handleRead_receive named serialized recvData whole).symm.trans decoded)
  exact (FileManager.reach_intact reached).serve_part begins size fits below served

theorem Replied.bytes (named : r.WellNamed) (size : r.size.toNat = content.length)
    (fits : content.length ≤ 65535 * 1024) {id : SegmentId} (below : id < r.calcSegmentsCount)
    {reply : Buffer segmentSize} (replied : Replied r content id reply) :
    reply.bytes = block segmentSize content id.toNat :=
  replied.bytes_part named size fits below (List.prefix_refl content)

theorem HandedOut.address {segment : Segment} (handed : HandedOut r segment) :
    segment.id < r.calcSegmentsCount ∧ segment.data = some (segment.id.toNat * segmentSize) := by
  obtain ⟨c, c', rfl, taken⟩ := handed
  exact CompleteResource.takeSegment_address taken

theorem receive_eq_copyAll {replies : List (Segment × Buffer segmentSize)}
    (right : ∀ p ∈ replies, p.1.data = some (p.1.id.toNat * segmentSize) ∧
      p.2.bytes = block segmentSize content p.1.id.toNat) (data : Bytes) :
    replies.foldlM (fun data p => receiveSegment data p.1 p.2) data =
      copyAll data ((replies.map (·.1.id.toNat)).map fun i =>
        (i * segmentSize, block segmentSize content i)) := by
  induction replies generalizing data with
  | nil => rfl
  | cons p rest ih =>
      obtain ⟨address, bytes⟩ := right p (by simp)
      have later := ih fun q member => right q (List.mem_cons_of_mem _ member)
      have first : receiveSegment data p.1 p.2 = memcpy data (p.1.id.toNat * segmentSize)
          (block segmentSize content p.1.id.toNat) := by
        rw [receiveSegment, address, bytes]
      simp only [List.foldlM_cons, List.map_cons, copyAll, first, later]

theorem transfers_of_le (named : r.WellNamed) (size : r.size.toNat = content.length)
    (fits : content.length ≤ 65535 * 1024) : Transfers r content := by
  refine ⟨fun id below m recvData sendData reached => ?_, fun replies data length right all => ?_⟩
  · have serialized := named.serialized id
    have whole := named.serialized_length serialized
    obtain ⟨m', reply, served, bytes⟩ :=
      (FileManager.reach_intact reached).serve size fits below sendData
    exact ⟨_, whole, _, m', reply, serialized, handleRead_receive named serialized recvData whole,
      served, bytes⟩
  · have placed : ∀ p ∈ replies, p.1.data = some (p.1.id.toNat * segmentSize) ∧
        p.2.bytes = block segmentSize content p.1.id.toNat := by
      intro p member
      obtain ⟨handed, replied⟩ := right p member
      obtain ⟨below, address⟩ := handed.address
      exact ⟨address, replied.bytes named size fits below⟩
    have count := calcSegmentsCount_of_le (r := r) (size ▸ fits)
    have room : content.length ≤ r.calcSegmentsCount.toNat * segmentSize := by
      rw [count, ← size, segmentSize]
      omega
    refine ⟨padded (r.calcSegmentsCount.toNat * segmentSize) content, ?_, ?_⟩
    · rw [receive_eq_copyAll placed]
      refine copyAll_blocks ?_ ?_ room length
      · intro i member
        obtain ⟨p, present, rfl⟩ := List.mem_map.mp member
        exact UInt16.lt_iff_toNat_lt.mp (right p present).1.address.1
      · intro i below
        have same : (UInt16.ofNat i).toNat = i :=
          CompleteResource.takeSegment_id_toNat (c := .ofResource r) below
        obtain ⟨p, present, own⟩ := all (.ofNat i) (UInt16.lt_iff_toNat_lt.mpr (same.symm ▸ below))
        exact List.mem_map.mpr ⟨p, present, by rw [own, same]⟩
    · have length : (padded (r.calcSegmentsCount.toNat * segmentSize) content).length =
          r.calcSegmentsCount.toNat * segmentSize := padded_length room
      rw [storedBytes, Memory.readRange_ofBytes (by rw [length, size]; omega), List.drop_zero, size,
        padded, List.take_left]

theorem partly_filled_transfers : Transfers { size := 1025, name := [97] } (List.replicate 1025 7) :=
  transfers_of_le (by decide) (by rw [List.length_replicate]; rfl)
    (by rw [List.length_replicate]; decide)

end SimpleP2P
