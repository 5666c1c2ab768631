import SimpleP2P.Resource
import SimpleP2P.Download.CompleteResource

namespace SimpleP2P
open Library

structure SegmentRequest where
  fileName : FileName
  fileSize : UInt64
  segment : SegmentId
  deriving DecidableEq, Repr

def serializeSegmentRequest (resource : Resource) (id : SegmentId) : Except Fault Bytes := do
  let header ← resource.generateResourceHeader
  return reqSegment :: (header ++ BigEndian.bytesOf 2 id.toNat)

def maxRecvDataLength : Nat := 300

/-- `recv_data`; every read writes over its beginning. -/
abbrev RecvData := Buffer maxRecvDataLength

namespace RecvData

def command (buffer : RecvData) : UInt8 := buffer.bytes.headD 0

def fileName (buffer : RecvData) : FileName :=
  ((buffer.bytes.drop 1).take fileNameLength).takeWhile (· ≠ 0)

def fileSize (buffer : RecvData) : UInt64 :=
  UInt64.ofNat (BigEndian.valueOf ((buffer.bytes.drop (1 + fileNameLength)).take fileSizeLength))

def segment (buffer : RecvData) : SegmentId :=
  UInt16.ofNat (BigEndian.valueOf
    ((buffer.bytes.drop (1 + fileNameLength + fileSizeLength)).take 2))

end RecvData

inductive Reaction
  | answer (request : SegmentRequest)
  | quit (fileName : FileName)
  | nothing
  deriving DecidableEq, Repr

def handleRead (buffer : RecvData) : Reaction :=
  if buffer.command = reqSegment then
    .answer
      { fileName := buffer.fileName, fileSize := buffer.fileSize, segment := buffer.segment }
  else if buffer.command = quitConn then .quit buffer.fileName
  else .nothing

theorem handleRead_nothing_iff {buffer : RecvData} : handleRead buffer ≠ .nothing ↔
    buffer.command = reqSegment ∨ buffer.command = quitConn := by
  unfold handleRead
  split
  · simp [*]
  · split <;> simp [*]

theorem ofNat_valueOf_segment (id : SegmentId) :
    UInt16.ofNat (BigEndian.valueOf (BigEndian.bytesOf 2 id.toNat)) = id := by
  have bound := id.toNat_lt
  rw [BigEndian.valueOf_bytesOf, Nat.mod_eq_of_lt (by omega), UInt16.ofNat_toNat]

theorem Resource.WellNamed.serialized {r : Resource} (named : r.WellNamed) (id : SegmentId) :
    serializeSegmentRequest r id = .ok (reqSegment ::
      (r.name ++ List.replicate (fileNameLength - r.name.length) 0 ++
        BigEndian.bytesOf fileSizeLength r.size.toNat ++ BigEndian.bytesOf 2 id.toNat)) := by
  rw [serializeSegmentRequest, named.header]
  rfl

theorem handleRead_fields {buffer : RecvData} {name size id rest : Bytes}
    (bytes : buffer.bytes = reqSegment :: (name ++ (size ++ (id ++ rest))))
    (nameLength : name.length = fileNameLength) (sizeLength : size.length = fileSizeLength)
    (idLength : id.length = 2) : handleRead buffer = .answer
      { fileName := name.takeWhile (· ≠ 0)
        fileSize := UInt64.ofNat (BigEndian.valueOf size)
        segment := UInt16.ofNat (BigEndian.valueOf id) } := by
  have command : buffer.command = reqSegment := by rw [RecvData.command, bytes, List.headD_cons]
  have nameField : buffer.fileName = name.takeWhile (· ≠ 0) := by
    rw [RecvData.fileName, bytes, List.drop_succ_cons, List.drop_zero, List.take_left' nameLength]
  have sizeField : buffer.fileSize = UInt64.ofNat (BigEndian.valueOf size) := by
    rw [RecvData.fileSize, bytes, Nat.add_comm, List.drop_succ_cons, List.drop_left' nameLength,
      List.take_left' sizeLength]
  have idField : buffer.segment = UInt16.ofNat (BigEndian.valueOf id) := by
    have before : (name ++ size).length = fileNameLength + fileSizeLength := by
      rw [List.length_append, nameLength, sizeLength]
    rw [RecvData.segment, bytes, Nat.add_assoc, Nat.add_comm 1, List.drop_succ_cons,
      ← List.append_assoc, List.drop_left' before, List.take_left' idLength]
  rw [handleRead, if_pos command, nameField, sizeField, idField]

theorem handleRead_receive {r : Resource} (named : r.WellNamed) {id : SegmentId} {data : Bytes}
    (serialized : serializeSegmentRequest r id = .ok data) (buffer : RecvData)
    (fits : data.length ≤ maxRecvDataLength) :
    handleRead (buffer.receive data fits) =
      .answer { fileName := r.name, fileSize := r.size, segment := id } := by
  obtain rfl := Except.ok.inj ((named.serialized id).symm.trans serialized)
  have length : (r.name ++ List.replicate (fileNameLength - r.name.length) 0).length =
      fileNameLength := by
    have short := named.1
    rw [List.length_append, List.length_replicate]
    omega
  rw [handleRead_fields (by rw [Buffer.receive_bytes, List.cons_append, List.append_assoc,
      List.append_assoc]) length (BigEndian.bytesOf_length _ _) (BigEndian.bytesOf_length _ _),
    Resource.takeWhile_padded named.2, Resource.ofNat_valueOf_size, ofNat_valueOf_segment]

end SimpleP2P
