import SimpleP2P.Library.Memory

namespace SimpleP2P

abbrev Bytes := List UInt8

abbrev FileName := Bytes

abbrev SegmentId := UInt16

def quitConn : UInt8 := 4
def reqSegment : UInt8 := 8
def revoke : UInt8 := 16
def fileList : UInt8 := 32

def beaconMaxCount : Nat := 3
def resourceHeaderSize : Nat := 264
def udpServBufferSize : Nat := 1 + 8 + beaconMaxCount * resourceHeaderSize

def leftMargin : UInt16 := 20
def timeoutCounterLimit : Int := 20

def fileNameLength : Nat := 256
def fileSizeLength : Nat := 8
def segmentSize : Nat := 1024

/-- A `boost::asio::ip::address`, of which only equality is used. -/
structure IpAddress where
  octets : Bytes
  deriving DecidableEq, Repr

end SimpleP2P
