import SimpleP2P.Resource

namespace SimpleP2P

structure Host where
  hostIp : IpAddress
  noOfMissedUpdates : UInt16 := 0
  possesedResources : List ResourcePtr := []
  deriving DecidableEq, Repr

namespace Host

def removeResource (h : Host) (res : ResourcePtr) : Host :=
  { h with possesedResources := h.possesedResources.filter (· != res) }

@[simp] theorem removeResource_twice (h : Host) (res : ResourcePtr) :
    (h.removeResource res).removeResource res = h.removeResource res := by
  simp [removeResource, List.filter_filter]

end Host

/-- The attributes of a host that concern delays. Times are the whole seconds of `std::time_t`. -/
structure HostDelays where
  timeoutCounter : Int8 := 0
  retarded : Bool := false
  banTime : Int
  deriving DecidableEq, Repr

namespace HostDelays

def isRetarded (h : HostDelays) (now : Int) : Bool := now < h.banTime

/-- The ban of `BAN_TIME` is one second. -/
def increaseTimeoutCounter (h : HostDelays) (now : Int) : HostDelays :=
  let counter := h.timeoutCounter + 1
  if timeoutCounterLimit ≤ counter.toInt then
    { timeoutCounter := counter, retarded := true, banTime := now + 1 }
  else { h with timeoutCounter := counter }

end HostDelays

end SimpleP2P
