import SimpleP2P.Host
import SimpleP2P.Download.CompleteResource
import SimpleP2P.Library.Transition
import SimpleP2P.Library.Threads

/-!
# A running download

One worker thread for each host that has the file, and the thread of the download service, which
waits for completion and checks the workers for timeouts. A step is one critical section, or one
access to an attribute that another thread uses too. A worker that waits in `get_segment` is parked
until it is notified or wakes by itself.
-/

namespace SimpleP2P
open Library

/-- Where a worker is in `connect`, `worker`, `get_segment` and `download`. -/
inductive WorkerPc
  | connecting
  | loopTest
  | banTest
  | banWait
  /-- `get_segment` is called, again where the wait was ended by a notification. -/
  | completionTest (notified : Bool)
  | scan (notified : Bool)
  | parked
  | returned (segment : Segment)
  | requesting (segment : Segment)
  | receiving (segment : Segment)
  | clearing (segment : Segment)
  | completing (segment : Segment)
  | failing (segment : Segment)
  | releasing (segment : Segment)
  | terminating
  | finished
  deriving DecidableEq, Repr

structure DownloadWorker where
  host : HostPtr
  timeouted : Bool := false
  closed : Bool := false
  ownedSegmentId : SegmentId := noSegmentId
  pc : WorkerPc := .connecting
  deriving DecidableEq, Repr

/-- Where the service is in `controll_workers` and in the `check_timeout` of one of its workers. -/
inductive ControllerPc
  | waiting
  | surveying (i : Nat)
  | checking (i : Nat)
  | increasing (i : Nat)
  | loading (i : Nat)
  | releasing (i : Nat) (id : SegmentId)
  | marking (i : Nat)
  | storing
  | returned
  deriving DecidableEq, Repr

structure Download where
  complete : CompleteResource
  workers : List DownloadWorker
  hosts : HostPtr → HostDelays
  controller : ControllerPc := .waiting

/-- What the environment decides in a step: whether an input or output operation succeeds, the time,
and which of the parked workers `notify_one` chooses. -/
structure Choice where
  io : Bool := true
  now : Int := 0
  notified : Nat := 0
  deriving DecidableEq, Repr

/-- The length of `"Failed to download segment: "`, to which a segment id is added as an offset. -/
def failureTextLength : Nat := 28

/-- The steps of a worker that change nothing but the worker. -/
def DownloadWorker.advance (w : DownloadWorker) (completed : Bool) (delays : HostDelays)
    (choice : Choice) : Except Halt DownloadWorker :=
  match w.pc with
  | .connecting => .ok { w with pc := if choice.io then .loopTest else .terminating }
  | .loopTest => .ok { w with pc := if w.closed then .finished else .banTest }
  | .banTest =>
      .ok { w with pc := if delays.isRetarded choice.now then .banWait else .completionTest false }
  -- `get_ban_time_point` is the present time, so the wait is over at once
  | .banWait => .ok { w with pc := .completionTest false }
  | .completionTest notified =>
      .ok { w with pc := if completed then .returned .noSegmentLeft else .scan notified }
  | .returned segment =>
      if segment.id = noSegmentId then .ok { w with pc := .finished }
      else .ok { w with ownedSegmentId := segment.id, pc := .requesting segment }
  | .requesting segment =>
      .ok { w with pc := if choice.io then .receiving segment else .failing segment }
  | .receiving segment =>
      .ok { w with pc := if choice.io then .clearing segment else .failing segment }
  | .clearing segment => .ok { w with timeouted := false, pc := .completing segment }
  | .failing segment =>
      if segment.id.toNat ≤ failureTextLength then .ok { w with pc := .releasing segment }
      else .error (.fault .outOfBounds)
  | .terminating => .ok { w with closed := true, pc := .finished }
  | .scan _ | .parked | .completing _ | .releasing _ | .finished => .error .blocked

namespace Download

def start (resource : Resource) (possessors : List HostPtr) (delays : HostPtr → HostDelays) :
    Download where
  complete := .ofResource resource
  workers := possessors.map fun host => { host }
  hosts := delays

def update (d : Download) (i : Nat) (w : DownloadWorker) : Download :=
  { d with workers := d.workers.set i w }

def notifyAll (d : Download) : Download :=
  { d with workers := d.workers.map fun w =>
      if w.pc = .parked then { w with pc := .completionTest true } else w }

def notifyOne (d : Download) (chosen : Nat) : Except Halt Download :=
  if d.workers.any (·.pc = .parked) then
    match d.workers[chosen]? with
    | some w =>
        if w.pc = .parked then .ok (d.update chosen { w with pc := .completionTest true })
        else .error .blocked
    | none => .error .blocked
  else .ok d

def setSegment (d : Download) (id : SegmentId) : Except Halt Download := do
  let complete ← (d.complete.setSegment id).mapError .fault
  let d := { d with complete }
  return if complete.isCompleted then d.notifyAll else d

def unsetBusy (d : Download) (id : SegmentId) (chosen : Nat) : Except Halt Download := do
  let complete ← (d.complete.unsetBusy id).mapError .fault
  notifyOne { d with complete } chosen

def workerStep (d : Download) (i : Nat) (w : DownloadWorker) (choice : Choice) :
    Except Halt Download :=
  match w.pc with
  | .scan _ =>
      match d.complete.takeSegment with
      | some (segment, complete) =>
          .ok ({ d with complete }.update i { w with pc := .returned segment })
      | none => .ok (d.update i { w with pc := .parked })
  | .completing segment => do
      return (← d.setSegment segment.id).update i { w with pc := .loopTest }
  | .releasing _ => do
      return (← d.unsetBusy w.ownedSegmentId choice.notified).update i { w with pc := .terminating }
  | _ => do
      return d.update i (← w.advance d.complete.isCompleted (d.hosts w.host) choice)

def advance (d : Download) (choice : Choice) : Except Halt ControllerPc :=
  match d.controller with
  | .waiting => .ok (if d.complete.isCompleted then .storing else .surveying 0)
  | .surveying i =>
      match d.workers[i]? with
      | some w =>
          .ok (if w.closed || (d.hosts w.host).isRetarded choice.now then .surveying (i + 1)
            else .checking 0)
      | none => .ok .returned
  | .checking i =>
      match d.workers[i]? with
      | some w => .ok (if w.timeouted then .increasing i else .marking i)
      | none => .ok .waiting
  | .loading i =>
      match d.workers[i]? with
      | some w => .ok (.releasing i w.ownedSegmentId)
      | none => .error .blocked
  | .storing => .ok .returned
  | .increasing _ | .releasing _ _ | .marking _ | .returned => .error .blocked

def controllerStep (d : Download) (choice : Choice) : Except Halt Download :=
  match d.controller with
  | .increasing i =>
      match d.workers[i]? with
      | some w => .ok { d with
          hosts := fun p =>
            if p = w.host then (d.hosts p).increaseTimeoutCounter choice.now else d.hosts p
          controller := .loading i }
      | none => .error .blocked
  | .releasing i id => do return { ← d.unsetBusy id choice.notified with controller := .marking i }
  | .marking i =>
      match d.workers[i]? with
      | some w => .ok { d.update i { w with timeouted := true } with controller := .checking (i + 1) }
      | none => .error .blocked
  | _ => do return { d with controller := ← d.advance choice }

inductive Event
  | worker (i : Nat) (choice : Choice)
  | wake (i : Nat)
  | close (i : Nat)
  | controller (choice : Choice)
  deriving DecidableEq, Repr

def step (d : Download) : Event → Except Halt Download
  | .worker i choice =>
      match d.workers[i]? with
      | some w => d.workerStep i w choice
      | none => .error .blocked
  | .wake i =>
      match d.workers[i]? with
      | some w =>
          if w.pc = .parked then .ok (d.update i { w with pc := .completionTest false })
          else .error .blocked
      | none => .error .blocked
  | .close i =>
      match d.workers[i]? with
      | some w => .ok (d.update i { w with closed := true })
      | none => .error .blocked
  | .controller choice => d.controllerStep choice

end Download

end SimpleP2P
