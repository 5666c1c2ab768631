import SimpleP2P.Host
import SimpleP2P.Library.Store

/-!
# The resource database

Two vectors of shared pointers, to hosts and to resources, whose objects list each other by weak
pointers. Every public operation takes the lock of the database for its whole duration, so each of
them is one step here. An operation fails where it would dereference an expired weak pointer or read
past the end of a vector.
-/

namespace SimpleP2P
open Library

/-- `myHostIp` is the address of the object `my_host` points to, which nothing changes. -/
structure ResourceDatabase where
  myHost : HostPtr
  myHostIp : IpAddress
  resources : Store Resource
  hosts : Store Host

namespace ResourceDatabase

def start (localhost : IpAddress) : ResourceDatabase where
  myHost := (Store.empty : Store Host).next
  myHostIp := localhost
  resources := .empty
  hosts := Store.empty.push { hostIp := localhost }

def findResource (db : ResourceDatabase) (res : Resource) : Option (Shared Resource) :=
  db.resources.find? (·.sameAs res)

def findHost (db : ResourceDatabase) (ip : IpAddress) : Option (Shared Host) :=
  db.hosts.find? (·.hostIp == ip)

def ensureResource (db : ResourceDatabase) (res : Resource) : ResourceDatabase × ResourcePtr :=
  match db.findResource res with
  | some r => (db, r.ptr)
  | none => ({ db with resources := db.resources.push res.copy }, db.resources.next)

def ensureHost (db : ResourceDatabase) (ip : IpAddress) : ResourceDatabase × HostPtr :=
  match db.findHost ip with
  | some h => (db, h.ptr)
  | none => ({ db with hosts := db.hosts.push { hostIp := ip } }, db.hosts.next)

def connect (db : ResourceDatabase) (h : HostPtr) (r : ResourcePtr) : ResourceDatabase :=
  { db with
    resources := db.resources.modify r fun x =>
      { x with hostsInPossession := x.hostsInPossession ++ [h] }
    hosts := db.hosts.modify h fun x =>
      { x with possesedResources := x.possesedResources ++ [r] } }

/-- Of the host argument only the address is used. -/
def addFileInternal (db : ResourceDatabase) (res : Resource) (ip : IpAddress) : ResourceDatabase :=
  let (db, r) := db.ensureResource res
  let (db, h) := db.ensureHost ip
  db.connect h r

def findPossessor (db : ResourceDatabase) (ip : IpAddress) :
    List HostPtr → Except Fault (Option HostPtr)
  | [] => .ok none
  | p :: rest =>
      match db.hosts.lookup p with
      | none => .error .expiredPointer
      | some h => if h.hostIp = ip then .ok (some p) else db.findPossessor ip rest

def disconnect (db : ResourceDatabase) (h : HostPtr) (r : ResourcePtr) : ResourceDatabase :=
  { db with
    hosts := db.hosts.modify h (·.removeResource r)
    resources := db.resources.modify r (·.removeHost h) }

def removeFile (db : ResourceDatabase) (res : Resource) (ip : IpAddress) :
    Except Fault (Bool × ResourceDatabase) :=
  match db.findResource res with
  | none => .ok (false, db)
  | some r => do
      match ← db.findPossessor ip r.obj.hostsInPossession with
      | none => return (false, db)
      | some h => return (true, db.disconnect h r.ptr)

def countSame (db : ResourceDatabase) (res : Resource) : List ResourcePtr → Except Fault Nat
  | [] => .ok 0
  | p :: rest =>
      match db.resources.lookup p with
      | none => .error .expiredPointer
      | some x => do
          let n ← db.countSame res rest
          return if res.sameAs x then n + 1 else n

def advertise (toUpdate : HostPtr) (ip : IpAddress) (db : ResourceDatabase) (res : Resource) :
    Except Fault ResourceDatabase :=
  match db.hosts.lookup toUpdate with
  | none => .error .expiredPointer
  | some h => do
      if (← db.countSame res h.possesedResources) = 0 then return db.addFileInternal res ip
      else return db

/-- The argument is a host with the resources it advertises, which its caller keeps alive. -/
def updateHost (db : ResourceDatabase) (ip : IpAddress) (possesed : List Resource) :
    Except Fault ResourceDatabase :=
  let (db, h) := db.ensureHost ip
  let db := { db with hosts := db.hosts.modify h fun x => { x with noOfMissedUpdates := 0 } }
  possesed.foldlM (advertise h ip) db

def revokeResource (db : ResourceDatabase) (res : Resource) : Except Fault ResourceDatabase :=
  match db.findResource res with
  | none => .ok db
  | some r => do
      let resources := db.resources.modify r.ptr (·.setRevoked)
      let hosts ← db.hosts.modifyAll .expiredPointer (·.removeResource r.ptr) r.obj.hostsInPossession
      return { db with resources, hosts }

def removeHost (db : ResourceDatabase) (h : Shared Host) : Except Fault ResourceDatabase :=
  if h.ptr ≠ db.myHost then do
    let resources ←
      db.resources.modifyAll .expiredPointer (·.removeHost h.ptr) h.obj.possesedResources
    return { db with resources, hosts := db.hosts.erase h.ptr }
  else .ok db

/-- The range-for loop keeps the end it computed first and steps by position, so an element erased
under it shifts the next one away and leaves the last positions outside the vector. -/
def checkForGoneHostsLoop (leftMargin : UInt16) :
    Nat → Nat → ResourceDatabase → Except Fault ResourceDatabase
  | 0, _, db => .ok db
  | rounds + 1, i, db =>
      match db.hosts.objects[i]? with
      | none => .error .outOfBounds
      | some h =>
          if h.obj.noOfMissedUpdates ≥ leftMargin then do
            let db ← db.removeHost h
            checkForGoneHostsLoop leftMargin rounds (i + 1) db
          else checkForGoneHostsLoop leftMargin rounds (i + 1) db

def checkForGoneHosts (db : ResourceDatabase) (leftMargin : UInt16) :
    Except Fault ResourceDatabase :=
  checkForGoneHostsLoop leftMargin db.hosts.objects.length 0 db

def findSame (db : ResourceDatabase) (res : Resource) : List ResourcePtr → Except Fault Bool
  | [] => .ok false
  | p :: rest =>
      match db.resources.lookup p with
      | none => .error .expiredPointer
      | some x => if x.sameAs res then .ok true else db.findSame res rest

def hasFile (db : ResourceDatabase) (res : Resource) : Except Fault Bool :=
  match db.findHost db.myHostIp with
  | none => .error .outOfBounds
  | some host => db.findSame res host.obj.possesedResources

def headersOf (db : ResourceDatabase) : List ResourcePtr → Except Fault (List Bytes)
  | [] => .ok []
  | p :: rest =>
      match db.resources.lookup p with
      | none => .error .expiredPointer
      | some x => do
          let header ← x.generateResourceHeader
          let headers ← db.headersOf rest
          return header :: headers

def generateDatabaseHeaders (db : ResourceDatabase) : Except Fault (List Bytes) :=
  match db.findHost db.myHostIp with
  | none => .error .outOfBounds
  | some host => db.headersOf host.obj.possesedResources

inductive Op
  | addFile (res : Resource) (ip : IpAddress)
  | removeFile (res : Resource) (ip : IpAddress)
  | updateHost (ip : IpAddress) (possesed : List Resource)
  | revokeResource (res : Resource)
  | checkForGoneHosts (leftMargin : UInt16)
  deriving DecidableEq, Repr

def apply (db : ResourceDatabase) : Op → Except Fault ResourceDatabase
  | .addFile res ip => .ok (db.addFileInternal res ip)
  | .removeFile res ip => (db.removeFile res ip).map Prod.snd
  | .updateHost ip possesed => db.updateHost ip possesed
  | .revokeResource res => db.revokeResource res
  | .checkForGoneHosts leftMargin => db.checkForGoneHosts leftMargin

end ResourceDatabase

end SimpleP2P
