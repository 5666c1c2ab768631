import SimpleP2P.Broadcast.Departure
import SimpleP2P.Database.Updates

namespace SimpleP2P
open Library

/-! ## The resources of a host -/

namespace ResourceDatabase

def resourcesOf (db : ResourceDatabase) (ip : IpAddress) : List Resource :=
  ((db.findHost ip).elim [] (·.obj.possesedResources)).filterMap db.resources.lookup

def keysOfHost (db : ResourceDatabase) (ip : IpAddress) : List ResourceKey :=
  (db.resourcesOf ip).map Resource.key

variable {db db' : ResourceDatabase}

theorem mem_keysOfHost {ip : IpAddress} {k : ResourceKey} :
    k ∈ db.keysOfHost ip ↔ db.view.possessed (ip, k) ≠ 0 := by
  simp only [keysOfHost, resourcesOf, List.mem_map, List.mem_filterMap, view, ← Nat.pos_iff_ne_zero,
    List.countP_pos_iff, decide_eq_true_eq, possession, Option.map_eq_some_iff]
  constructor
  · rintro ⟨x, ⟨r, listed, there⟩, named⟩
    exact ⟨r, listed, x, there, named⟩
  · rintro ⟨r, listed, x, there, named⟩
    exact ⟨x, ⟨r, listed, there⟩, named⟩

theorem filterMap_lookup {possesed : List ResourcePtr}
    (present : ∀ r ∈ possesed, db.resources.lookup r ≠ none) :
    possesed.map db.resources.lookup = (possesed.filterMap db.resources.lookup).map some := by
  induction possesed with
  | nil => rfl
  | cons r rest ih =>
      obtain ⟨x, found⟩ := Option.ne_none_iff_exists'.mp (present r List.mem_cons_self)
      rw [List.map_cons, List.filterMap_cons_some found, List.map_cons, found,
        ih fun q member => present q (List.mem_cons_of_mem _ member)]

theorem start_keysOfHost (me ip : IpAddress) : (start me).keysOfHost ip = [] := by
  have empty : ∀ p h, (start me).hosts.lookup p = some h → h.possesedResources = [] :=
    Store.forall_lookup_push (by simp) rfl
  unfold keysOfHost resourcesOf
  cases found : (start me).findHost ip with
  | none => rfl
  | some h => simp [empty _ _ (findHost_some found).1]

theorem Valid.possesses (valid : db.Valid) : db.Possesses (db.resourcesOf db.myHostIp) := by
  obtain ⟨host, found, -⟩ := valid.findHost_of_address valid.localhost
  rw [Option.mem_def] at found
  refine ⟨host, found, ?_⟩
  simp only [resourcesOf, found, Option.elim_some]
  exact filterMap_lookup fun r listed => valid.resource_of_possesed (findHost_some found).1 listed

end ResourceDatabase

/-! ## Two nodes -/

/-- The sender, the receiver and its buffer; `advertised` is what was possessed at some round so far,
and `rounded` says that nothing happened since the last one. -/
structure Rounds where
  sender : ResourceDatabase
  receiver : ResourceDatabase
  buffer : UdpBuffer
  advertised : List ResourceKey := []
  rounded : Bool := false

namespace Rounds

def deliver (sender : IpAddress) (node : UdpBuffer × ResourceDatabase) (packet : Packet) :
    Except Fault (UdpBuffer × ResourceDatabase) := do
  let datagram : Datagram := ⟨packet.take udpServBufferSize, List.length_take_le _ _⟩
  let db ← handleReceive (datagram.received node.1) sender node.2
  return (node.1.receive datagram.1 datagram.2, db)

inductive Event
  | addFile (res : Resource) (ip : IpAddress)
  | removeFile (res : Resource) (ip : IpAddress)
  | revokeResource (res : Resource)
  /-- A beacon, and the order in which its packets arrive. -/
  | round (delivered : List Packet)

def change (s : Rounds) (op : ResourceDatabase.Op) : Except Halt Rounds := do
  let sender ← (s.sender.apply op).mapError .fault
  return { s with sender, rounded := false }

def step (s : Rounds) : Event → Except Halt Rounds
  | .addFile res ip => s.change (.addFile res ip)
  | .removeFile res ip => s.change (.removeFile res ip)
  | .revokeResource res => s.change (.revokeResource res)
  | .round delivered => do
      let fired ← s.sender.fireBeacon.mapError .fault
      if delivered.Perm fired.1 then
        let node ← (delivered.foldlM (deliver s.sender.myHostIp) (s.buffer, s.receiver)).mapError .fault
        return {
          sender := fired.2
          receiver := node.2
          buffer := node.1
          advertised := s.advertised ++ s.sender.keysOfHost s.sender.myHostIp
          rounded := true }
      else throw .blocked

def start (me other : IpAddress) : Rounds where
  sender := .start me
  receiver := .start other
  buffer := .zeros udpServBufferSize

def InSync (s : Rounds) : Prop :=
  s.rounded = true → ∀ k, k ∈ s.receiver.keysOfHost s.sender.myHostIp ↔
    k ∈ s.sender.keysOfHost s.sender.myHostIp

/-- Headers can hold the names of all that is possessed, and all that was possessed at an earlier round
still is. -/
def StillPossessed (s : Rounds) : Event → Prop
  | .round _ => (∀ r ∈ s.sender.resourcesOf s.sender.myHostIp, r.WellNamed) ∧
      ∀ k ∈ s.advertised, k ∈ s.sender.keysOfHost s.sender.myHostIp
  | _ => True

instance (s : Rounds) : (e : Event) → Decidable (s.StillPossessed e)
  | .round _ => inferInstanceAs (Decidable (
      (∀ r ∈ s.sender.resourcesOf s.sender.myHostIp, r.WellNamed) ∧
      ∀ k ∈ s.advertised, k ∈ s.sender.keysOfHost s.sender.myHostIp))
  | .addFile _ _ | .removeFile _ _ | .revokeResource _ => .isTrue trivial

variable {s s' : Rounds} {db db' : ResourceDatabase}

/-! ## A round -/

theorem deliver_carries {sender : IpAddress} {packet : Packet} {resources : List Resource}
    (carries : Carries packet resources) {buffer buffer' : UdpBuffer} (remote : db.myHostIp ≠ sender)
    (ok : deliver sender (buffer, db) packet = .ok (buffer', db')) :
    db.updateHost sender resources = .ok db' := by
  obtain ⟨next, handled, ok⟩ := bind_eq_ok.mp ok
  have whole : (⟨packet.take udpServBufferSize, List.length_take_le _ _⟩ : Datagram) =
      ⟨packet, carries.fits⟩ := Subtype.ext (List.take_of_length_le carries.fits)
  rw [whole, carries.handleReceive buffer remote] at handled
  obtain rfl := (Prod.mk.inj (Except.ok.inj ok)).2
  exact handled

theorem deliver_all {sender : IpAddress} {delivered : List Packet} {lists : List (List Resource)}
    (carry : List.Forall₂ Carries delivered lists) {buffer buffer' : UdpBuffer}
    (remote : db.myHostIp ≠ sender)
    (ok : delivered.foldlM (deliver sender) (buffer, db) = .ok (buffer', db')) :
    db.receiveAll (lists.map fun resources => (sender, resources)) = .ok db' := by
  induction carry generalizing db buffer with
  | nil => exact congrArg Except.ok (Prod.mk.inj (Except.ok.inj ok)).2
  | @cons packet resources rest others first _ ih =>
      rw [List.foldlM_cons] at ok
      obtain ⟨⟨nextBuffer, next⟩, here, later⟩ := bind_eq_ok.mp ok
      have updated := deliver_carries first remote here
      have applied : db.apply (.updateHost sender resources) = .ok next := updated
      have remote' : next.myHostIp ≠ sender := by
        rwa [(Prod.mk.inj (ResourceDatabase.apply_localhost applied)).2]
      have received := ih remote' later
      unfold ResourceDatabase.receiveAll at received ⊢
      rw [List.map_cons, List.foldlM_cons, updated]
      exact received

theorem mem_newsOf {sender : IpAddress} {lists : List (List Resource)} {k : ResourceKey} :
    (sender, some k) ∈ ResourceDatabase.newsOf (lists.map fun resources => (sender, resources)) ↔
      k ∈ lists.flatten.map Resource.key := by
  simp [ResourceDatabase.newsOf, View.news, List.mem_flatMap]

theorem deliver_learns (valid : db.Valid) (allocated : db.Allocated) {sender : IpAddress}
    (remote : db.myHostIp ≠ sender) {packets delivered : List Packet} {resources : List Resource}
    (announced : Announces packets resources) (order : delivered.Perm packets)
    {buffer buffer' : UdpBuffer}
    (ok : delivered.foldlM (deliver sender) (buffer, db) = .ok (buffer', db')) :
    db'.Valid ∧ db'.Allocated ∧ db'.localhost = db.localhost ∧ ∀ k, k ∈ db'.keysOfHost sender ↔
      k ∈ db.keysOfHost sender ∨ k ∈ resources.map Resource.key := by
  obtain ⟨-, lists, carry, keys⟩ := announced
  obtain ⟨lists', carry', order'⟩ := List.perm_comp_forall₂ order carry
  have received := deliver_all carry' remote ok
  obtain ⟨final, ok', valid', allocated', localhost, viewed⟩ :=
    ResourceDatabase.receiveAll_view valid allocated _
  obtain rfl := Except.ok.inj (ok'.symm.trans received)
  refine ⟨valid', allocated', localhost, fun k => ?_⟩
  rw [ResourceDatabase.mem_keysOfHost, viewed, View.foldl_hear_possessed, mem_newsOf,
    ← ResourceDatabase.mem_keysOfHost, ← keys.mem_iff]
  exact or_congr Iff.rfl ((order'.flatten.map _).mem_iff)

/-! ## Runs -/

structure Synced (me other : IpAddress) (s : Rounds) : Prop where
  sender : s.sender.Valid ∧ Node.Punctual s.sender ∧ s.sender.myHostIp = me
  receiver : s.receiver.Valid ∧ s.receiver.Allocated ∧ s.receiver.myHostIp = other
  learnt : ∀ k, k ∈ s.receiver.keysOfHost me ↔ k ∈ s.advertised
  rounded : s.rounded = true → ∀ k, k ∈ s.advertised ↔ k ∈ s.sender.keysOfHost me

theorem Synced.inSync {me other : IpAddress} (h : s.Synced me other) : s.InSync := by
  intro rounded k
  rw [h.sender.2.2, h.learnt, h.rounded rounded]

theorem synced_start (me other : IpAddress) : (start me other).Synced me other := by
  refine ⟨⟨ResourceDatabase.valid_start me, Node.punctual_start me, rfl⟩,
    ⟨ResourceDatabase.valid_start other, ResourceDatabase.allocated_start other, rfl⟩, ?_, ?_⟩
  · simp [start, ResourceDatabase.start_keysOfHost]
  · simp [start]

theorem Synced.change {me other : IpAddress} (h : s.Synced me other) {op : ResourceDatabase.Op}
    (ok : s.change op = .ok s') : s'.Synced me other := by
  obtain ⟨sender, applied, ok⟩ := bind_eq_ok.mp ok
  obtain rfl := Except.ok.inj ok
  have applied := mapError_ok.mp applied
  obtain ⟨valid, punctual, ip⟩ := h.sender
  refine ⟨⟨valid.apply applied, ?_, ?_⟩, h.receiver, h.learnt, by simp⟩
  · exact (ResourceDatabase.apply_edits applied).invariant punctual fun _ _ kept edit => kept.edit edit
  · exact (Prod.mk.inj (ResourceDatabase.apply_localhost applied)).2.trans ip

theorem Synced.round {me other : IpAddress} (apart : me ≠ other) (h : s.Synced me other)
    {delivered : List Packet} (still : s.StillPossessed (.round delivered))
    (ok : s.step (.round delivered) = .ok s') : s'.Synced me other := by
  obtain ⟨valid, punctual, ip⟩ := h.sender
  obtain ⟨validReceiver, allocated, otherIp⟩ := h.receiver
  obtain ⟨⟨packets, sender⟩, fired, ok⟩ := bind_eq_ok.mp ok
  have fired := mapError_ok.mp fired
  obtain ⟨made, rfl⟩ := Node.fireBeacon_punctual punctual fired
  split at ok
  · rename_i order
    obtain ⟨⟨buffer, receiver⟩, arrived, ok⟩ := bind_eq_ok.mp ok
    have arrived := mapError_ok.mp arrived
    obtain rfl := Except.ok.inj ok
    obtain ⟨named, held⟩ := still
    obtain ⟨sent, beacon, announced⟩ := ResourceDatabase.beacon_announces valid.possesses named
    obtain rfl := Except.ok.inj (made.symm.trans beacon)
    have remote : s.receiver.myHostIp ≠ s.sender.myHostIp := by
      rw [ip, otherIp]
      exact apart.symm
    obtain ⟨valid', allocated', localhost, learns⟩ :=
      deliver_learns validReceiver allocated remote announced order arrived
    rw [ip] at learns held
    refine ⟨h.sender, ⟨valid', allocated', (Prod.mk.inj localhost).2.trans otherIp⟩, fun k => ?_,
      fun _ k => ?_⟩
    · rw [learns, h.learnt, ip, List.mem_append]
      rfl
    · rw [ip, List.mem_append]
      exact ⟨fun member => member.elim (held k) id, Or.inr⟩
  · contradiction

theorem Synced.step {me other : IpAddress} (apart : me ≠ other) (h : s.Synced me other) {e : Event}
    (still : s.StillPossessed e) (ok : s.step e = .ok s') : s'.Synced me other := by
  cases e with
  | round delivered => exact h.round apart still ok
  | _ => exact h.change ok

theorem reach_inSync {me other : IpAddress} (apart : me ≠ other)
    (h : Reach step StillPossessed (start me other) s) : s.InSync := by
  have synced : s.Synced me other :=
    h.invariant (synced_start me other) fun _ _ _ synced still ok => synced.step apart still ok
  exact synced.inSync

def announceA : Packet :=
  packetOf [97 :: List.replicate 255 0 ++ BigEndian.bytesOf 8 3]

theorem announced_inSync : ∃ s : Rounds, s.rounded = true ∧
    s.receiver.keysOfHost ⟨[1]⟩ = [([97], 3)] ∧ s.InSync := by
  obtain ⟨s, run, announced⟩ := exists_reach_of_exec step StillPossessed (start ⟨[1]⟩ ⟨[2]⟩)
    [.addFile { size := 3, name := [97] } ⟨[1]⟩, .round [announceA]]
    (fun s => s.rounded = true ∧ s.receiver.keysOfHost ⟨[1]⟩ = [([97], 3)]) (by decide +kernel)
  obtain ⟨rounded, listed⟩ := of_decide_eq_true announced
  exact ⟨s, rounded, listed, reach_inSync (by decide) run⟩

/-- A file is announced and removed; the next round has no packet, and the receiver keeps the file. -/
theorem inSync_fails : ¬∀ (me other : IpAddress) (s : Rounds), me ≠ other →
    Reach step Anything (start me other) s → s.InSync := by
  intro claim
  obtain ⟨s, run, kept⟩ := exists_reach_of_exec step Anything (start ⟨[1]⟩ ⟨[2]⟩)
    [.addFile { size := 3, name := [97] } ⟨[1]⟩, .round [announceA],
      .removeFile { size := 3, name := [97] } ⟨[1]⟩, .round []]
    (fun s => s.rounded = true ∧ ([97], 3) ∈ s.receiver.keysOfHost s.sender.myHostIp ∧
      s.sender.keysOfHost s.sender.myHostIp = []) (by decide +kernel)
  obtain ⟨rounded, listed, removed⟩ := of_decide_eq_true kept
  have possessed := (claim ⟨[1]⟩ ⟨[2]⟩ s (by decide) run rounded _).mp listed
  simp [removed] at possessed

end Rounds

end SimpleP2P
