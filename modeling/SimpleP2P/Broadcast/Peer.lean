import SimpleP2P.Broadcast.Rounds
import SimpleP2P.CLI
import SimpleP2P.Database.Revocation
import SimpleP2P.Library.Network

namespace SimpleP2P
open Library

/-! ## The resources a host is listed for -/

namespace Possession

variable {P Q : Possession} {me : HostPtr} {myIp ip a : IpAddress} {k key : ResourceKey} {l : Label}

def Lists (P : Possession) (ip : IpAddress) (k : ResourceKey) : Prop :=
  ∃ p r, P.address p = some ip ∧ P.key r = some k ∧ P.graph.forward p r

theorem Valid.lists_step (v : Valid me myIp P) (step : Step l P Q) (listed : Q.Lists ip k) :
    P.Lists ip k ∨ l = .link ip k := by
  obtain ⟨p, r, address, named, forth⟩ := listed
  cases step with
  | @addHost _ q new free fresh =>
      have left := (v.left_iff p).mp (v.linked.ends p r forth).1
      obtain ⟨old, there⟩ := Option.ne_none_iff_exists'.mp left
      have kept := address_step (l := .addHost new) there (by simp) (.addHost free fresh)
      exact Or.inl ⟨p, r, there.trans (kept.symm.trans address), named, forth⟩
  | @addResource _ q new free fresh =>
      have right := (v.right_iff r).mp (v.linked.ends p r forth).2.1
      obtain ⟨old, there⟩ := Option.ne_none_iff_exists'.mp right
      have kept := key_step (l := .addResource new) there (.addResource free fresh)
      exact Or.inl ⟨p, r, address, there.trans (kept.symm.trans named), forth⟩
  | link host resource =>
      rcases forth with old | ⟨rfl, rfl⟩
      · exact Or.inl ⟨p, r, address, named, old⟩
      · right
        rw [Option.some.inj (host.symm.trans address), Option.some.inj (resource.symm.trans named)]
  | unlink host resource => exact Or.inl ⟨p, r, address, named, forth.1⟩
  | freeze resource => exact Or.inl ⟨p, r, address, named, forth.1⟩
  | @drop _ q old there =>
      have other : p ≠ q := forth.2
      refine Or.inl ⟨p, r, ?_, named, forth.1⟩
      simpa [Possession.drop, Function.update_apply, other] using address

theorem Valid.lists_created (v : Valid me myIp P) {permits : Label → Prop}
    (steps : Steps permits P Q)
    (only : ∀ l, permits l → ∃ ip key, l = .addHost ip ∨ l = .addResource key) :
    Q.Lists ip k ↔ P.Lists ip k := by
  obtain ⟨forward, -⟩ := steps.created only
  constructor
  · rintro ⟨p, r, address, named, forth⟩
    rw [forward] at forth
    obtain ⟨left, right, -⟩ := v.linked.ends p r forth
    obtain ⟨ip', there⟩ := Option.ne_none_iff_exists'.mp ((v.left_iff p).mp left)
    obtain ⟨k', resource⟩ := Option.ne_none_iff_exists'.mp ((v.right_iff r).mp right)
    have kept := ResourceDatabase.address_steps steps there fun l permitted => by
      obtain ⟨_, _, rfl | rfl⟩ := only l permitted <;> simp
    have kept' := ResourceDatabase.key_steps steps resource
    exact ⟨p, r, there.trans (kept.symm.trans address), resource.trans (kept'.symm.trans named), forth⟩
  · rintro ⟨p, r, address, named, forth⟩
    refine ⟨p, r, ResourceDatabase.address_steps steps address fun l permitted => ?_,
      ResourceDatabase.key_steps steps named, forward ▸ forth⟩
    obtain ⟨_, _, rfl | rfl⟩ := only l permitted <;> simp

theorem Valid.lists_link (v : Valid me myIp P) {p : HostPtr} {r : ResourcePtr}
    (address : P.address p = some a) (named : P.key r = some key) :
    (P.link p r).Lists ip k ↔ P.Lists ip k ∨ ip = a ∧ k = key := by
  constructor
  · intro listed
    rcases v.lists_step (.link address named) listed with old | same
    · exact Or.inl old
    · obtain ⟨rfl, rfl⟩ := Label.link.inj same
      exact Or.inr ⟨rfl, rfl⟩
  · rintro (⟨q, s, there, resource, forth⟩ | ⟨rfl, rfl⟩)
    · exact ⟨q, s, there, resource, Or.inl forth⟩
    · exact ⟨p, r, address, named, Or.inr ⟨rfl, rfl⟩⟩

theorem Valid.lists_freeze (v : Valid me myIp P) {r : ResourcePtr} (named : P.key r = some key) :
    (P.freeze r).Lists ip k ↔ P.Lists ip k ∧ k ≠ key := by
  constructor
  · rintro ⟨p, s, there, resource, forth, kept⟩
    refine ⟨⟨p, s, there, resource, forth⟩, ?_⟩
    rintro rfl
    have same : s = r := v.key_inj s r k resource named
    exact kept ⟨same, same ▸ (v.linked.ends p s forth).2.2⟩
  · rintro ⟨⟨p, s, there, resource, forth⟩, other⟩
    refine ⟨p, s, there, resource, forth, ?_⟩
    rintro ⟨rfl, -⟩
    exact other (Option.some.inj (resource.symm.trans named))

theorem Steps.key_origin {permits : Label → Prop} (h : Steps permits P Q) {r : ResourcePtr}
    (named : Q.key r = some k) : P.key r = some k ∨ permits (.addResource k) := by
  let Inv (Q : Possession) : Prop := ∀ k, Q.key r = some k → P.key r = some k ∨ permits (.addResource k)
  have kept : Inv Q := h.invariant (fun _ => Or.inl) fun l Q R old permitted step k named => by
    cases step with
    | @addResource _ q new free fresh =>
        simp only [Possession.addResource, Function.update_apply] at named
        split at named
        · rw [← Option.some.inj named]
          exact Or.inr permitted
        · exact old k named
    | _ => exact old k named
  exact kept k named

theorem Steps.address_origin {permits : Label → Prop} (h : Steps permits P Q) {p : HostPtr}
    (named : Q.address p = some a) : P.address p = some a ∨ permits (.addHost a) := by
  let Inv (Q : Possession) : Prop := ∀ a, Q.address p = some a → P.address p = some a ∨ permits (.addHost a)
  have kept : Inv Q := h.invariant (fun _ => Or.inl) fun l Q R old permitted step a named => by
    cases step with
    | @addHost _ q new free fresh =>
        simp only [Possession.addHost, Function.update_apply] at named
        split at named
        · rw [← Option.some.inj named]
          exact Or.inr permitted
        · exact old a named
    | @drop _ q there =>
        simp only [Possession.drop, Function.update_apply] at named
        split at named
        · contradiction
        · exact old a named
    | _ => exact old a named
  exact kept a named

theorem Steps.frozen_origin {permits : Label → Prop} (h : Steps permits P Q)
    (there : ∀ r, P.graph.frozen r → P.key r ≠ none) {r : ResourcePtr} (cold : Q.graph.frozen r)
    (named : Q.key r = some k) : P.graph.frozen r ∨ permits (.freeze k) := by
  let Inv (Q : Possession) : Prop := (∀ r, Q.graph.frozen r → Q.key r ≠ none) ∧
    ∀ r k, Q.graph.frozen r → Q.key r = some k → P.graph.frozen r ∨ permits (.freeze k)
  have kept : Inv Q := h.invariant ⟨there, fun _ _ cold _ => Or.inl cold⟩
    fun l Q R ⟨present, old⟩ permitted step => by
      cases step with
      | @addResource _ q new free fresh =>
          have same (r : ResourcePtr) (cold : Q.graph.frozen r) :
              (Q.addResource q new).key r = Q.key r := by
            refine Function.update_of_ne ?_ _ _
            rintro rfl
            exact present r cold free
          refine ⟨fun r cold => ?_, fun r k cold named => old r k cold ?_⟩
          · exact (same r cold).symm ▸ present r cold
          · exact (same r cold).symm.trans named
      | @freeze _ q key there =>
          refine ⟨fun r cold => ?_, fun r k cold named => ?_⟩
          · rcases cold with cold | rfl
            · exact present r cold
            · exact fun missing => Option.some_ne_none _ (there.symm.trans missing)
          · rcases cold with cold | rfl
            · exact old r k cold named
            · rw [← Option.some.inj (there.symm.trans named)]
              exact Or.inr permitted
      | _ => exact ⟨present, old⟩
  exact kept.2 r k cold named

end Possession

namespace ResourceDatabase

variable {db db' : ResourceDatabase} {ip : IpAddress} {k : ResourceKey}

theorem Valid.mem_keysOfHost (valid : db.Valid) :
    k ∈ db.keysOfHost ip ↔ db.possession.Lists ip k := by
  rw [ResourceDatabase.mem_keysOfHost]
  constructor
  · intro listed
    cases found : db.findHost ip with
    | none => simp [view, found] at listed
    | some h =>
        obtain ⟨r, forth, named⟩ := (possessed_ne_zero valid (findHost_some found).2).mp listed
        exact ⟨h.ptr, r, (findHost_some found).2, named, forth⟩
  · rintro ⟨p, r, address, named, forth⟩
    exact (possessed_ne_zero valid address).mpr ⟨r, forth, named⟩

theorem Valid.addFile_lists (valid : db.Valid) (res : Resource) (host : IpAddress) :
    k ∈ (db.addFileInternal res host).keysOfHost ip ↔
      k ∈ db.keysOfHost ip ∨ ip = host ∧ k = res.key := by
  obtain ⟨p, r, address, named, linked⟩ := db.addFileInternal_link res host
  have added : db.apply (.addFile res host) = .ok (db.addFileInternal res host) := rfl
  have prepared := valid.prepare res host
  have created : (db.prepare res host).possession.Lists ip k ↔ db.possession.Lists ip k :=
    valid.lists_created (db.prepare_steps res host) fun l permitted => by
      rcases permitted with rfl | rfl
      · exact ⟨host, res.key, Or.inl rfl⟩
      · exact ⟨host, res.key, Or.inr rfl⟩
  rw [(valid.apply added).mem_keysOfHost, linked, prepared.lists_link address named, created,
    valid.mem_keysOfHost]

theorem Valid.updateHost_lists (valid : db.Valid) (allocated : db.Allocated) {host : IpAddress}
    {resources : List Resource} (ok : db.updateHost host resources = .ok db') :
    k ∈ db'.keysOfHost ip ↔
      k ∈ db.keysOfHost ip ∨ ip = host ∧ k ∈ resources.map Resource.key := by
  obtain ⟨final, received, -, -, -, viewed⟩ := receiveAll_view valid allocated [(host, resources)]
  have whole : db.receiveAll [(host, resources)] = db.updateHost host resources := by
    simp [receiveAll]
  obtain rfl := Except.ok.inj (ok.symm.trans (whole.symm.trans received))
  rw [ResourceDatabase.mem_keysOfHost, viewed, View.foldl_hear_possessed,
    ← ResourceDatabase.mem_keysOfHost]
  refine or_congr Iff.rfl ?_
  simp only [newsOf, View.news, List.flatMap_cons, List.flatMap_nil, List.append_nil, List.mem_cons,
    Prod.mk.injEq, reduceCtorEq, and_false, List.mem_map, false_or, Option.some.injEq]
  constructor
  · rintro ⟨_, ⟨r, listed, rfl⟩, rfl, rfl⟩
    exact ⟨rfl, r, listed, rfl⟩
  · rintro ⟨rfl, r, listed, rfl⟩
    exact ⟨_, ⟨r, listed, rfl⟩, rfl, rfl⟩

theorem Valid.revokeResource_lists (valid : db.Valid) {res : Resource}
    (ok : db.revokeResource res = .ok db') :
    k ∈ db'.keysOfHost ip ↔ k ∈ db.keysOfHost ip ∧ k ≠ res.key := by
  have applied : db.apply (.revokeResource res) = .ok db' := ok
  rw [(valid.apply applied).mem_keysOfHost, valid.mem_keysOfHost]
  cases found : db.findResource res with
  | none =>
      obtain rfl := Except.ok.inj ((revokeResource_missing found).symm.trans ok)
      refine (and_iff_left_of_imp ?_).symm
      rintro ⟨p, r, -, named, -⟩ rfl
      exact findResource_none found r named
  | some r =>
      rw [revokeResource_found found ok]
      exact valid.lists_freeze (findResource_some found).2

end ResourceDatabase

/-! ## A node -/

structure Peer where
  db : ResourceDatabase
  buffer : UdpBuffer := .zeros udpServBufferSize

namespace Peer

inductive Event
  /-- The command `add`, and what `file_size` says. -/
  | add (size : Option UInt64) (nameOfFile : FileName)
  /-- A download is stored, of a resource that was taken from the database. -/
  | downloaded (resource : ResourcePtr)
  | revoke (nameOfFile : FileName)
  | beacon
  deriving DecidableEq, Repr

def start (me : IpAddress) : Peer where
  db := .start me

def act (peer : Peer) : Event → Except Halt (Peer × List Packet)
  | .add size nameOfFile =>
      match CLI.add (fun _ => size) nameOfFile with
      | some res => .ok ({ peer with db := peer.db.addFileInternal res peer.db.myHostIp }, [])
      | none => .ok (peer, [])
  | .downloaded resource =>
      match peer.db.resources.lookup resource with
      | some res => .ok ({ peer with db := peer.db.addFileInternal res peer.db.myHostIp }, [])
      | none => .error .blocked
  | .revoke nameOfFile => do
      let (_, packet, db) ← (CLI.revoke peer.db true nameOfFile).mapError .fault
      return ({ peer with db }, packet.toList)
  | .beacon => do
      let (packets, db) ← peer.db.fireBeacon.mapError .fault
      return ({ peer with db }, packets)

def receive (peer : Peer) (sender : IpAddress) (packet : Packet) : Except Halt Peer := do
  let (buffer, db) ← (Rounds.deliver sender (peer.buffer, peer.db) packet).mapError .fault
  return { db, buffer }

def protocol : Protocol IpAddress Peer Event Packet Halt where
  act _ := act
  receive _ := receive

end Peer

/-! ## What a packet means -/

def Means (packet : Packet) (message : Message) : Prop :=
  ∃ fits : packet.length ≤ udpServBufferSize, ∀ buffer : UdpBuffer,
    parse (Datagram.received ⟨packet, fits⟩ buffer) = .ok message

theorem Means.unique {packet : Packet} {message message' : Message} (h : Means packet message)
    (other : Means packet message') : message = message' := by
  obtain ⟨fits, parsed⟩ := h
  obtain ⟨_, parsed'⟩ := other
  exact Except.ok.inj ((parsed (.zeros _)).symm.trans (parsed' (.zeros _)))

theorem Carries.means {packet : Packet} {resources : List Resource} (h : Carries packet resources) :
    Means packet (.fileList resources) :=
  ⟨h.fits, h.parsed⟩

/-- What a receiver takes the resource for, which is told of it by a header. -/
def Resource.TakenFor (r : Resource) (k : ResourceKey) : Prop :=
  ∃ header, r.generateResourceHeader = .ok header ∧ (Resource.ofHeader header).key = k

theorem Resource.WellNamed.takenFor_iff {r : Resource} (named : r.WellNamed) {k : ResourceKey} :
    r.TakenFor k ↔ k = r.key := by
  have own := named.header
  obtain ⟨-, decoded⟩ := named.decode own
  constructor
  · rintro ⟨header, same, rfl⟩
    obtain rfl := Except.ok.inj (own.symm.trans same)
    rw [decoded]
    rfl
  · rintro rfl
    exact ⟨_, own, by rw [decoded]; rfl⟩

theorem Resource.takenFor_congr {r other : Resource} (same : r.key = other.key) {k : ResourceKey} :
    r.TakenFor k ↔ other.TakenFor k := by
  simp only [Resource.TakenFor, Resource.generateResourceHeader_of_key same]

theorem generateResourceHeader_length {r : Resource} {header : Bytes}
    (own : r.generateResourceHeader = .ok header) : header.length = resourceHeaderSize := by
  rw [Resource.generateResourceHeader_eq] at own
  split at own
  · obtain rfl := Except.ok.inj own
    rw [List.length_append, List.length_take, List.length_append, List.length_replicate,
      BigEndian.bytesOf_length]
    simp only [fileNameLength, fileSizeLength, resourceHeaderSize] at *
    omega
  · contradiction

theorem revokeFile_means {r : Resource} {packet : Packet} (ok : revokeFile r = .ok packet) :
    ∃ parsed, Means packet (.revoke parsed) ∧ r.TakenFor parsed.key := by
  obtain ⟨header, own, made⟩ := bind_eq_ok.mp ok
  obtain rfl := Except.ok.inj made
  have size := generateResourceHeader_length own
  have length : (revoke :: header).length = 265 := by rw [List.length_cons, size]; rfl
  have first : Memory.ofBytes (revoke :: header) 0 = .ok revoke := rfl
  have read : Memory.readRange (.ofBytes (revoke :: header)) 1 264 = .ok header := by
    rw [Memory.readRange_ofBytes (by omega), List.drop_succ_cons, List.drop_zero,
      List.take_of_length_le (by exact size.le)]
  have parsed : parse (.ofBytes (revoke :: header)) = .ok (.revoke (.ofHeader header)) := by
    simp only [parse, first, bind, Except.bind, if_neg Datagram.revoke_ne_fileList, if_true, read]
    rfl
  exact ⟨.ofHeader header, ⟨by rw [length]; decide, fun buffer => Datagram.parse_received parsed buffer⟩,
    header, own, rfl⟩

namespace ResourceDatabase

variable {db : ResourceDatabase}

theorem Valid.beacon_means (valid : db.Valid) {packets : List Packet} (ok : db.beacon = .ok packets)
    {packet : Packet} (member : packet ∈ packets) :
    ∃ resources, Means packet (.fileList resources) ∧ resources ≠ [] ∧ ∀ r ∈ resources,
      ∃ x ∈ db.resourcesOf db.myHostIp, x.TakenFor r.key := by
  obtain ⟨headers, generated, made⟩ := bind_eq_ok.mp ok
  obtain rfl := Except.ok.inj made
  obtain ⟨host, found, -⟩ := valid.findHost_of_address valid.localhost
  rw [Option.mem_def] at found
  simp only [generateDatabaseHeaders, found] at generated
  have origin : ∀ header ∈ headers, ∃ x ∈ db.resourcesOf db.myHostIp,
      x.generateResourceHeader = .ok header := by
    intro header listed
    obtain ⟨r, possessed, x, there, own⟩ := headersOf_mem generated listed
    refine ⟨x, ?_, own⟩
    simp only [resourcesOf, found, Option.elim_some]
    exact List.mem_filterMap.mpr ⟨r, possessed, there⟩
  obtain ⟨groups, cut, all, -, sizes⟩ := beaconPackets_groups headers.reverse
  rw [List.reverse_reverse] at cut
  rw [cut] at member
  obtain ⟨group, chosen, rfl⟩ := List.mem_map.mp member
  have inside : ∀ header ∈ group, header ∈ headers := fun header listed => by
    rw [← List.mem_reverse, ← all]
    exact List.mem_flatten.mpr ⟨group, chosen, listed⟩
  have sized : ∀ header ∈ group, header.length = resourceHeaderSize := fun header listed => by
    obtain ⟨x, -, own⟩ := origin header (inside header listed)
    exact generateResourceHeader_length own
  refine ⟨_, (carries_packetOf sized (sizes group chosen).1 (sizes group chosen).2).means, ?_, ?_⟩
  · have some := (sizes group chosen).1
    exact List.ne_nil_of_length_pos (by rw [List.length_map]; exact some)
  · intro r listed
    obtain ⟨header, here, rfl⟩ := List.mem_map.mp listed
    obtain ⟨x, possessed, own⟩ := origin header (inside header here)
    exact ⟨x, possessed, header, own, rfl⟩

end ResourceDatabase

/-! ## A step of a node -/

namespace Peer

variable {peer peer' : Peer}

theorem receive_means {sender : IpAddress} {packet : Packet} {message : Message}
    (h : Means packet message) : (peer.receive sender packet).map Peer.db =
      (if peer.db.myHostIp ≠ sender then message.deliver sender peer.db else .ok peer.db).mapError
        .fault := by
  obtain ⟨fits, parsed⟩ := h
  have whole : (⟨packet.take udpServBufferSize, List.length_take_le _ _⟩ : Datagram) =
      ⟨packet, fits⟩ := Subtype.ext (List.take_of_length_le fits)
  have handled : handleReceive (Datagram.received ⟨packet, fits⟩ peer.buffer) sender peer.db =
      if peer.db.myHostIp ≠ sender then message.deliver sender peer.db else .ok peer.db := by
    rw [handleReceive, parsed]
    rfl
  simp only [receive, Rounds.deliver, whole, handled]
  cases (if peer.db.myHostIp ≠ sender then message.deliver sender peer.db else .ok peer.db) <;> rfl

def Obtains (peer : Peer) : Event → Resource → Prop
  | .add size nameOfFile, res => CLI.add (fun _ => size) nameOfFile = some res
  | .downloaded resource, res => peer.db.resources.lookup resource = some res
  | _, _ => False

def Revokes (peer : Peer) : Event → Resource → Prop
  | .revoke nameOfFile, res => ∃ r, CLI.firstNamed peer.db nameOfFile = some r ∧ r.obj = res
  | _, _ => False

theorem Obtains.unique {e : Event} {res other : Resource} (h : peer.Obtains e res)
    (h' : peer.Obtains e other) : res = other := by
  cases e with
  | add size nameOfFile => exact Option.some.inj (h.symm.trans h')
  | downloaded resource => exact Option.some.inj (h.symm.trans h')
  | _ => exact h.elim

theorem Revokes.unique {e : Event} {res other : Resource} (h : peer.Revokes e res)
    (h' : peer.Revokes e other) : res = other := by
  cases e with
  | revoke nameOfFile =>
      obtain ⟨r, found, rfl⟩ := h
      obtain ⟨r', found', rfl⟩ := h'
      rw [Option.some.inj (found.symm.trans found')]
  | _ => exact h.elim

theorem Obtains.not_revokes {e : Event} {res other : Resource} (h : peer.Obtains e res) :
    ¬peer.Revokes e other := by
  cases e with
  | add size nameOfFile => exact id
  | downloaded resource => exact id
  | _ => exact h.elim

inductive Acts (peer : Peer) (e : Event) : ResourceDatabase → List Packet → Prop
  | obtained {res : Resource} : peer.Obtains e res →
      Acts peer e (peer.db.addFileInternal res peer.db.myHostIp) []
  | revoked {res : Resource} {db : ResourceDatabase} {packet : Packet} : peer.Revokes e res →
      revokeFile res = .ok packet → peer.db.revokeResource res = .ok db → Acts peer e db [packet]
  | idle {packets : List Packet} : (∀ x, ¬peer.Obtains e x) → (∀ x, ¬peer.Revokes e x) →
      (packets = [] ∨ e = .beacon ∧ peer.db.beacon = .ok packets) → Acts peer e peer.db packets

theorem act_acts (punctual : Node.Punctual peer.db) {e : Event} {out : List Packet}
    (ok : peer.act e = .ok (peer', out)) : Acts peer e peer'.db out := by
  cases e with
  | add size nameOfFile =>
      cases made : CLI.add (fun _ => size) nameOfFile with
      | none =>
          simp only [act, made, Except.ok.injEq, Prod.mk.injEq] at ok
          obtain ⟨rfl, rfl⟩ := ok
          exact .idle (by simp [Obtains, made]) (by simp [Revokes]) (Or.inl rfl)
      | some res =>
          simp only [act, made, Except.ok.injEq, Prod.mk.injEq] at ok
          obtain ⟨rfl, rfl⟩ := ok
          exact .obtained made
  | downloaded resource =>
      cases there : peer.db.resources.lookup resource with
      | none => simp [act, there] at ok
      | some res =>
          simp only [act, there, Except.ok.injEq, Prod.mk.injEq] at ok
          obtain ⟨rfl, rfl⟩ := ok
          exact .obtained there
  | revoke nameOfFile =>
      obtain ⟨⟨reply, packet, db⟩, done, made⟩ := bind_eq_ok.mp ok
      have done := mapError_ok.mp done
      obtain ⟨rfl, rfl⟩ := Prod.mk.inj (Except.ok.inj made)
      cases found : CLI.firstNamed peer.db nameOfFile with
      | none =>
          simp only [CLI.revoke, found, Except.ok.injEq, Prod.mk.injEq] at done
          obtain ⟨-, rfl, rfl⟩ := done
          exact .idle (by simp [Obtains]) (by simp [Revokes, found]) (Or.inl rfl)
      | some r =>
          obtain ⟨-, bytes, rfl, sent, ok⟩ := (CLI.revoke_online found).mp done
          exact .revoked ⟨r, found, rfl⟩ sent ok
  | beacon =>
      obtain ⟨⟨packets, db⟩, fired, made⟩ := bind_eq_ok.mp ok
      obtain ⟨rfl, rfl⟩ := Prod.mk.inj (Except.ok.inj made)
      obtain ⟨sent, same⟩ := Node.fireBeacon_punctual punctual (mapError_ok.mp fired)
      simp only [same]
      exact .idle (by simp [Obtains]) (by simp [Revokes]) (Or.inr ⟨rfl, sent⟩)

end Peer

end SimpleP2P
