import SimpleP2P.Broadcast.SendQueue
import SimpleP2P.Broadcast.UdpServer

namespace SimpleP2P
open Library

/-- The headers are taken from the back of the vector. -/
def insertResources : Nat → List Bytes → Packet → Packet × List Bytes
  | 0, files, packet => (packet, files)
  | i + 1, files, packet =>
      match files.getLast? with
      | none => (packet, files)
      | some res => insertResources i files.dropLast (packet ++ res)

def packetCount (files : List Bytes) : Nat :=
  if files.length ≥ beaconMaxCount then beaconMaxCount else files.length

theorem packetCount_eq (files : List Bytes) : packetCount files = min 3 files.length := by
  unfold packetCount
  split <;> simp only [beaconMaxCount] at * <;> omega

/-- The loop of `fire_beacon`; without files it ends at once. Every round takes at least one header, so
their number bounds the rounds (`beaconPackets_groups`). -/
def beaconLoop : Nat → List Bytes → List Packet
  | 0, _ => []
  | rounds + 1, files =>
      let i := packetCount files
      if i > 0 then
        let made := insertResources i files (fileList :: BigEndian.bytesOf 8 i)
        made.1 :: if made.2.isEmpty then [] else beaconLoop rounds made.2
      else []

def beaconPackets (files : List Bytes) : List Packet := beaconLoop files.length files

namespace ResourceDatabase

def beacon (db : ResourceDatabase) : Except Fault (List Packet) := do
  return beaconPackets (← db.generateDatabaseHeaders)

def fireBeacon (db : ResourceDatabase) : Except Fault (List Packet × ResourceDatabase) := do
  let packets ← db.beacon
  return (packets, ← db.checkForGoneHosts leftMargin)

end ResourceDatabase

def revokeFile (resource : Resource) : Except Fault Packet := do
  return revoke :: (← resource.generateResourceHeader)

/-! ## Cutting the list -/

theorem insertResources_reverse (i : Nat) (stack : List Bytes) (packet : Packet) :
    insertResources i stack.reverse packet =
      (packet ++ (stack.take i).flatten, (stack.drop i).reverse) := by
  induction i generalizing stack packet with
  | zero => simp [insertResources]
  | succ i ih =>
      cases stack with
      | nil => simp [insertResources]
      | cons res rest => simp [insertResources, ih, List.append_assoc]

def packetOf (headers : List Bytes) : Packet :=
  fileList :: (BigEndian.bytesOf 8 headers.length ++ headers.flatten)

theorem beaconLoop_nil (rounds : Nat) : beaconLoop rounds [] = [] := by
  cases rounds <;> rfl

theorem beaconLoop_groups {rounds : Nat} {stack : List Bytes} (enough : stack.length ≤ rounds) :
    ∃ groups : List (List Bytes), beaconLoop rounds stack.reverse = groups.map packetOf ∧
      groups.flatten = stack ∧ groups.length = (stack.length + 2) / 3 ∧
      ∀ group ∈ groups, 1 ≤ group.length ∧ group.length ≤ beaconMaxCount := by
  induction rounds generalizing stack with
  | zero =>
      obtain rfl : stack = [] := List.length_eq_zero_iff.mp (Nat.le_zero.mp enough)
      exact ⟨[], rfl, rfl, rfl, by simp⟩
  | succ rounds ih =>
      have count : packetCount stack.reverse = min 3 stack.length := by simp [packetCount_eq]
      simp only [beaconLoop, count, insertResources_reverse]
      split
      · rename_i some
        have taken : (stack.take (min 3 stack.length)).length = min 3 stack.length := by
          simp
        have first : fileList :: BigEndian.bytesOf 8 (min 3 stack.length) ++
            (stack.take (min 3 stack.length)).flatten =
              packetOf (stack.take (min 3 stack.length)) := by
          rw [packetOf, taken]
          rfl
        obtain ⟨groups, packets, all, number, sizes⟩ :=
          @ih (stack.drop (min 3 stack.length)) (by simp; omega)
        refine ⟨stack.take (min 3 stack.length) :: groups, ?_, ?_, ?_, ?_⟩
        · rw [List.map_cons, ← packets, ← first]
          split
          · rename_i last
            rw [List.isEmpty_iff.mp last, beaconLoop_nil]
          · rfl
        · simp [all]
        · simp only [List.length_cons, number, List.length_drop]
          omega
        · rintro group (_ | ⟨_, later⟩)
          · simp only [taken, beaconMaxCount]
            omega
          · exact sizes group later
      · rename_i none
        have empty : stack = [] := by
          rw [← List.length_eq_zero_iff]
          omega
        exact ⟨[], rfl, by simp [empty], by simp [empty], by simp⟩

theorem beaconPackets_groups (stack : List Bytes) : ∃ groups : List (List Bytes),
    beaconPackets stack.reverse = groups.map packetOf ∧ groups.flatten = stack ∧
      groups.length = (stack.length + 2) / 3 ∧
      ∀ group ∈ groups, 1 ≤ group.length ∧ group.length ≤ beaconMaxCount := by
  unfold beaconPackets
  rw [List.length_reverse]
  exact beaconLoop_groups (Nat.le_refl _)

/-! ## Reading a packet back -/

theorem readHeaders_flatten {headers : List Bytes} (before : Bytes)
    (sized : ∀ header ∈ headers, header.length = resourceHeaderSize) :
    readHeaders (.ofBytes (before ++ headers.flatten)) before.length headers.length =
      .ok (headers.map .ofHeader) := by
  induction headers generalizing before with
  | nil => rfl
  | cons header rest ih =>
      have size := sized header List.mem_cons_self
      have later := ih (before ++ header) fun other member => sized other (List.mem_cons_of_mem _ member)
      rw [List.length_append, size, List.append_assoc] at later
      have inside : before.length + resourceHeaderSize ≤
          (before ++ (header ++ rest.flatten)).length := by
        simp only [List.length_append, size]
        omega
      rw [List.flatten_cons, List.length_cons, readHeaders, Memory.readRange_ofBytes inside,
        List.drop_left' rfl, List.take_left' size]
      simp only [bind, Except.bind, later]
      rfl

theorem flatten_length {headers : List Bytes}
    (sized : ∀ header ∈ headers, header.length = resourceHeaderSize) :
    headers.flatten.length = resourceHeaderSize * headers.length := by
  induction headers with
  | nil => rfl
  | cons header rest ih =>
      obtain ⟨size, sizes⟩ := List.forall_mem_cons.mp sized
      rw [List.flatten_cons, List.length_append, size, ih sizes, List.length_cons]
      ring

theorem packetOf_length {headers : List Bytes}
    (sized : ∀ header ∈ headers, header.length = resourceHeaderSize) :
    (packetOf headers).length = 9 + resourceHeaderSize * headers.length := by
  rw [packetOf, List.length_cons, List.length_append, BigEndian.bytesOf_length, flatten_length sized]
  omega

theorem packetOf_count {headers : List Bytes} (few : headers.length ≤ beaconMaxCount) :
    BigEndian.valueOf (((packetOf headers).drop 1).take 8) = headers.length := by
  have small : headers.length < 256 ^ 8 := Nat.lt_of_le_of_lt few (by decide)
  rw [packetOf, List.drop_succ_cons, List.drop_zero, List.take_left' (BigEndian.bytesOf_length _ _),
    BigEndian.valueOf_bytesOf, Nat.mod_eq_of_lt small]

theorem parse_packetOf {headers : List Bytes}
    (sized : ∀ header ∈ headers, header.length = resourceHeaderSize)
    (few : headers.length ≤ beaconMaxCount) :
    parse (.ofBytes (packetOf headers)) = .ok (.fileList (headers.map .ofHeader)) := by
  have first : Memory.ofBytes (packetOf headers) 0 = .ok fileList := rfl
  have length := packetOf_length sized
  have counted : Memory.readRange (.ofBytes (packetOf headers)) 1 8 =
      .ok (((packetOf headers).drop 1).take 8) := Memory.readRange_ofBytes (by omega)
  have resources : readHeaders (.ofBytes (packetOf headers)) 9 headers.length =
      .ok (headers.map .ofHeader) := by
    have read := readHeaders_flatten (fileList :: BigEndian.bytesOf 8 headers.length) sized
    rwa [List.length_cons, BigEndian.bytesOf_length] at read
  simp only [parse, first, bind, Except.bind, if_true, counted, packetOf_count few, resources]
  rfl

structure Carries (packet : Packet) (resources : List Resource) : Prop where
  some : 1 ≤ resources.length
  few : resources.length ≤ beaconMaxCount
  count : BigEndian.valueOf ((packet.drop 1).take 8) = resources.length
  length : packet.length = 9 + resourceHeaderSize * resources.length
  fits : packet.length ≤ udpServBufferSize
  parsed : ∀ buffer : UdpBuffer,
    parse (Datagram.received ⟨packet, fits⟩ buffer) = .ok (.fileList resources)

theorem carries_packetOf {headers : List Bytes}
    (sized : ∀ header ∈ headers, header.length = resourceHeaderSize) (some : 1 ≤ headers.length)
    (few : headers.length ≤ beaconMaxCount) : Carries (packetOf headers) (headers.map .ofHeader) := by
  have length := packetOf_length sized
  have bound : headers.length ≤ 3 := few
  have fits : (packetOf headers).length ≤ udpServBufferSize := by
    rw [length]
    simp only [udpServBufferSize, beaconMaxCount, resourceHeaderSize]
    omega
  have parsed (buffer : UdpBuffer) : parse (Datagram.received ⟨packetOf headers, fits⟩ buffer) =
      .ok (.fileList (headers.map .ofHeader)) :=
    Datagram.parse_received (d := ⟨packetOf headers, fits⟩) (parse_packetOf sized few) buffer
  refine ⟨?_, ?_, ?_, ?_, fits, parsed⟩
  · simpa using some
  · simpa using few
  · simpa using packetOf_count few
  · simpa using length

theorem Carries.handleReceive {packet : Packet} {resources : List Resource}
    (h : Carries packet resources) (buffer : UdpBuffer) {sender : IpAddress} {db : ResourceDatabase}
    (remote : db.myHostIp ≠ sender) :
    handleReceive (Datagram.received ⟨packet, h.fits⟩ buffer) sender db =
      db.updateHost sender resources := by
  rw [SimpleP2P.handleReceive, if_pos remote, h.parsed]
  rfl

/-! ## What a beacon says -/

def Announces (packets : List Packet) (resources : List Resource) : Prop :=
  packets.length = (resources.length + 2) / 3 ∧ ∃ lists, List.Forall₂ Carries packets lists ∧
    (lists.flatten.map Resource.key).Perm (resources.map Resource.key)

def Revokes (packet : Packet) (resource : Resource) : Prop :=
  ∃ fits : packet.length ≤ udpServBufferSize, ∀ buffer, ∃ parsed,
    parse (Datagram.received ⟨packet, fits⟩ buffer) = .ok (.revoke parsed) ∧
      parsed.sameAs resource = true

namespace ResourceDatabase

variable {db : ResourceDatabase}

def Possesses (db : ResourceDatabase) (resources : List Resource) : Prop :=
  ∃ host, db.findHost db.myHostIp = some host ∧
    host.obj.possesedResources.map db.resources.lookup = resources.map some

theorem headersOf_ok {possesed : List ResourcePtr} {resources : List Resource}
    (locked : possesed.map db.resources.lookup = resources.map some)
    (named : ∀ r ∈ resources, r.WellNamed) : ∃ headers, db.headersOf possesed = .ok headers ∧
      (∀ header ∈ headers, header.length = resourceHeaderSize) ∧
      headers.map (fun header => (Resource.ofHeader header).key) = resources.map Resource.key := by
  induction possesed generalizing resources with
  | nil =>
      obtain rfl : resources = [] := by simpa using locked.symm
      exact ⟨[], rfl, by simp, rfl⟩
  | cons p rest ih =>
      obtain _ | ⟨r, later⟩ := resources
      · simp at locked
      · obtain ⟨here, locked⟩ := List.cons.inj locked
        have own := (named r List.mem_cons_self).header
        obtain ⟨size, decoded⟩ := (named r List.mem_cons_self).decode own
        obtain ⟨headers, ok, sized, keys⟩ :=
          ih locked fun other member => named other (List.mem_cons_of_mem _ member)
        refine ⟨_ :: headers, ?_, List.forall_mem_cons.mpr ⟨size, sized⟩, ?_⟩
        · simp only [headersOf, here, own, ok, bind, Except.bind]
          rfl
        · rw [List.map_cons, List.map_cons, keys, decoded]
          rfl

theorem beacon_announces {resources : List Resource} (possessed : db.Possesses resources)
    (named : ∀ r ∈ resources, r.WellNamed) :
    ∃ packets, db.beacon = .ok packets ∧ Announces packets resources := by
  obtain ⟨host, found, locked⟩ := possessed
  obtain ⟨headers, ok, sized, keys⟩ := headersOf_ok locked named
  obtain ⟨groups, packets, all, number, sizes⟩ := beaconPackets_groups headers.reverse
  rw [List.reverse_reverse] at packets
  have lengths : headers.length = resources.length := by
    simpa using congrArg List.length keys
  have inside : ∀ group ∈ groups, ∀ header ∈ group, header.length = resourceHeaderSize := by
    intro group member header listed
    have there : header ∈ groups.flatten := List.mem_flatten.mpr ⟨group, member, listed⟩
    rw [all] at there
    exact sized header (List.mem_reverse.mp there)
  refine ⟨beaconPackets headers, ?_, ?_, groups.map (·.map .ofHeader), ?_, ?_⟩
  · simp only [beacon, generateDatabaseHeaders, found, ok, bind, Except.bind]
    rfl
  · rw [packets, List.length_map, number, List.length_reverse, lengths]
  · rw [packets, List.forall₂_map_left_iff, List.forall₂_map_right_iff, List.forall₂_same]
    exact fun group member =>
      carries_packetOf (inside group member) (sizes group member).1 (sizes group member).2
  · have same : (groups.map (·.map Resource.ofHeader)).flatten.map Resource.key =
        (resources.map Resource.key).reverse := by
      rw [← List.map_flatten, all, ← keys]
      simp
    rw [same]
    exact List.reverse_perm _

end ResourceDatabase

theorem revokeFile_revokes {r : Resource} (named : r.WellNamed) :
    ∃ packet, revokeFile r = .ok packet ∧ Revokes packet r := by
  have own := named.header
  obtain ⟨size, decoded⟩ := named.decode own
  generalize r.name ++ List.replicate (fileNameLength - r.name.length) 0 ++
    BigEndian.bytesOf fileSizeLength r.size.toNat = header at own size decoded
  have length : (revoke :: header).length = 265 := by rw [List.length_cons, size]; rfl
  have first : Memory.ofBytes (revoke :: header) 0 = .ok revoke := rfl
  have read : Memory.readRange (.ofBytes (revoke :: header)) 1 264 = .ok header := by
    rw [Memory.readRange_ofBytes (by omega), List.drop_succ_cons, List.drop_zero,
      List.take_of_length_le (by exact size.le)]
  have parsed : parse (.ofBytes (revoke :: header)) = .ok (.revoke (.ofHeader header)) := by
    simp only [parse, first, bind, Except.bind, if_neg Datagram.revoke_ne_fileList, if_true, read]
    rfl
  refine ⟨revoke :: header, by simp only [revokeFile, own]; rfl, by rw [length]; decide, ?_⟩
  exact fun buffer => ⟨_, Datagram.parse_received parsed buffer, by simp [decoded]⟩

theorem broadcasts_roundTrip {db : ResourceDatabase} {resources : List Resource}
    (possessed : db.Possesses resources) (named : ∀ r ∈ resources, r.WellNamed) :
    (∃ packets, db.beacon = .ok packets ∧ Announces packets resources) ∧
      ∀ r : Resource, r.WellNamed → ∃ packet, revokeFile r = .ok packet ∧ Revokes packet r :=
  ⟨ResourceDatabase.beacon_announces possessed named, fun _ named => revokeFile_revokes named⟩

/-- Four files take two packets. -/
theorem added_roundTrip : ∃ (db : ResourceDatabase) (files : List Resource) (packets : List Packet),
    files.map Resource.key = [([97], 3), ([98], 3), ([99], 0), ([97], 4)] ∧
      db.beacon = .ok packets ∧ packets.length = 2 ∧ Announces packets files ∧
      ∀ r ∈ files, ∃ packet, revokeFile r = .ok packet ∧ Revokes packet r := by
  let me : IpAddress := ⟨[10, 0, 0, 1]⟩
  let file (name : FileName) (size : UInt64) : Resource := { size, name, hostsInPossession := [0] }
  let db := ((((ResourceDatabase.start me).addFileInternal { size := 3, name := [97] } me).addFileInternal
    { size := 3, name := [98] } me).addFileInternal { size := 0, name := [99] } me).addFileInternal
    { size := 4, name := [97] } me
  let files := [file [97] 3, file [98] 3, file [99] 0, file [97] 4]
  have possessed : db.Possesses files :=
    ⟨⟨0, { hostIp := me, possesedResources := [0, 1, 2, 3] }⟩, by decide +kernel, by decide +kernel⟩
  have named : ∀ r ∈ files, r.WellNamed := by decide
  obtain ⟨⟨packets, sent, announces⟩, revokes⟩ := broadcasts_roundTrip possessed named
  exact ⟨db, files, packets, rfl, sent, announces.1.trans (by decide), announces, fun r member => revokes r (named r member)⟩

end SimpleP2P
