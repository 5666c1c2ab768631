import SimpleP2P.Broadcast.Network

namespace SimpleP2P.PeerNetwork
open Library Peer

variable {w : PeerNetwork} {i a me : IpAddress} {k : ResourceKey}

abbrev Faithful (nameOfFile : FileName) : Prop :=
  nameOfFile.length ≤ fileNameLength ∧ 0 ∉ nameOfFile

theorem Origin.subset {past past' : List PeerRecord} (h : Origin past k) (sub : past ⊆ past') :
    Origin past' k := by
  obtain ⟨a, res, ⟨r, member, added⟩, same⟩ := h
  exact ⟨a, res, ⟨r, sub member, added⟩, same⟩

theorem origin_faithful (run : Reach step (Adding Faithful) start w) (origin : Origin w.past k) :
    Faithful k.1 := by
  obtain ⟨a, res, added, rfl | ⟨header, -, rfl⟩⟩ := origin
  · exact added_kind run added
  · exact Resource.wellNamed_ofHeader header

theorem possessed_wellNamed (run : Reach step (Adding Faithful) start w)
    {before after : List PeerRecord} {r : PeerRecord} (past : w.past = before ++ r :: after)
    {x : Resource} (possessed : x ∈ r.state.db.resourcesOf a) : x.WellNamed := by
  obtain ⟨q, named⟩ := resourcesOf_key possessed
  have known := ((reach_holds run).past before r after past).known q x.key named
  have origin : Origin w.past x.key := Origin.subset known fun s member => by
    rw [past]
    exact List.mem_append_left _ member
  exact origin_faithful run origin

/-! ## Resources that nobody revokes -/

theorem not_takes {allowed : PeerNetwork → Network.Event IpAddress Peer.Event Packet → Prop}
    (run : Reach step allowed start w) (unrevoked : ∀ b, ¬RevokedBy w.past b k) {r : PeerRecord}
    (member : r ∈ w.past) : ¬Takes r.node k r := by
  intro takes
  cases input : r.input with
  | act e =>
      rw [Takes, input] at takes
      obtain ⟨res, revokes, rfl⟩ := takes
      exact unrevoked r.node ⟨r, member, rfl, e, res, input, revokes, Or.inl rfl⟩
  | receive sender packet =>
      rw [Takes, input] at takes
      obtain ⟨-, res, means, rfl⟩ := takes
      obtain ⟨message, also, vouched⟩ :=
        (reach_holds run).sent sender packet (Network.received_sent run member input)
      obtain rfl := means.unique also
      exact unrevoked sender vouched

theorem stands_iff_exists {past : List PeerRecord}
    (kept : ∀ r ∈ past, r.node = me → ¬Takes me k r) :
    Network.Stands (Gives me a k) (Takes me k) (Network.stepsOf past me) ↔
      ∃ r ∈ past, r.node = me ∧ Gives me a k r := by
  constructor
  · rintro ⟨before, r, after, cut, gives, -⟩
    obtain ⟨member, own⟩ := mem_stepsOf.mp
      (cut ▸ List.mem_append_right before (List.mem_cons_self (l := after)) : r ∈ _)
    exact ⟨r, member, own, gives⟩
  · rintro ⟨r, member, own, gives⟩
    obtain ⟨before, after, cut⟩ := List.append_of_mem (mem_stepsOf.mpr ⟨member, own⟩)
    refine ⟨before, r, after, cut, gives, fun s later => ?_⟩
    obtain ⟨there, same⟩ := mem_stepsOf.mp
      (cut ▸ List.mem_append_right before (List.mem_cons_of_mem r later) : s ∈ _)
    exact kept s there same

theorem lists_iff_exists (run : Reach step (Adding Faithful) start w)
    (unrevoked : ∀ b, ¬RevokedBy w.past b k) :
    k ∈ (w.node me).db.keysOfHost a ↔ ∃ r ∈ w.past, r.node = me ∧ Gives me a k r := by
  rw [((reach_holds run).node me).lists, stands_iff_exists]
  rintro r member rfl
  exact not_takes run unrevoked member

/-! ## Agreement -/

theorem own_of_listed (run : Reach step (Adding Faithful) start w) (remote : a ≠ i)
    (unrevoked : ∀ b, ¬RevokedBy w.past b k) (listed : k ∈ (w.node i).db.keysOfHost a) :
    k ∈ (w.node a).db.keysOfHost a := by
  obtain ⟨before, r, after, past, -, -, x, possessed, taken, r', member, own, e, res, input,
    obtains, key⟩ := announced_of_listed run remote listed
  have named := possessed_wellNamed run past possessed
  rw [named.takenFor_iff.mp taken] at unrevoked ⊢
  rw [lists_iff_exists run unrevoked]
  refine ⟨r', past ▸ List.mem_append_left _ member, own, ?_⟩
  rw [Gives, input]
  exact ⟨rfl, res, obtains, key⟩

theorem packet_of_possessed {db : ResourceDatabase} (valid : db.Valid)
    (named : ∀ x ∈ db.resourcesOf db.myHostIp, x.WellNamed) (listed : k ∈ db.keysOfHost db.myHostIp) :
    ∃ packets, db.beacon = .ok packets ∧ ∃ packet ∈ packets, ∃ resources,
      Means packet (.fileList resources) ∧ k ∈ resources.map Resource.key := by
  obtain ⟨packets, ok, -, lists, carry, keys⟩ :=
    ResourceDatabase.beacon_announces valid.possesses named
  obtain ⟨x, inside, rfl⟩ := List.mem_map.mp (keys.mem_iff.mpr listed)
  obtain ⟨resources, chosen, there⟩ := List.mem_flatten.mp inside
  obtain ⟨n, here, rfl⟩ := List.getElem_of_mem chosen
  have bound : n < packets.length := carry.length_eq ▸ here
  refine ⟨packets, ok, packets[n], List.getElem_mem bound, _, ?_, List.mem_map_of_mem there⟩
  exact (carry.get bound here).means

theorem listed_of_own (run : Reach step (Adding Faithful) start w) (remote : a ≠ i)
    {before after : List PeerRecord} {r : PeerRecord} (past : w.past = before ++ r :: after)
    (own : r.node = a) (fired : r.input = .act .beacon)
    (settled : ∀ s ∈ after, s.node = a → ¬Gives a a k s)
    (arrived : ∀ packets, r.state.db.beacon = .ok packets → ∀ packet ∈ packets,
      ∃ s ∈ w.past, s.node = i ∧ s.input = .receive a packet)
    (unrevoked : ∀ b, ¬RevokedBy w.past b k) (listed : k ∈ (w.node a).db.keysOfHost a) :
    k ∈ (w.node i).db.keysOfHost a := by
  have sub : ∀ s ∈ before, s ∈ w.past := fun s member => past ▸ List.mem_append_left _ member
  have informed := (reach_holds run).past before r after past
  rw [own] at informed
  have possessed : k ∈ r.state.db.keysOfHost a := by
    obtain ⟨s, member, here, gives⟩ := (lists_iff_exists run unrevoked).mp listed
    have earlier : s ∈ before := by
      rw [past] at member
      rcases List.mem_append.mp member with earlier | later
      · exact earlier
      · rcases List.mem_cons.mp later with rfl | later
        · rw [Gives, fired] at gives
          obtain ⟨-, res, obtains, -⟩ := gives
          exact obtains.elim
        · exact absurd gives (settled s later here)
    rw [informed.lists, stands_iff_exists]
    · exact ⟨s, earlier, here, gives⟩
    · rintro s member rfl
      exact not_takes run unrevoked (sub s member)
  rw [← informed.steady.address] at possessed
  obtain ⟨packets, ok, packet, chosen, resources, means, mentioned⟩ :=
    packet_of_possessed informed.steady.valid
      (fun x possessed => possessed_wellNamed run past possessed) possessed
  obtain ⟨s, member, here, input⟩ := arrived packets ok packet chosen
  rw [lists_iff_exists run unrevoked]
  refine ⟨s, member, here, ?_⟩
  rw [Gives, input]
  exact ⟨remote, rfl, resources, means, mentioned⟩

/-- Once the packets of a beacon have arrived, in any order and among any others, two nodes agree about
a resource that the host did not get since and nobody revoked. -/
theorem reach_agree (run : Reach step (Adding Faithful) start w) (remote : a ≠ i)
    {before after : List PeerRecord} {r : PeerRecord} (past : w.past = before ++ r :: after)
    (own : r.node = a) (fired : r.input = .act .beacon)
    (settled : ∀ s ∈ after, s.node = a → ¬Gives a a k s)
    (arrived : ∀ packets, r.state.db.beacon = .ok packets → ∀ packet ∈ packets,
      ∃ s ∈ w.past, s.node = i ∧ s.input = .receive a packet)
    (unrevoked : ∀ b, ¬RevokedBy w.past b k) :
    k ∈ (w.node i).db.keysOfHost a ↔ k ∈ (w.node a).db.keysOfHost a :=
  ⟨own_of_listed run remote unrevoked,
    listed_of_own run remote past own fired settled arrived unrevoked⟩

theorem announced_agree : ∃ w : PeerNetwork, (w.node ⟨[1]⟩).db.keysOfHost ⟨[1]⟩ = [([97], 3)] ∧
    (([97], 3) ∈ (w.node ⟨[2]⟩).db.keysOfHost ⟨[1]⟩ ↔
      ([97], 3) ∈ (w.node ⟨[1]⟩).db.keysOfHost ⟨[1]⟩) := by
  obtain ⟨w, run, happened⟩ := exists_reach_of_exec step (Adding Faithful) start
    [.act ⟨[1]⟩ (.add (some 3) [97]), .act ⟨[1]⟩ .beacon, .deliver ⟨[2]⟩ ⟨[1]⟩ Rounds.announceA]
    (fun w => (w.node ⟨[1]⟩).db.keysOfHost ⟨[1]⟩ = [([97], 3)] ∧
      w.past.map (fun r => (r.node, r.input)) = [(⟨[1]⟩, .act (.add (some 3) [97])),
        (⟨[1]⟩, .act .beacon), (⟨[2]⟩, .receive ⟨[1]⟩ Rounds.announceA)] ∧
      w.past[1]?.map (·.state.db.beacon.toOption) = some (some [Rounds.announceA])) (by decide +kernel)
  obtain ⟨listed, inputs, packets⟩ := of_decide_eq_true happened
  refine ⟨w, listed, ?_⟩
  obtain ⟨r₀, _, past, first, rest⟩ := List.map_eq_cons_iff.mp inputs
  obtain ⟨r₁, _, rfl, second, rest⟩ := List.map_eq_cons_iff.mp rest
  obtain ⟨r₂, _, rfl, third, rest⟩ := List.map_eq_cons_iff.mp rest
  obtain rfl := List.map_eq_nil_iff.mp rest
  obtain ⟨own, fired⟩ := Prod.mk.inj second
  obtain ⟨receiver, received⟩ := Prod.mk.inj third
  rw [past] at packets
  have sent : r₁.state.db.beacon.toOption = some [Rounds.announceA] := by simpa using packets
  refine reach_agree run (by decide) (show w.past = [r₀] ++ r₁ :: [r₂] by exact past) own fired ?_ ?_ ?_
  · intro s member
    rw [List.mem_singleton.mp member, receiver]
    exact fun same => absurd same (by decide)
  · intro made ok packet member
    rw [ok] at sent
    obtain rfl : made = [Rounds.announceA] := by simpa [Except.toOption] using sent
    refine ⟨r₂, by simp [past], receiver, ?_⟩
    rw [List.mem_singleton.mp member, received]
  · rintro b ⟨r, member, -, e, x, input, revokes, -⟩
    have revoke : ∃ nameOfFile, r.input = .act (.revoke nameOfFile) := by
      cases e with
      | revoke nameOfFile => exact ⟨nameOfFile, input⟩
      | _ => exact revokes.elim
    obtain ⟨nameOfFile, input⟩ := revoke
    have there := List.mem_map_of_mem (f := fun r => (r.node, r.input)) member
    simp [inputs, input] at there

end SimpleP2P.PeerNetwork
