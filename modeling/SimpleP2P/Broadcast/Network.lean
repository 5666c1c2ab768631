import SimpleP2P.Broadcast.Peer

namespace SimpleP2P
open Library

abbrev PeerRecord := Record IpAddress Peer Peer.Event Packet

abbrev PeerNetwork := Network IpAddress Peer Peer.Event Packet

namespace Peer

/-! ## What happened -/

variable {past : List PeerRecord} {me a b : IpAddress} {k : ResourceKey} {peer peer' : Peer}

def Added (past : List PeerRecord) (a : IpAddress) (k : ResourceKey) : Prop :=
  ∃ r ∈ past, r.node = a ∧ r.input = .act (.add (some k.2) k.1)

def Obtained (past : List PeerRecord) (a : IpAddress) (k : ResourceKey) : Prop :=
  ∃ r ∈ past, r.node = a ∧ ∃ e res, r.input = .act e ∧ r.state.Obtains e res ∧ res.key = k

/-- A file that was added at a console, under its own name or as its header is read. -/
def Origin (past : List PeerRecord) (k : ResourceKey) : Prop :=
  ∃ a res, Added past a (Resource.key res) ∧ (k = res.key ∨ res.TakenFor k)

def Announces (a : IpAddress) (k : ResourceKey) (r : PeerRecord) : Prop :=
  r.node = a ∧ r.input = .act .beacon ∧ ∃ x ∈ r.state.db.resourcesOf a, x.TakenFor k

def Announced (past : List PeerRecord) (a : IpAddress) (k : ResourceKey) : Prop :=
  ∃ r ∈ past, Announces a k r

def RevokedBy (past : List PeerRecord) (b : IpAddress) (k : ResourceKey) : Prop :=
  ∃ r ∈ past, r.node = b ∧ ∃ e x, r.input = .act e ∧ r.state.Revokes e x ∧ (k = x.key ∨ x.TakenFor k)

def Vouched (past : List PeerRecord) (sender : IpAddress) : Message → Prop
  | .fileList resources =>
      resources ≠ [] ∧ ∀ r ∈ resources, Announced past sender r.key ∧ Origin past r.key
  | .revoke res => RevokedBy past sender res.key
  | .unknown => False

def Good (past : List PeerRecord) (sender : IpAddress) (packet : Packet) : Prop :=
  ∃ message, Means packet message ∧ Vouched past sender message

def Gives (me a : IpAddress) (k : ResourceKey) (r : PeerRecord) : Prop :=
  match r.input with
  | .act e => a = me ∧ ∃ res, r.state.Obtains e res ∧ res.key = k
  | .receive sender packet => sender ≠ me ∧ a = sender ∧
      ∃ resources, Means packet (.fileList resources) ∧ k ∈ resources.map Resource.key

def Takes (me : IpAddress) (k : ResourceKey) (r : PeerRecord) : Prop :=
  match r.input with
  | .act e => ∃ res, r.state.Revokes e res ∧ res.key = k
  | .receive sender packet => sender ≠ me ∧ ∃ res, Means packet (.revoke res) ∧ res.key = k

structure Steady (me : IpAddress) (db : ResourceDatabase) : Prop where
  valid : db.Valid
  allocated : db.Allocated
  sound : db.ReferentiallySound
  punctual : Node.Punctual db
  address : db.myHostIp = me

structure Informed (past : List PeerRecord) (me : IpAddress) (peer : Peer) : Prop where
  steady : Steady me peer.db
  hosts : ∀ p a, peer.db.possession.address p = some a → a = me ∨ ∃ k, Announced past a k
  known : ∀ r k, peer.db.possession.key r = some k → Origin past k
  frozen : ∀ r k, peer.db.possession.graph.frozen r → peer.db.possession.key r = some k →
    ∃ b, RevokedBy past b k
  lists : ∀ a k, k ∈ peer.db.keysOfHost a ↔
    Network.Stands (Gives me a k) (Takes me k) (Network.stepsOf past me)

theorem Steady.apply {db db' : ResourceDatabase} (h : Steady me db) {op : ResourceDatabase.Op}
    (clean : db.NoGoneHosts op) (ok : db.apply op = .ok db') : Steady me db' := by
  refine ⟨h.valid.apply ok, h.allocated.edits (ResourceDatabase.apply_edits ok),
    h.sound.apply h.valid ?_ ok, ?_, ?_⟩
  · cases op with
    | checkForGoneHosts leftMargin => exact clean.elim
    | _ => trivial
  · exact (ResourceDatabase.apply_edits ok).invariant h.punctual fun _ _ kept edit => kept.edit edit
  · exact (Prod.mk.inj (ResourceDatabase.apply_localhost ok)).2.trans h.address

theorem steady_start (me : IpAddress) : Steady me (.start me) where
  valid := ResourceDatabase.valid_start me
  allocated := ResourceDatabase.allocated_start me
  sound := ResourceDatabase.referentiallySound_start me
  punctual := Node.punctual_start me
  address := rfl

/-! ## The past only grows -/

theorem Origin.grows (h : Origin past k) (r : PeerRecord) : Origin (past ++ [r]) k := by
  obtain ⟨a, res, ⟨r', member, added⟩, same⟩ := h
  exact ⟨a, res, ⟨r', List.mem_append_left _ member, added⟩, same⟩

theorem Announced.grows (h : Announced past a k) (r : PeerRecord) : Announced (past ++ [r]) a k := by
  obtain ⟨r', member, announces⟩ := h
  exact ⟨r', List.mem_append_left _ member, announces⟩

theorem RevokedBy.grows (h : RevokedBy past b k) (r : PeerRecord) : RevokedBy (past ++ [r]) b k := by
  obtain ⟨r', member, revoked⟩ := h
  exact ⟨r', List.mem_append_left _ member, revoked⟩

theorem Good.grows {packet : Packet} (h : Good past a packet) (r : PeerRecord) :
    Good (past ++ [r]) a packet := by
  obtain ⟨message, parsed, vouched⟩ := h
  refine ⟨message, parsed, ?_⟩
  cases message with
  | fileList resources =>
      exact ⟨vouched.1, fun x listed =>
        ⟨(vouched.2 x listed).1.grows r, (vouched.2 x listed).2.grows r⟩⟩
  | revoke res => exact vouched.grows r
  | unknown => exact vouched

theorem Informed.host_grows (h : Informed past me peer) (r : PeerRecord) {p : HostPtr}
    (named : peer.db.possession.address p = some a) : a = me ∨ ∃ k, Announced (past ++ [r]) a k := by
  rcases h.hosts p a named with same | ⟨k, announced⟩
  · exact Or.inl same
  · exact Or.inr ⟨k, announced.grows r⟩

theorem Informed.grows (h : Informed past me peer) {r : PeerRecord} (other : r.node ≠ me) :
    Informed (past ++ [r]) me peer where
  steady := h.steady
  hosts p a named := h.host_grows r named
  known q k named := (h.known q k named).grows r
  frozen q k cold named := by
    obtain ⟨b, revoked⟩ := h.frozen q k cold named
    exact ⟨b, revoked.grows r⟩
  lists a k := by rw [Network.stepsOf_other other, h.lists]

/-! ## A step of an informed node -/

theorem frozen_key (db : ResourceDatabase) (r : ResourcePtr) (cold : db.possession.graph.frozen r) :
    db.possession.key r ≠ none := by
  obtain ⟨x, there, -⟩ := cold
  simp [ResourceDatabase.possession, there]

theorem Informed.apply (h : Informed past me peer) {r : PeerRecord} (own : r.node = me)
    {op : ResourceDatabase.Op} (ok : peer.db.apply op = .ok peer'.db)
    (clean : peer.db.NoGoneHosts op)
    (hosts : ∀ a, op.Permits peer.db (.addHost a) → a = me ∨ ∃ k, Announced (past ++ [r]) a k)
    (known : ∀ k, op.Permits peer.db (.addResource k) → Origin (past ++ [r]) k)
    (frozen : ∀ k, op.Permits peer.db (.freeze k) → ∃ b, RevokedBy (past ++ [r]) b k)
    (lists : ∀ a k, k ∈ peer'.db.keysOfHost a ↔
      Gives me a k r ∨ k ∈ peer.db.keysOfHost a ∧ ¬Takes me k r) :
    Informed (past ++ [r]) me peer' where
  steady := h.steady.apply clean ok
  hosts p a named := by
    rcases (ResourceDatabase.apply_steps ok).address_origin named with old | new
    · exact h.host_grows r old
    · exact hosts a new
  known q k named := by
    rcases (ResourceDatabase.apply_steps ok).key_origin named with old | new
    · exact (h.known q k old).grows r
    · exact known k new
  frozen q k cold named := by
    rcases (ResourceDatabase.apply_steps ok).frozen_origin (frozen_key peer.db) cold named with
      old | new
    · obtain ⟨k', old_key⟩ := Option.ne_none_iff_exists'.mp (frozen_key peer.db q old)
      have same := ResourceDatabase.key_steps (ResourceDatabase.apply_steps ok) old_key
      obtain rfl := Option.some.inj (same.symm.trans named)
      obtain ⟨b, revoked⟩ := h.frozen q k' old old_key
      exact ⟨b, revoked.grows r⟩
    · exact frozen k new
  lists a k := by
    subst own
    rw [Network.stepsOf_self, Network.stands_append_singleton, lists, h.lists]

theorem Informed.stay (h : Informed past me peer) {r : PeerRecord} (own : r.node = me)
    (same : peer'.db = peer.db) (gives : ∀ a k, ¬Gives me a k r) (takes : ∀ k, ¬Takes me k r) :
    Informed (past ++ [r]) me peer' where
  steady := same ▸ h.steady
  hosts p a named := h.host_grows r (same ▸ named)
  known q k named := (h.known q k (same ▸ named)).grows r
  frozen q k cold named := by
    obtain ⟨b, revoked⟩ := h.frozen q k (same ▸ cold) (same ▸ named)
    exact ⟨b, revoked.grows r⟩
  lists a k := by
    subst own
    rw [Network.stepsOf_self, Network.stands_append_singleton, same, h.lists]
    simp [gives, takes]

theorem Informed.key_of_obtains (h : Informed past me peer) {e : Event} {res : Resource}
    (obtains : peer.Obtains e res) : Origin (past ++ [⟨me, peer, .act e⟩]) res.key := by
  cases e with
  | add size nameOfFile =>
      obtain ⟨n, given, rfl⟩ := Option.map_eq_some_iff.mp obtains
      obtain rfl : size = some n := given
      refine ⟨me, { size := n, name := nameOfFile },
        ⟨⟨me, peer, .act (.add (some n) nameOfFile)⟩, ?_, rfl, rfl⟩, Or.inl rfl⟩
      exact List.mem_append_right _ List.mem_cons_self
  | downloaded resource =>
      have named : peer.db.possession.key resource = some res.key := by
        have there : peer.db.resources.lookup resource = some res := obtains
        simp [ResourceDatabase.possession, there]
      exact (h.known resource res.key named).grows _
  | _ => exact obtains.elim

theorem Origin.takenFor {res : Resource} (h : Origin past res.key) (taken : res.TakenFor k) :
    Origin past k := by
  obtain ⟨a, own, added, same | read⟩ := h
  · exact ⟨a, own, added, Or.inr ((Resource.takenFor_congr same).mp taken)⟩
  · obtain ⟨header, encoded, same⟩ := read
    have named : (Resource.ofHeader header).WellNamed := Resource.wellNamed_ofHeader header
    have same' : (Resource.ofHeader header).key = res.key := same
    have read := (Resource.takenFor_congr same').mpr taken
    rw [named.takenFor_iff.mp read]
    exact ⟨a, own, added, Or.inr ⟨header, encoded, rfl⟩⟩

theorem resourcesOf_key {db : ResourceDatabase} {res : Resource} (member : res ∈ db.resourcesOf a) :
    ∃ q, db.possession.key q = some res.key := by
  obtain ⟨q, -, there⟩ := List.mem_filterMap.mp member
  exact ⟨q, by simp [ResourceDatabase.possession, there]⟩

theorem obtained_informed (h : Informed past me peer) {e : Event} {res : Resource}
    (obtains : peer.Obtains e res) (same : peer'.db = peer.db.addFileInternal res peer.db.myHostIp) :
    Informed (past ++ [⟨me, peer, .act e⟩]) me peer' := by
  have applied : peer.db.apply (.addFile res peer.db.myHostIp) = .ok peer'.db := by rw [same]; rfl
  refine h.apply rfl applied trivial (fun a permitted => Or.inl ?_) (fun k permitted => ?_)
    (by simp [ResourceDatabase.Op.Permits]) fun a k => ?_
  · rw [← h.steady.address]
    simpa [ResourceDatabase.Op.Permits] using permitted
  · obtain rfl : k = res.key := by simpa [ResourceDatabase.Op.Permits] using permitted
    exact h.key_of_obtains obtains
  · rw [same, h.steady.valid.addFile_lists, h.steady.address]
    have gives : Gives me a k ⟨me, peer, .act e⟩ ↔ a = me ∧ k = res.key := by
      refine and_congr_right fun _ => ⟨?_, ?_⟩
      · rintro ⟨other, got, rfl⟩
        rw [got.unique obtains]
      · rintro rfl
        exact ⟨res, obtains, rfl⟩
    have takes : ¬Takes me k ⟨me, peer, .act e⟩ := by
      rintro ⟨other, revokes, -⟩
      exact obtains.not_revokes revokes
    rw [gives, and_iff_left takes, or_comm]

theorem revoked_informed (h : Informed past me peer) {e : Event} {res : Resource}
    (revokes : peer.Revokes e res) (ok : peer.db.revokeResource res = .ok peer'.db) :
    Informed (past ++ [⟨me, peer, .act e⟩]) me peer' := by
  have applied : peer.db.apply (.revokeResource res) = .ok peer'.db := ok
  refine h.apply rfl applied trivial (by simp [ResourceDatabase.Op.Permits])
    (by simp [ResourceDatabase.Op.Permits]) (fun k permitted => ?_) fun a k => ?_
  · obtain rfl : k = res.key := by simpa [ResourceDatabase.Op.Permits] using permitted
    exact ⟨me, _, List.mem_append_right _ List.mem_cons_self, rfl, e, res, rfl, revokes, Or.inl rfl⟩
  · have gives : ¬Gives me a k ⟨me, peer, .act e⟩ := by
      rintro ⟨-, other, obtains, -⟩
      exact obtains.not_revokes revokes
    have takes : Takes me k ⟨me, peer, .act e⟩ ↔ k = res.key := by
      constructor
      · rintro ⟨other, also, rfl⟩
        rw [also.unique revokes]
      · rintro rfl
        exact ⟨res, revokes, rfl⟩
    rw [h.steady.valid.revokeResource_lists ok, takes, or_iff_right gives]

theorem beacon_good (h : Informed past me peer) {packets : List Packet}
    (sent : peer.db.beacon = .ok packets) {packet : Packet} (member : packet ∈ packets) :
    Good (past ++ [⟨me, peer, .act .beacon⟩]) me packet := by
  obtain ⟨resources, means, some, from_own⟩ := h.steady.valid.beacon_means sent member
  rw [h.steady.address] at from_own
  refine ⟨_, means, some, fun r listed => ?_⟩
  obtain ⟨x, possessed, taken⟩ := from_own r listed
  obtain ⟨q, named⟩ := resourcesOf_key possessed
  refine ⟨⟨_, List.mem_append_right _ List.mem_cons_self, rfl, rfl, x, possessed, taken⟩, ?_⟩
  exact ((h.known q x.key named).takenFor taken).grows _

theorem act_informed (h : Informed past me peer) {e : Event} {out : List Packet}
    (ok : peer.act e = .ok (peer', out)) : Informed (past ++ [⟨me, peer, .act e⟩]) me peer' ∧
      ∀ packet ∈ out, Good (past ++ [⟨me, peer, .act e⟩]) me packet := by
  have acted := act_acts h.steady.punctual ok
  generalize made : peer'.db = db at acted
  cases acted with
  | obtained obtains => exact ⟨obtained_informed h obtains made, by simp⟩
  | @revoked res _ packet revokes sent revoked =>
      refine ⟨revoked_informed h revokes (made ▸ revoked), ?_⟩
      obtain ⟨parsed, means, taken⟩ := revokeFile_means sent
      refine List.forall_mem_singleton.mpr ⟨_, means, ?_⟩
      exact ⟨_, List.mem_append_right _ List.mem_cons_self, rfl, e, res, rfl, revokes, Or.inr taken⟩
  | idle obtains revokes sent =>
      refine ⟨h.stay rfl made ?_ ?_, ?_⟩
      · rintro a k ⟨-, res, got, -⟩
        exact obtains res got
      · rintro k ⟨res, also, -⟩
        exact revokes res also
      · rcases sent with rfl | ⟨rfl, packets⟩
        · simp
        · exact fun packet member => beacon_good h packets member

/-! ## A message that arrives -/

theorem listed_informed (h : Informed past me peer) {sender : IpAddress} {packet : Packet}
    {resources : List Resource} (means : Means packet (.fileList resources)) (remote : sender ≠ me)
    (some : resources ≠ []) (vouched : ∀ r ∈ resources, Announced past sender r.key ∧ Origin past r.key)
    (ok : peer.db.updateHost sender resources = .ok peer'.db) :
    Informed (past ++ [⟨me, peer, .receive sender packet⟩]) me peer' := by
  have applied : peer.db.apply (.updateHost sender resources) = .ok peer'.db := ok
  refine h.apply rfl applied trivial (fun a permitted => ?_) (fun k permitted => ?_)
    (by simp [ResourceDatabase.Op.Permits]) fun a k => ?_
  · obtain rfl : a = sender := by simpa [ResourceDatabase.Op.Permits] using permitted
    obtain ⟨r, rest, rfl⟩ := List.exists_cons_of_ne_nil some
    exact Or.inr ⟨r.key, (vouched r List.mem_cons_self).1.grows _⟩
  · obtain ⟨r, listed, rfl⟩ : ∃ r ∈ resources, k = r.key := by
      simpa [ResourceDatabase.Op.Permits] using permitted
    exact (vouched r listed).2.grows _
  · have gives : Gives me a k ⟨me, peer, .receive sender packet⟩ ↔
        a = sender ∧ k ∈ resources.map Resource.key := by
      constructor
      · rintro ⟨-, same, others, also, listed⟩
        obtain rfl := Message.fileList.inj (means.unique also)
        exact ⟨same, listed⟩
      · rintro ⟨same, listed⟩
        exact ⟨remote, same, resources, means, listed⟩
    have takes : ¬Takes me k ⟨me, peer, .receive sender packet⟩ := by
      rintro ⟨-, res, also, -⟩
      exact Message.noConfusion (means.unique also)
    rw [h.steady.valid.updateHost_lists h.steady.allocated ok, gives, and_iff_left takes, or_comm]

theorem heard_revoke_informed (h : Informed past me peer) {sender : IpAddress} {packet : Packet}
    {res : Resource} (means : Means packet (.revoke res)) (remote : sender ≠ me)
    (revoked : RevokedBy past sender res.key) (ok : peer.db.revokeResource res = .ok peer'.db) :
    Informed (past ++ [⟨me, peer, .receive sender packet⟩]) me peer' := by
  have applied : peer.db.apply (.revokeResource res) = .ok peer'.db := ok
  refine h.apply rfl applied trivial (by simp [ResourceDatabase.Op.Permits])
    (by simp [ResourceDatabase.Op.Permits]) (fun k permitted => ?_) fun a k => ?_
  · obtain rfl : k = res.key := by simpa [ResourceDatabase.Op.Permits] using permitted
    exact ⟨sender, revoked.grows _⟩
  · have gives : ¬Gives me a k ⟨me, peer, .receive sender packet⟩ := by
      rintro ⟨-, -, others, also, -⟩
      exact Message.noConfusion (means.unique also)
    have takes : Takes me k ⟨me, peer, .receive sender packet⟩ ↔ k = res.key := by
      constructor
      · rintro ⟨-, other, also, rfl⟩
        rw [Message.revoke.inj (means.unique also)]
      · rintro rfl
        exact ⟨remote, res, means, rfl⟩
    rw [h.steady.valid.revokeResource_lists ok, takes, or_iff_right gives]

theorem receive_informed (h : Informed past me peer) {sender : IpAddress} {packet : Packet}
    (good : Good past sender packet) (ok : peer.receive sender packet = .ok peer') :
    Informed (past ++ [⟨me, peer, .receive sender packet⟩]) me peer' := by
  obtain ⟨message, means, vouched⟩ := good
  have handled : (if peer.db.myHostIp ≠ sender then message.deliver sender peer.db
      else .ok peer.db) = .ok peer'.db := by
    have mapped := @receive_means peer sender _ _ means
    rw [ok] at mapped
    exact mapError_ok.mp mapped.symm
  rw [h.steady.address] at handled
  split at handled
  · rename_i remote
    cases message with
    | fileList resources =>
        exact listed_informed h means (Ne.symm remote) vouched.1 vouched.2 handled
    | revoke res => exact heard_revoke_informed h means (Ne.symm remote) vouched handled
    | unknown => exact vouched.elim
  · rename_i own
    refine h.stay rfl (Except.ok.inj handled).symm ?_ ?_
    · rintro a k ⟨remote, -⟩
      exact own (Ne.symm remote)
    · rintro k ⟨remote, -⟩
      exact own (Ne.symm remote)

/-! ## Every run -/

theorem guarantee : Network.Guarantee protocol (fun _ _ _ => True) Informed Good where
  node_grows _ _ _ _ other h := h.grows other
  good_grows _ r _ _ h := h.grows r
  act _ _ _ _ _ _ h _ ok := act_informed h ok
  receive _ _ _ _ _ _ h good ok := receive_informed h good ok

end Peer

namespace PeerNetwork

open Peer

def start : PeerNetwork where
  node := Peer.start

def step : PeerNetwork → Network.Event IpAddress Peer.Event Packet → Except Halt PeerNetwork :=
  Network.step protocol .blocked

variable {w : PeerNetwork} {i a : IpAddress} {k : ResourceKey}
  {allowed : PeerNetwork → Network.Event IpAddress Peer.Event Packet → Prop}

theorem holds_start : start.Holds Informed Good where
  node i := by
    refine ⟨steady_start i, fun p a named => Or.inl ?_, fun r k named => ?_, fun r k cold _ => ?_,
      fun a k => ?_⟩
    · obtain ⟨h, there, rfl⟩ := Option.map_eq_some_iff.mp named
      simp only [start, Peer.start, ResourceDatabase.start, Store.lookup_push, Store.lookup_empty] at there
      split at there
      · rw [← Option.some.inj there]
      · contradiction
    · simp [start, Peer.start, ResourceDatabase.start, ResourceDatabase.possession] at named
    · simp [start, Peer.start, ResourceDatabase.start, ResourceDatabase.possession] at cold
    · simp [start, Peer.start, ResourceDatabase.start_keysOfHost, Network.Stands, Network.stepsOf]
  sent := by simp [start]
  past := by simp [start]

theorem reach_holds (run : Reach step allowed start w) : w.Holds Informed Good :=
  guarantee.reach holds_start (run.mono fun _ e _ => by cases e <;> trivial)

theorem reach_lists_iff (run : Reach step Anything start w) (i a : IpAddress) (k : ResourceKey) :
    k ∈ (w.node i).db.keysOfHost a ↔
      Network.Stands (Gives i a k) (Takes i k) (Network.stepsOf w.past i) :=
  ((reach_holds run).node i).lists a k

theorem announced_run : ∃ w : PeerNetwork, Reach step Anything start w ∧
    (w.node ⟨[2]⟩).db.keysOfHost ⟨[1]⟩ = [([97], 3)] := by
  obtain ⟨w, run, listed⟩ := exists_reach_of_exec step Anything start
    [.act ⟨[1]⟩ (.add (some 3) [97]), .act ⟨[1]⟩ .beacon, .deliver ⟨[2]⟩ ⟨[1]⟩ Rounds.announceA]
    (fun w => (w.node ⟨[2]⟩).db.keysOfHost ⟨[1]⟩ = [([97], 3)]) (by decide +kernel)
  exact ⟨w, run, of_decide_eq_true listed⟩

theorem announced_stands : ∃ w : PeerNetwork,
    Network.Stands (Gives ⟨[2]⟩ ⟨[1]⟩ ([97], 3)) (Takes ⟨[2]⟩ ([97], 3))
      (Network.stepsOf w.past ⟨[2]⟩) := by
  obtain ⟨w, run, listed⟩ := announced_run
  exact ⟨w, (reach_lists_iff run ⟨[2]⟩ ⟨[1]⟩ _).mp (by simp [listed])⟩

/-! ## Where things come from -/

theorem mem_stepsOf {past : List PeerRecord} {r : PeerRecord} :
    r ∈ Network.stepsOf past i ↔ r ∈ past ∧ r.node = i := by
  simp [Network.stepsOf]

theorem obtained_of_own {past : List PeerRecord} {peer : Peer} (h : Informed past a peer)
    (listed : k ∈ peer.db.keysOfHost a) : Obtained past a k := by
  obtain ⟨before, r, after, cut, gives, -⟩ := (h.lists a k).mp listed
  obtain ⟨member, own⟩ := mem_stepsOf.mp
    (cut ▸ List.mem_append_right before (List.mem_cons_self (l := after)) : r ∈ _)
  cases input : r.input with
  | act e =>
      rw [Gives, input] at gives
      obtain ⟨-, res, obtains, key⟩ := gives
      exact ⟨r, member, own, e, res, input, obtains, key⟩
  | receive sender packet =>
      rw [Gives, input] at gives
      exact absurd gives.2.1.symm gives.1

theorem announced_of_listed (run : Reach step allowed start w) (remote : a ≠ i)
    (listed : k ∈ (w.node i).db.keysOfHost a) : ∃ before r after, w.past = before ++ r :: after ∧
      r.node = a ∧ r.input = .act .beacon ∧ ∃ x ∈ r.state.db.resourcesOf a, x.TakenFor k ∧
        Obtained before a x.key := by
  have holds := reach_holds run
  obtain ⟨before, r, after, cut, gives, -⟩ := ((holds.node i).lists a k).mp listed
  obtain ⟨member, -⟩ := mem_stepsOf.mp
    (cut ▸ List.mem_append_right before (List.mem_cons_self (l := after)) : r ∈ _)
  cases input : r.input with
  | act e =>
      rw [Gives, input] at gives
      exact absurd gives.1 remote
  | receive sender packet =>
      rw [Gives, input] at gives
      obtain ⟨-, rfl, resources, means, mentioned⟩ := gives
      obtain ⟨message, also, vouched⟩ :=
        holds.sent a packet (Network.received_sent run member input)
      obtain rfl := means.unique also
      obtain ⟨res, inside, rfl⟩ := List.mem_map.mp mentioned
      obtain ⟨beacon, there, own, fired, x, possessed, taken⟩ := (vouched.2 res inside).1
      obtain ⟨before', after', past⟩ := List.append_of_mem there
      refine ⟨before', beacon, after', past, own, fired, x, possessed, taken, ?_⟩
      have informed := holds.past before' beacon after' past
      rw [own] at informed
      exact obtained_of_own informed (List.mem_map_of_mem possessed)

/-- What a node lists for another one is what a header in a beacon of that node can be taken for, which
possessed the resource then and had added or downloaded it before. -/
theorem reach_listed_announced (run : Reach step Anything start w) (remote : a ≠ i)
    (listed : k ∈ (w.node i).db.keysOfHost a) : ∃ before r after, w.past = before ++ r :: after ∧
      r.node = a ∧ r.input = .act .beacon ∧ ∃ x ∈ r.state.db.resourcesOf a, x.TakenFor k ∧
        (x.WellNamed → k = x.key) ∧ Obtained before a x.key := by
  obtain ⟨before, r, after, past, own, beacon, x, member, taken, obtained⟩ :=
    announced_of_listed run remote listed
  exact ⟨before, r, after, past, own, beacon, x, member, taken,
    fun named => named.takenFor_iff.mp taken, obtained⟩

theorem announced_from_beacon : ∃ w : PeerNetwork, ∃ before r after, w.past = before ++ r :: after ∧
    r.node = ⟨[1]⟩ ∧ r.input = .act .beacon ∧ ∃ x ∈ r.state.db.resourcesOf ⟨[1]⟩,
      x.TakenFor ([97], 3) ∧ (x.WellNamed → ([97], 3) = x.key) ∧ Obtained before ⟨[1]⟩ x.key := by
  obtain ⟨w, run, listed⟩ := announced_run
  exact ⟨w, reach_listed_announced run (i := ⟨[2]⟩) (by decide) (by simp [listed])⟩

theorem reach_no_thin_air (run : Reach step Anything start w) (i : IpAddress) :
    (∀ r x, (w.node i).db.resources.lookup r = some x → Origin w.past x.key) ∧
      ∀ p h, (w.node i).db.hosts.lookup p = some h → h.hostIp ≠ i → ∃ k, Announced w.past h.hostIp k := by
  have informed := (reach_holds run).node i
  refine ⟨fun r x there => ?_, fun p h there other => ?_⟩
  · exact informed.known r x.key (by simp [ResourceDatabase.possession, there])
  · have named : (w.node i).db.possession.address p = some h.hostIp := by
      simp [ResourceDatabase.possession, there]
    exact (informed.hosts p h.hostIp named).resolve_left other

theorem announced_origin : ∃ w : PeerNetwork,
    (w.node ⟨[2]⟩).db.keysOfHost ⟨[1]⟩ = [([97], 3)] ∧ Origin w.past ([97], 3) := by
  obtain ⟨w, run, listed⟩ := announced_run
  have member : ([97], 3) ∈ (w.node ⟨[2]⟩).db.keysOfHost ⟨[1]⟩ := by simp [listed]
  obtain ⟨x, inside, same⟩ := List.mem_map.mp member
  obtain ⟨r, -, there⟩ := List.mem_filterMap.mp inside
  exact ⟨w, listed, same ▸ (reach_no_thin_air run ⟨[2]⟩).1 r x there⟩

theorem reach_invalidated_revoked (run : Reach step Anything start w) (i : IpAddress)
    {r : ResourcePtr} {x : Resource} (there : (w.node i).db.resources.lookup r = some x)
    (invalidated : x.invalidated = true) : ∃ b, RevokedBy w.past b x.key := by
  refine ((reach_holds run).node i).frozen r x.key ⟨x, there, invalidated⟩ ?_
  simp [ResourceDatabase.possession, there]

theorem revoked_by_console : ∃ w : PeerNetwork, ∃ b, RevokedBy w.past b ([97], 3) := by
  let marked : Resource :=
    { size := 3, name := [97], invalidated := true, path := [97], hostsInPossession := [0] }
  obtain ⟨w, run, invalidated⟩ := exists_reach_of_exec step Anything start
    [.act ⟨[1]⟩ (.add (some 3) [97]), .act ⟨[1]⟩ (.revoke [97])]
    (fun w => (w.node ⟨[1]⟩).db.resources.lookup 0 = some marked) (by decide +kernel)
  exact ⟨w, reach_invalidated_revoked run ⟨[1]⟩ (of_decide_eq_true invalidated) rfl⟩

/-! ## No faults -/

def Adding (kind : FileName → Prop) (_ : PeerNetwork) :
    Network.Event IpAddress Peer.Event Packet → Prop
  | .act _ (.add _ nameOfFile) => kind nameOfFile
  | _ => True

instance {kind : FileName → Prop} [DecidablePred kind] (w : PeerNetwork) :
    (e : Network.Event IpAddress Peer.Event Packet) → Decidable (Adding kind w e)
  | .act _ (.add _ nameOfFile) => inferInstanceAs (Decidable (kind nameOfFile))
  | .act _ (.downloaded _) | .act _ (.revoke _) | .act _ .beacon | .deliver _ _ _ => .isTrue trivial

abbrev Fits (nameOfFile : FileName) : Prop := nameOfFile.length ≤ fileNameLength + fileSizeLength

theorem added_kind {kind : FileName → Prop} (run : Reach step (Adding kind) start w)
    (added : Added w.past a k) : kind k.1 := by
  let Inv (w : PeerNetwork) : Prop := ∀ r ∈ w.past, ∀ size nameOfFile,
    r.input = .act (.add size nameOfFile) → kind nameOfFile
  have kept : Inv w := by
    refine run.invariant (by simp [Inv, start]) fun w e w' old fits ok r member size nameOfFile same => ?_
    cases Network.step_move ok with
    | @act i e s out done =>
        rcases List.mem_append.mp member with earlier | new
        · exact old r earlier size nameOfFile same
        · rw [List.mem_singleton.mp new] at same
          obtain rfl := Input.act.inj same
          exact fits
    | deliver sent done =>
        rcases List.mem_append.mp member with earlier | new
        · exact old r earlier size nameOfFile same
        · rw [List.mem_singleton.mp new] at same
          contradiction
  obtain ⟨r, member, -, input⟩ := added
  exact kept r member _ _ input

theorem origin_fits (run : Reach step (Adding Fits) start w) (origin : Origin w.past k) : Fits k.1 := by
  obtain ⟨a, res, added, rfl | ⟨header, -, rfl⟩⟩ := origin
  · exact added_kind run added
  · exact Nat.le_trans (Resource.wellNamed_ofHeader header).1 (Nat.le_add_right _ _)

theorem headersOf_fits {db : ResourceDatabase} {possesed : List ResourcePtr}
    (fits : ∀ r ∈ possesed, ∃ x, db.resources.lookup r = some x ∧ Fits x.name) :
    ∃ headers, db.headersOf possesed = .ok headers := by
  induction possesed with
  | nil => exact ⟨[], rfl⟩
  | cons r rest ih =>
      obtain ⟨x, there, short⟩ := fits r List.mem_cons_self
      obtain ⟨headers, ok⟩ := ih fun q member => fits q (List.mem_cons_of_mem _ member)
      simp only [ResourceDatabase.headersOf, there, Resource.generateResourceHeader_eq, if_pos short, ok]
      exact ⟨_, rfl⟩

theorem beacon_ok {db : ResourceDatabase} (valid : db.Valid) (punctual : Node.Punctual db)
    (fits : ∀ r x, db.resources.lookup r = some x → Fits x.name) :
    ∃ packets, db.fireBeacon = .ok (packets, db) := by
  obtain ⟨host, found, -⟩ := valid.findHost_of_address valid.localhost
  rw [Option.mem_def] at found
  obtain ⟨headers, generated⟩ := @headersOf_fits db host.obj.possesedResources fun r listed => by
    obtain ⟨x, there⟩ := Option.ne_none_iff_exists'.mp
      (valid.resource_of_possesed (ResourceDatabase.findHost_some found).1 listed)
    exact ⟨x, there, fits r x there⟩
  have kept := Node.checkForGoneHostsLoop_punctual punctual (show 0 < leftMargin by decide)
    (Nat.zero_add _)
  refine ⟨beaconPackets headers, ?_⟩
  simp only [ResourceDatabase.fireBeacon, ResourceDatabase.beacon,
    ResourceDatabase.generateDatabaseHeaders, found, generated, bind, Except.bind, pure, Except.pure,
    ResourceDatabase.checkForGoneHosts, kept]

theorem act_error {past : List PeerRecord} {peer : Peer} (h : Informed past i peer)
    (fits : ∀ r x, peer.db.resources.lookup r = some x → Fits x.name) {e : Peer.Event} {failure : Halt}
    (failed : peer.act e = .error failure) : failure = .blocked := by
  cases e with
  | add size nameOfFile =>
      simp only [Peer.act] at failed
      split at failed <;> contradiction
  | downloaded resource =>
      simp only [Peer.act] at failed
      split at failed
      · contradiction
      · exact (Except.error.inj failed).symm
  | revoke nameOfFile =>
      cases found : CLI.firstNamed peer.db nameOfFile with
      | none =>
          simp only [Peer.act, CLI.revoke, found] at failed
          contradiction
      | some r =>
          obtain ⟨there, -⟩ := CLI.firstNamed_some found
          obtain ⟨bytes, sent⟩ := (CLI.revokeFile_ok_iff r.obj).mpr (fits r.ptr r.obj there)
          obtain ⟨db', ok, -⟩ := h.steady.valid.revokesRightly h.steady.sound r.obj
          have done : CLI.revoke peer.db true nameOfFile = .ok (⟨" Done.\n", 1⟩, some bytes, db') :=
            (CLI.revoke_online found).mpr ⟨rfl, bytes, rfl, sent, ok⟩
          simp only [Peer.act, done] at failed
          contradiction
  | beacon =>
      obtain ⟨packets, fired⟩ := beacon_ok h.steady.valid h.steady.punctual fits
      simp only [Peer.act, fired] at failed
      contradiction

theorem receive_error {past : List PeerRecord} {peer : Peer} (h : Informed past i peer)
    {sender : IpAddress} {packet : Packet} (good : Good past sender packet) {failure : Halt}
    (failed : peer.receive sender packet = .error failure) : failure = .blocked := by
  obtain ⟨message, means, vouched⟩ := good
  have mapped := @receive_means peer sender _ _ means
  rw [failed] at mapped
  split at mapped
  · cases message with
    | fileList resources =>
        obtain ⟨db', ok⟩ := h.steady.valid.updateHost_ok sender resources
        simp only [Message.deliver, ok] at mapped
        contradiction
    | revoke res =>
        obtain ⟨db', ok, -⟩ := h.steady.valid.revokesRightly h.steady.sound res
        simp only [Message.deliver, ok] at mapped
        contradiction
    | unknown => contradiction
  · contradiction

theorem reach_faultless (run : Reach step (Adding Fits) start w)
    (e : Network.Event IpAddress Peer.Event Packet) (fault : Fault) :
    step w e ≠ .error (.fault fault) := by
  intro failed
  have holds := reach_holds run
  have names (i : IpAddress) (r : ResourcePtr) (x : Resource)
      (there : (w.node i).db.resources.lookup r = some x) : Fits x.name :=
    origin_fits run ((holds.node i).known r x.key (by simp [ResourceDatabase.possession, there]))
  have blocked : Halt.fault fault = .blocked :=
    Network.step_error (fun i _ _ _ failed => act_error (holds.node i) (names i) failed)
      (fun i j m _ sent failed => receive_error (holds.node i) (holds.sent j m sent) failed) failed
  contradiction

/-- A name that fits, but not as a name, is revoked. -/
theorem long_name_faultless : ∃ w : PeerNetwork, ∀ fault : Fault,
    (w.node ⟨[1]⟩).db.resources.objects.map (·.obj.name.length) = [260] ∧
      step w (.act ⟨[1]⟩ (.revoke (List.replicate 260 97))) ≠ .error (.fault fault) := by
  obtain ⟨w, run, added⟩ := exists_reach_of_exec step (Adding Fits) start
    [.act ⟨[1]⟩ (.add (some 3) (List.replicate 260 97))]
    (fun w => (w.node ⟨[1]⟩).db.resources.objects.map (·.obj.name.length) = [260]) (by decide +kernel)
  exact ⟨w, fun fault => ⟨of_decide_eq_true added, reach_faultless run _ fault⟩⟩

end PeerNetwork

end SimpleP2P
