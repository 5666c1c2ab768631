import SimpleP2P.Database.Soundness

namespace SimpleP2P

theorem Resource.generateResourceHeader_of_key {r other : Resource} (same : r.key = other.key) :
    r.generateResourceHeader = other.generateResourceHeader := by
  obtain ⟨name, size⟩ := Prod.mk.inj same
  rw [generateResourceHeader_eq, generateResourceHeader_eq, name, size]

namespace Possession

def Unlisted (host : HostPtr) (keys : ResourceKey → Prop) (P : Possession) : Prop :=
  ∀ r k, P.graph.forward host r → P.key r = some k → ¬keys k

variable {me : HostPtr} {myIp : IpAddress} {P Q : Possession} {keys : ResourceKey → Prop}

theorem Valid.unlisted_step (v : Valid me myIp P) (h : P.Unlisted me keys) {l : Label}
    (clean : ∀ k, l = .link myIp k → ¬keys k) (step : Step l P Q) : Q.Unlisted me keys := by
  intro r k forth named
  cases step with
  | addHost free new => exact h r k forth named
  | @addResource _ q key free new =>
      have present := (v.right_iff r).mp (v.linked.ends me r forth).2.1
      have other : r ≠ q := by
        rintro rfl
        exact present free
      exact h r k forth (by simpa [Possession.addResource, Function.update_apply, other] using named)
  | @link _ p q ip key hp hq =>
      rcases forth with forth | ⟨rfl, rfl⟩
      · exact h r k forth named
      · obtain rfl : myIp = ip := Option.some.inj (v.localhost.symm.trans hp)
        obtain rfl : key = k := Option.some.inj (hq.symm.trans named)
        exact clean key rfl
  | unlink hp hq => exact h r k forth.1 named
  | freeze hq => exact h r k forth.1 named
  | drop hp => exact h r k forth.1 named

theorem Valid.unlisted_freeze (v : Valid me myIp P) {r : ResourcePtr}
    (only : ∀ q k, P.graph.forward me q → P.key q = some k → keys k → q = r) :
    (P.freeze r).Unlisted me keys := by
  intro q k forth named bad
  obtain rfl := only q k forth.1 named bad
  exact v.linked.freeze_forward q me forth

end Possession

namespace ResourceDatabase
open Library

variable {db db₁ db₂ : ResourceDatabase}

def NotAddedAgain (header : Bytes) (db : ResourceDatabase) : Op → Prop
  | .addFile res ip => ip = db.myHostIp → res.generateResourceHeader ≠ .ok header
  | .updateHost ip possesed => ip = db.myHostIp →
      ∀ res ∈ possesed, res.generateResourceHeader ≠ .ok header
  | _ => True

def OnlyHeader (db : ResourceDatabase) (res : Resource) : Prop :=
  ∀ h, db.hosts.lookup db.myHost = some h → ∀ r ∈ h.possesedResources, ∀ x,
    db.resources.lookup r = some x → x.generateResourceHeader = res.generateResourceHeader →
    x.sameAs res = true

def keysOf (header : Bytes) (k : ResourceKey) : Prop :=
  ∀ res : Resource, res.key = k → res.generateResourceHeader = .ok header

theorem keysOf_key {header : Bytes} {res : Resource} :
    keysOf header res.key ↔ res.generateResourceHeader = .ok header := by
  constructor
  · exact fun named => named res rfl
  · intro own other same
    rw [Resource.generateResourceHeader_of_key same, own]

theorem headersOf_mem {possesed : List ResourcePtr} {headers : List Bytes} {header : Bytes}
    (h : db.headersOf possesed = .ok headers) (member : header ∈ headers) :
    ∃ r ∈ possesed, ∃ x, db.resources.lookup r = some x ∧
      x.generateResourceHeader = .ok header := by
  induction possesed generalizing headers with
  | nil =>
      obtain rfl : [] = headers := by simpa [headersOf] using h
      simp at member
  | cons r rest ih =>
      cases found : db.resources.lookup r with
      | none => simp [headersOf, found] at h
      | some x =>
          simp only [headersOf, found] at h
          obtain ⟨first, own, h⟩ := bind_eq_ok.mp h
          obtain ⟨later, others, h⟩ := bind_eq_ok.mp h
          obtain rfl := Except.ok.inj h
          rcases List.mem_cons.mp member with rfl | member
          · exact ⟨r, List.mem_cons_self, x, found, own⟩
          · obtain ⟨q, listed, y, there, same⟩ := ih others member
            exact ⟨q, List.mem_cons_of_mem _ listed, y, there, same⟩

theorem Valid.generateDatabaseHeaders_mem (valid : db.Valid) {headers : List Bytes} {header : Bytes}
    (h : db.generateDatabaseHeaders = .ok headers) (member : header ∈ headers) :
    ¬db.possession.Unlisted db.myHost (keysOf header) := by
  intro unlisted
  unfold generateDatabaseHeaders at h
  split at h
  · contradiction
  · rename_i host found
    obtain ⟨there, named⟩ := findHost_some found
    obtain ⟨r, listed, x, resource, own⟩ := headersOf_mem h member
    have me : host.ptr = db.myHost := valid.address_inj _ _ _ named valid.localhost
    refine unlisted r x.key ⟨host.obj, me ▸ there, listed⟩ ?_ (keysOf_key.mpr own)
    simp [possession, resource]

theorem Valid.unlisted_apply (valid : db.Valid) {header : Bytes} {op : Op}
    (h : db.possession.Unlisted db.myHost (keysOf header)) (clean : db.NotAddedAgain header op)
    (ok : db.apply op = .ok db₁) : db₁.possession.Unlisted db₁.myHost (keysOf header) := by
  obtain ⟨me, -⟩ := Prod.mk.inj (apply_localhost ok)
  rw [me]
  let Inv (P : Possession) : Prop :=
    P.Valid db.myHost db.myHostIp ∧ P.Unlisted db.myHost (keysOf header)
  have both : Inv db₁.possession := (apply_steps ok).invariant ⟨valid, h⟩ ?_
  · exact both.2
  · rintro l P Q ⟨v, unlisted⟩ permitted step
    refine ⟨v.step (permits_ne_drop permitted) step, v.unlisted_step unlisted ?_ step⟩
    rintro k rfl bad
    cases op with
    | addFile res ip =>
        obtain ⟨rfl, rfl⟩ : db.myHostIp = ip ∧ k = res.key := by simpa [Op.Permits] using permitted
        exact clean rfl (keysOf_key.mp bad)
    | updateHost ip possesed =>
        obtain ⟨res, member, rfl, rfl⟩ : ∃ res ∈ possesed, db.myHostIp = ip ∧ k = res.key := by
          simpa [Op.Permits] using permitted
        exact clean rfl res member (keysOf_key.mp bad)
    | _ => simp [Op.Permits] at permitted

theorem Valid.unlisted_revoke (valid : db.Valid) {res : Resource} {header : Bytes}
    (own : res.generateResourceHeader = .ok header) (only : db.OnlyHeader res)
    (ok : db.apply (.revokeResource res) = .ok db₁) :
    db₁.possession.Unlisted db₁.myHost (keysOf header) := by
  have listed : ∀ q k, db.possession.graph.forward db.myHost q → db.possession.key q = some k →
      keysOf header k → k = res.key := by
    rintro q k ⟨h, there, member⟩ named bad
    obtain ⟨x, found, rfl⟩ := Option.map_eq_some_iff.mp named
    exact sameAs_iff_key.mp (only h there q member x found ((keysOf_key.mp bad).trans own.symm))
  cases found : db.findResource res with
  | none =>
      obtain rfl : db = db₁ := Except.ok.inj ((revokeResource_missing found).symm.trans ok)
      intro q k forth named bad
      exact findResource_none found q (listed q k forth named bad ▸ named)
  | some r =>
      obtain ⟨me, -⟩ := Prod.mk.inj (apply_localhost ok)
      rw [me, revokeResource_found found ok]
      refine valid.unlisted_freeze fun q k forth named bad => ?_
      exact valid.key_inj _ _ _ (listed q k forth named bad ▸ named) (findResource_some found).2

theorem revoked_not_in_headers {ip : IpAddress} {res : Resource} {header : Bytes}
    {headers : List Bytes} (run : Reach apply Anything (start ip) db)
    (revoked : db.apply (.revokeResource res) = .ok db₁)
    (own : res.generateResourceHeader = .ok header) (only : db.OnlyHeader res)
    (later : Reach apply (NotAddedAgain header) db₁ db₂)
    (generated : db₂.generateDatabaseHeaders = .ok headers) : header ∉ headers := by
  have valid := reach_valid run
  let Inv (s : ResourceDatabase) : Prop :=
    s.Valid ∧ s.possession.Unlisted s.myHost (keysOf header)
  have both : Inv db₂ := later.invariant ⟨valid.apply revoked, valid.unlisted_revoke own only revoked⟩
    fun s op s' ⟨v, unlisted⟩ clean ok => ⟨v.apply ok, v.unlisted_apply unlisted clean ok⟩
  exact fun member => both.1.generateDatabaseHeaders_mem generated member both.2

/-- The local host has another file too, and another host lists the revoked one again. -/
theorem revoked_copy_not_in_headers : ∃ db₁ db₂ header other,
    Reach apply (NotAddedAgain header) db₁ db₂ ∧ db₂.generateDatabaseHeaders = .ok [other] ∧
      header ∉ [other] := by
  let me : IpAddress := ⟨[10, 0, 0, 1]⟩
  let holder : IpAddress := ⟨[10, 0, 0, 2]⟩
  let res : Resource := { size := 3, name := [97] }
  let kept : Resource := { size := 3, name := [98], hostsInPossession := [0] }
  let db := ((start me).addFileInternal res me).addFileInternal kept me
  have run : Reach apply Anything (start me) db :=
    .tail (e := .addFile kept me) (.tail (e := .addFile res me) .refl trivial rfl) trivial rfl
  obtain ⟨header, own⟩ : ∃ header, res.generateResourceHeader = .ok header :=
    ⟨_, (Resource.generateResourceHeader_eq res).trans (if_pos (by decide))⟩
  obtain ⟨other, another⟩ : ∃ other, kept.generateResourceHeader = .ok other :=
    ⟨_, (Resource.generateResourceHeader_eq kept).trans (if_pos (by decide))⟩
  have only : db.OnlyHeader res := by
    intro h there r member x found same
    obtain rfl := Option.some.inj there
    have listed : r = 0 ∨ r = 1 := by simpa using (show r ∈ [0, 1] from member)
    rcases listed with rfl | rfl
    · obtain rfl := Option.some.inj found
      rfl
    · obtain rfl := Option.some.inj found
      exact absurd same (by decide +kernel)
  let db₁ : ResourceDatabase :=
    { db with
      resources := db.resources.modify 0 (·.setRevoked)
      hosts := db.hosts.modify 0 (·.removeResource 0) }
  have revoked : db.apply (.revokeResource res) = .ok db₁ := rfl
  have clean : NotAddedAgain header db₁ (.addFile res holder) := fun same => absurd same (by decide)
  have later : Reach apply (NotAddedAgain header) db₁ (db₁.addFileInternal res holder) :=
    .tail .refl clean rfl
  have generated : (db₁.addFileInternal res holder).generateDatabaseHeaders = .ok [other] := by
    have host : (db₁.addFileInternal res holder).findHost me =
        some ⟨0, { hostIp := me, possesedResources := [1] }⟩ := by decide +kernel
    have found : (db₁.addFileInternal res holder).resources.lookup 1 = some kept := by decide +kernel
    have same : (db₁.addFileInternal res holder).myHostIp = me := rfl
    simp only [generateDatabaseHeaders, headersOf, same, host, found, another]
    rfl
  exact ⟨db₁, _, header, other, later, generated,
    revoked_not_in_headers run revoked own only later generated⟩

/-- A download that was running at the revocation ends with `add_file`, which advertises the file. -/
theorem revoked_in_headers : ¬∀ (ip : IpAddress) (db db₁ db₂ : ResourceDatabase) (res : Resource)
    (header : Bytes) (headers : List Bytes), Reach apply Anything (start ip) db →
    db.findResource res ≠ none → db.apply (.revokeResource res) = .ok db₁ →
    Reach apply Anything db₁ db₂ → res.generateResourceHeader = .ok header →
    db₂.generateDatabaseHeaders = .ok headers → header ∉ headers := by
  intro claim
  let me : IpAddress := ⟨[10, 0, 0, 1]⟩
  let holder : IpAddress := ⟨[10, 0, 0, 2]⟩
  let res : Resource := { size := 3, name := [97] }
  let db := (start me).addFileInternal res holder
  have run : Reach apply Anything (start me) db := .tail (e := .addFile res holder) .refl trivial rfl
  obtain ⟨header, own⟩ : ∃ header, res.generateResourceHeader = .ok header :=
    ⟨_, (Resource.generateResourceHeader_eq res).trans (if_pos (by decide))⟩
  let db₁ : ResourceDatabase :=
    { db with
      resources := db.resources.modify 0 (·.setRevoked)
      hosts := db.hosts.modify 1 (·.removeResource 0) }
  have revoked : db.apply (.revokeResource res) = .ok db₁ := rfl
  have stored : Reach apply Anything db₁ (db₁.addFileInternal res me) :=
    .tail (e := .addFile res me) .refl trivial rfl
  have listed : (db₁.addFileInternal res me).generateDatabaseHeaders =
      res.generateResourceHeader.bind fun h => .ok [h] := rfl
  rw [own] at listed
  exact claim me db db₁ _ res header [header] run (by decide) revoked stored own listed
    List.mem_cons_self

end ResourceDatabase

end SimpleP2P
