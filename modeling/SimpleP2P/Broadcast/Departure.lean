import SimpleP2P.Broadcast.UdpClient
import SimpleP2P.Database.Edits

namespace SimpleP2P
open Library

namespace Possession

theorem unknown_step {P Q : Possession} {ip : IpAddress} (unknown : ∀ p, P.address p ≠ some ip)
    {l : Label} (other : l ≠ .addHost ip) (step : Step l P Q) : ∀ p, Q.address p ≠ some ip := by
  intro p
  cases step with
  | @addHost _ q new free fresh =>
      simp only [Possession.addHost, Function.update_apply]
      split
      · exact fun same => other (by rw [Option.some.inj same])
      · exact unknown p
  | @drop _ q old there =>
      simp only [Possession.drop, Function.update_apply]
      split
      · simp
      · exact unknown p
  | _ => exact unknown p

end Possession

namespace Node

inductive Event
  | addFile (res : Resource)
  | removeFile (res : Resource)
  | revokeResource (res : Resource)
  | received (sender : IpAddress) (message : Message)
  | beacon
  deriving DecidableEq, Repr

def Event.advertisedBy (ip : IpAddress) : Event → Bool
  | .received sender (.fileList _) => sender == ip
  | _ => false

def Event.isBeacon : Event → Bool
  | .beacon => true
  | _ => false

def step (db : ResourceDatabase) : Event → Except Fault ResourceDatabase
  | .addFile res => .ok (db.addFileInternal res db.myHostIp)
  | .removeFile res => (db.removeFile res db.myHostIp).map Prod.snd
  | .revokeResource res => db.revokeResource res
  | .received sender message =>
      if db.myHostIp ≠ sender then message.deliver sender db else .ok db
  | .beacon => db.fireBeacon.map Prod.snd

def Silent (ip : IpAddress) (events : List Event) : Prop :=
  ∀ e ∈ events, e.advertisedBy ip = false

def Knows (db : ResourceDatabase) (ip : IpAddress) : Prop :=
  ∃ h ∈ db.hosts.objects, h.obj.hostIp = ip

abbrev Continues (db : ResourceDatabase) (events : List Event) (db' : ResourceDatabase) : Prop :=
  events.foldlM step db = .ok db'

structure Left (db db' : ResourceDatabase) (ip : IpAddress) : Prop where
  gone : ¬Knows db' ip
  unlisted : ∀ h ∈ db.hosts.objects, h.obj.hostIp = ip → ∀ r ∈ db'.resources.objects,
    h.ptr ∉ r.obj.hostsInPossession

def Active (ip : IpAddress) (events : List Event) : Prop :=
  ∀ before window after, events = before ++ window ++ after →
    leftMargin.toNat ≤ window.countP Event.isBeacon → window.any (Event.advertisedBy ip) = true

def SilentForLong (ip : IpAddress) (events : List Event) : Prop :=
  Silent ip events ∧ leftMargin.toNat ≤ events.countP Event.isBeacon

/-- In this continuation a host that falls silent is removed in time, and an active one stays. -/
structure Detected (db : ResourceDatabase) (events : List Event) (db' : ResourceDatabase)
    (ip : IpAddress) : Prop where
  departed : SilentForLong ip events → Left db db' ip
  stays : Active ip events → Knows db ip → Knows db' ip

def Punctual (db : ResourceDatabase) : Prop :=
  ∀ p h, db.hosts.lookup p = some h → h.noOfMissedUpdates = 0

variable {db db' : ResourceDatabase}
  {joins : ResourceDatabase → HostPtr → ResourcePtr → Prop}

theorem knows_iff {ip : IpAddress} : Knows db ip ↔ ∃ p, db.possession.address p = some ip := by
  constructor
  · rintro ⟨h, member, same⟩
    exact ⟨h.ptr, by simp [ResourceDatabase.possession, Store.lookup_eq_some.mpr member, same]⟩
  · rintro ⟨p, named⟩
    obtain ⟨h, there, same⟩ := Option.map_eq_some_iff.mp named
    exact ⟨⟨p, h⟩, Store.lookup_eq_some.mp there, same⟩

theorem Punctual.edit (h : Punctual db) (edit : ResourceDatabase.Edit joins db db') :
    Punctual db' := by
  cases edit with
  | addHost missing => exact Store.forall_lookup_push h rfl
  | resetMissed q => exact Store.forall_lookup_modify h fun _ _ _ => rfl
  | connect present joined => exact Store.forall_lookup_modify h fun _ _ old => old
  | removeResource q r => exact Store.forall_lookup_modify h fun _ _ old => old
  | eraseHost q => exact Store.forall_lookup_erase h
  | _ => exact h

theorem punctual_start (ip : IpAddress) : Punctual (.start ip) :=
  Store.forall_lookup_push (by simp) rfl

theorem checkForGoneHostsLoop_punctual (h : Punctual db) {margin : UInt16} (positive : 0 < margin)
    {rounds i : Nat} (inside : i + rounds = db.hosts.objects.length) :
    ResourceDatabase.checkForGoneHostsLoop margin rounds i db = .ok db := by
  induction rounds generalizing i with
  | zero => rfl
  | succ rounds ih =>
      have here : i < db.hosts.objects.length := by omega
      have zero := h _ _ (Store.lookup_of_getElem? (List.getElem?_eq_getElem here))
      simp only [ResourceDatabase.checkForGoneHostsLoop, List.getElem?_eq_getElem here, zero]
      rw [if_neg (UInt16.not_le.mpr positive)]
      exact ih (by omega)

theorem fireBeacon_punctual (h : Punctual db) {packets : List Packet}
    (ok : db.fireBeacon = .ok (packets, db')) : db.beacon = .ok packets ∧ db' = db := by
  unfold ResourceDatabase.fireBeacon at ok
  obtain ⟨sent, made, ok⟩ := bind_eq_ok.mp ok
  obtain ⟨checked, check, ok⟩ := bind_eq_ok.mp ok
  have kept := checkForGoneHostsLoop_punctual h (show 0 < leftMargin by decide) (Nat.zero_add _)
  obtain rfl := Except.ok.inj (kept.symm.trans check)
  obtain ⟨rfl, rfl⟩ := Prod.mk.inj (Except.ok.inj ok)
  exact ⟨made, rfl⟩

/-! ## What an event does to the hosts -/

def Permits (db : ResourceDatabase) (e : Event) (l : Possession.Label) : Prop :=
  (∀ p, l ≠ .drop p) ∧ ∀ ip, l = .addHost ip → ip = db.myHostIp ∨ e.advertisedBy ip = true

theorem step_apply (punctual : Punctual db) {e : Event} (ok : step db e = .ok db') :
    db' = db ∨ ∃ op, db.apply op = .ok db' ∧ ∀ l, op.Permits db l → Permits db e l := by
  cases e with
  | addFile res =>
      refine Or.inr ⟨.addFile res db.myHostIp, ok, ?_⟩
      rintro l (rfl | rfl | rfl) <;> simp [Permits]
  | removeFile res =>
      refine Or.inr ⟨.removeFile res db.myHostIp, ok, ?_⟩
      rintro l rfl
      simp [Permits]
  | revokeResource res =>
      refine Or.inr ⟨.revokeResource res, ok, ?_⟩
      rintro l rfl
      simp [Permits]
  | received sender message =>
      simp only [step] at ok
      split at ok
      · cases message with
        | fileList resources =>
            refine Or.inr ⟨.updateHost sender resources, ok, ?_⟩
            rintro l (rfl | ⟨res, -, rfl | rfl⟩) <;> simp [Permits, Event.advertisedBy]
        | revoke res =>
            refine Or.inr ⟨.revokeResource res, ok, ?_⟩
            rintro l rfl
            simp [Permits]
        | unknown => exact Or.inl (Except.ok.inj ok).symm
      · exact Or.inl (Except.ok.inj ok).symm
  | beacon =>
      obtain ⟨⟨packets, next⟩, fired, rfl⟩ := map_eq_ok.mp ok
      exact Or.inl (fireBeacon_punctual punctual fired).2

theorem step_punctual (punctual : Punctual db) {e : Event} (ok : step db e = .ok db') :
    Punctual db' := by
  rcases step_apply punctual ok with rfl | ⟨op, applied, -⟩
  · exact punctual
  · exact (ResourceDatabase.apply_edits applied).invariant punctual fun _ _ kept edit => kept.edit edit

theorem step_steps (punctual : Punctual db) {e : Event} (ok : step db e = .ok db') :
    Possession.Steps (Permits db e) db.possession db'.possession ∧ db'.localhost = db.localhost := by
  rcases step_apply punctual ok with rfl | ⟨op, applied, permitted⟩
  · exact ⟨.refl, rfl⟩
  · exact ⟨(ResourceDatabase.apply_steps applied).mono permitted,
      ResourceDatabase.apply_localhost applied⟩

theorem step_knows (punctual : Punctual db) {e : Event} (ok : step db e = .ok db') {ip : IpAddress}
    (known : Knows db ip) : Knows db' ip := by
  obtain ⟨p, named⟩ := knows_iff.mp known
  exact knows_iff.mpr ⟨p, ResourceDatabase.address_steps (step_steps punctual ok).1 named
    fun l permitted => permitted.1 p⟩

theorem step_unknown (punctual : Punctual db) {e : Event} (ok : step db e = .ok db') {ip : IpAddress}
    (remote : ip ≠ db.myHostIp) (silent : e.advertisedBy ip = false) (unknown : ¬Knows db ip) :
    ¬Knows db' ip := by
  rw [knows_iff, not_exists] at unknown ⊢
  let Inv (P : Possession) : Prop := ∀ p, P.address p ≠ some ip
  have kept : Inv db'.possession := by
    refine (step_steps punctual ok).1.invariant unknown fun l _ _ unknown permitted step => ?_
    refine Possession.unknown_step unknown ?_ step
    rintro rfl
    rcases permitted.2 ip rfl with same | heard
    · exact remote same
    · simp [silent] at heard
  exact kept

/-! ## Runs -/

structure Kept (db db' : ResourceDatabase) : Prop where
  punctual : Punctual db'
  localhost : db'.localhost = db.localhost
  known : ∀ ip, Knows db ip → Knows db' ip

theorem kept_run (punctual : Punctual db) {events : List Event} (run : Continues db events db') :
    Kept db db' := by
  refine foldlM_invariant (Kept db) run ⟨punctual, rfl, fun _ known => known⟩ ?_
  intro s e s' _ kept ok
  exact ⟨step_punctual kept.punctual ok, (step_steps kept.punctual ok).2.trans kept.localhost,
    fun ip known => step_knows kept.punctual ok (kept.known ip known)⟩

theorem unknown_run (punctual : Punctual db) {events : List Event}
    (run : Continues db events db') {ip : IpAddress} (remote : ip ≠ db.myHostIp)
    (silent : Silent ip events) (unknown : ¬Knows db ip) : ¬Knows db' ip := by
  let Inv (s : ResourceDatabase) : Prop := Kept db s ∧ ¬Knows s ip
  have both : Inv db' := by
    refine foldlM_invariant Inv run ⟨⟨punctual, rfl, fun _ known => known⟩, unknown⟩ ?_
    rintro s e s' member ⟨kept, unknown⟩ ok
    have remote' : ip ≠ s.myHostIp := by
      rw [(Prod.mk.inj kept.localhost).2]
      exact remote
    refine ⟨⟨step_punctual kept.punctual ok, (step_steps kept.punctual ok).2.trans kept.localhost,
      fun ip known => step_knows kept.punctual ok (kept.known ip known)⟩, ?_⟩
    exact step_unknown kept.punctual ok remote' (silent e member) unknown
  exact both.2

theorem reach_punctual {ip : IpAddress} (h : Reach step Anything (.start ip) db) :
    Punctual db ∧ db.myHostIp = ip := by
  let Inv (s : ResourceDatabase) : Prop := Punctual s ∧ s.localhost = (ResourceDatabase.start ip).localhost
  have both : Inv db := by
    refine h.invariant ⟨punctual_start ip, rfl⟩ fun s e s' ⟨punctual, localhost⟩ _ ok => ?_
    exact ⟨step_punctual punctual ok, (step_steps punctual ok).2.trans localhost⟩
  exact ⟨both.1, (Prod.mk.inj both.2).2⟩

theorem reach_detected_iff {me ip : IpAddress} (h : Reach step Anything (.start me) db)
    (remote : ip ≠ me) {events : List Event} (run : Continues db events db') :
    Detected db events db' ip ↔ (SilentForLong ip events → ¬Knows db ip) := by
  obtain ⟨punctual, localhost⟩ := reach_punctual h
  have kept := kept_run punctual run
  constructor
  · exact fun detected silent known => (detected.departed silent).gone (kept.known ip known)
  · intro absent
    refine ⟨fun silent => ⟨?_, ?_⟩, fun _ => kept.known ip⟩
    · exact unknown_run punctual run (localhost ▸ remote) silent.1 (absent silent)
    · exact fun host member same => absurd ⟨host, member, same⟩ (absent silent)

theorem continues_beacons (still : step db .beacon = .ok db) (n : Nat) :
    Continues db (List.replicate n .beacon) db := by
  induction n with
  | zero => rfl
  | succ n ih =>
      rw [Continues, List.replicate_succ, List.foldlM_cons, still]
      exact ih

theorem silent_beacons (ip : IpAddress) :
    SilentForLong ip (List.replicate leftMargin.toNat .beacon) := by
  refine ⟨fun e member => ?_, by decide⟩
  rw [List.eq_of_mem_replicate member]
  rfl

theorem exists_silent_run : ∃ db, Reach step Anything (.start ⟨[1]⟩) db ∧ Knows db ⟨[2]⟩ ∧
    Continues db (List.replicate leftMargin.toNat .beacon) db := by
  have heard : step (.start ⟨[1]⟩) (.received ⟨[2]⟩ (.fileList [])) =
      .ok ((ResourceDatabase.start ⟨[1]⟩).startUpdate ⟨[2]⟩) := rfl
  refine ⟨_, .tail .refl trivial heard, ?_, continues_beacons rfl _⟩
  exact knows_iff.mpr ⟨_, (ResourceDatabase.start ⟨[1]⟩).startUpdate_address ⟨[2]⟩⟩

theorem silent_not_detected : ∃ db : ResourceDatabase, Knows db ⟨[2]⟩ ∧
    ¬Detected db (List.replicate leftMargin.toNat .beacon) db ⟨[2]⟩ := by
  obtain ⟨db, reached, known, run⟩ := exists_silent_run
  have iff : Detected db _ db ⟨[2]⟩ ↔ _ := reach_detected_iff reached (by decide) run
  exact ⟨db, known, fun detected => iff.mp detected (silent_beacons _) known⟩

/-- A host advertises once, and is still there after twenty silent beacons. -/
theorem detected_fails : ¬∀ (me ip : IpAddress) (db : ResourceDatabase) (events : List Event)
    (db' : ResourceDatabase), Reach step Anything (.start me) db → ip ≠ me →
    Continues db events db' → Detected db events db' ip := by
  intro claim
  obtain ⟨db, reached, known, run⟩ := exists_silent_run
  have detected := claim ⟨[1]⟩ ⟨[2]⟩ db _ db reached (by decide) run
  exact (detected.departed (silent_beacons _)).gone known

end Node

end SimpleP2P
