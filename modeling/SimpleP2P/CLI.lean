import SimpleP2P.ResourceHeader
import SimpleP2P.Database.Frames
import SimpleP2P.Database.Keys
import SimpleP2P.Broadcast.UdpClient

namespace SimpleP2P
open Library

/-- `client` is whether `ptr_client` points to a client, which `run_server` makes. -/
def UdpModule.revokeFile (db : ResourceDatabase) (client : Bool) (resource : Resource) :
    Except Fault (Option Packet × ResourceDatabase) :=
  if client then do
    let packet ← SimpleP2P.revokeFile resource
    let db ← db.revokeResource resource
    return (some packet, db)
  else .ok (none, db)

namespace CLI

structure Reply where
  text : String
  result : Nat
  deriving DecidableEq, Repr

def firstNamed (db : ResourceDatabase) (nameOfFile : FileName) : Option (Shared Resource) :=
  db.resources.find? (·.name == nameOfFile)

def revoke (db : ResourceDatabase) (client : Bool) (nameOfFile : FileName) :
    Except Fault (Reply × Option Packet × ResourceDatabase) :=
  match firstNamed db nameOfFile with
  | some resource => do
      let (packet, db) ← UdpModule.revokeFile db client resource.obj
      return (⟨" Done.\n", 1⟩, packet, db)
  | none => .ok (⟨" File does not exist. Are you sure it is in database?\n", 0⟩, none, db)

/-- The resource of the download that is started. The thread of the download reads the variable that
holds it, and `inTime` is whether it does so before the command returns and destroys it. -/
def download (db : ResourceDatabase) (nameOfFile : FileName) (inTime : Bool) :
    Except Fault (Reply × Option ResourcePtr) :=
  match firstNamed db nameOfFile with
  | some resource =>
      if resource.obj.invalidated then
        .ok (⟨" File found, invaldiated. Cannot be downloaded.\n", 0⟩, none)
      else if inTime then .ok (⟨" File found, starting download.\n", 1⟩, some resource.ptr)
      else .error .expiredPointer
  | none => .ok (⟨" File not found.\n", 0⟩, none)

def Downloadable (db : ResourceDatabase) (nameOfFile : FileName) (q : ResourcePtr) : Prop :=
  ∃ x, db.resources.lookup q = some x ∧ x.name = nameOfFile ∧ x.invalidated = false

def Owned (db : ResourceDatabase) (nameOfFile : FileName) (q : ResourcePtr) (x : Resource) : Prop :=
  db.resources.lookup q = some x ∧ x.name = nameOfFile ∧
    ∃ h, db.hosts.lookup db.myHost = some h ∧ q ∈ h.possesedResources

def DownloadsRightly (db : ResourceDatabase) (inTime : Bool) (nameOfFile : FileName) : Prop :=
  ∃ reply started, download db nameOfFile inTime = .ok (reply, started) ∧
    (started ≠ none ↔ ∃ q, Downloadable db nameOfFile q) ∧ ∀ q ∈ started, Downloadable db nameOfFile q

def RevokesRightly (db : ResourceDatabase) (client : Bool) (nameOfFile : FileName) : Prop :=
  ∃ reply packet db', revoke db client nameOfFile = .ok (reply, packet, db') ∧
    (packet ≠ none ↔ ∃ q x, Owned db nameOfFile q x) ∧ (packet = none → db' = db) ∧
    ∀ bytes ∈ packet, ∃ q x, Owned db nameOfFile q x ∧ SimpleP2P.revokeFile x = .ok bytes ∧
      ResourceDatabase.Revoked q db db'

structure ResolvesRightly (db : ResourceDatabase) (client inTime : Bool) (nameOfFile : FileName) :
    Prop where
  download : DownloadsRightly db inTime nameOfFile
  revoke : RevokesRightly db client nameOfFile

def IsFirst (db : ResourceDatabase) (nameOfFile : FileName) (r : Shared Resource) : Prop :=
  r.obj.name = nameOfFile ∧ ∃ before after, db.resources.objects = before ++ r :: after ∧
    ∀ o ∈ before, o.obj.name ≠ nameOfFile

structure FirstDecides (db : ResourceDatabase) (client inTime : Bool) (nameOfFile : FileName) :
    Prop where
  download : ∀ r, IsFirst db nameOfFile r →
    if r.obj.invalidated then ∀ q, ¬Downloadable db nameOfFile q else inTime = true
  revoke : ∀ r, IsFirst db nameOfFile r →
    if client then
      Owned db nameOfFile r.ptr r.obj ∧ r.obj.name.length ≤ fileNameLength + fileSizeLength ∧
        ∀ p ∈ r.obj.hostsInPossession, db.hosts.lookup p ≠ none
    else ∀ q x, ¬Owned db nameOfFile q x

variable {db db' : ResourceDatabase} {client inTime : Bool} {nameOfFile : FileName}
  {r : Shared Resource}

theorem firstNamed_eq_some : firstNamed db nameOfFile = some r ↔ IsFirst db nameOfFile r := by
  simp [firstNamed, Store.find?, List.find?_eq_some_iff_append, IsFirst]

theorem firstNamed_some (found : firstNamed db nameOfFile = some r) :
    db.resources.lookup r.ptr = some r.obj ∧ r.obj.name = nameOfFile := by
  obtain ⟨there, named⟩ := Store.find?_some found
  exact ⟨there, by simpa using named⟩

theorem firstNamed_none (missing : firstNamed db nameOfFile = none) {q : ResourcePtr} {x : Resource}
    (there : db.resources.lookup q = some x) : x.name ≠ nameOfFile := by
  simpa using Store.find?_none missing there

/-! ## download -/

theorem downloadsRightly_missing (missing : firstNamed db nameOfFile = none) :
    DownloadsRightly db inTime nameOfFile := by
  have nothing : ¬∃ q, Downloadable db nameOfFile q := by
    rintro ⟨q, x, there, named, -⟩
    exact firstNamed_none missing there named
  exact ⟨_, none, by simp only [download, missing]; rfl, by simpa using nothing, by simp⟩

theorem downloadsRightly_found (found : firstNamed db nameOfFile = some r) :
    DownloadsRightly db inTime nameOfFile ↔
      if r.obj.invalidated then ∀ q, ¬Downloadable db nameOfFile q else inTime = true := by
  obtain ⟨there, named⟩ := firstNamed_some found
  unfold DownloadsRightly
  simp only [download, found]
  cases revoked : r.obj.invalidated with
  | true => simp
  | false =>
      have available : Downloadable db nameOfFile r.ptr := ⟨r.obj, there, named, revoked⟩
      cases inTime with
      | true => simpa using ⟨⟨r.ptr, available⟩, available⟩
      | false => simp

/-! ## revoke -/

theorem revokesRightly_missing (missing : firstNamed db nameOfFile = none) :
    RevokesRightly db client nameOfFile := by
  have nothing : ¬∃ q x, Owned db nameOfFile q x := by
    rintro ⟨q, x, there, named, -⟩
    exact firstNamed_none missing there named
  exact ⟨_, none, db, by simp only [revoke, missing]; rfl, by simpa using nothing, fun _ => rfl,
    by simp⟩

theorem revokesRightly_offline (found : firstNamed db nameOfFile = some r) :
    RevokesRightly db false nameOfFile ↔ ∀ q x, ¬Owned db nameOfFile q x := by
  unfold RevokesRightly
  simp [revoke, found, UdpModule.revokeFile, bind, Except.bind, pure, Except.pure]

theorem revokeFile_ok_iff (x : Resource) : (∃ packet, SimpleP2P.revokeFile x = .ok packet) ↔
    x.name.length ≤ fileNameLength + fileSizeLength := by
  simp only [SimpleP2P.revokeFile, Resource.generateResourceHeader_eq]
  split <;> simp_all [bind, Except.bind, pure, Except.pure]

theorem revoke_online (found : firstNamed db nameOfFile = some r) {reply : Reply}
    {packet : Option Packet} : revoke db true nameOfFile = .ok (reply, packet, db') ↔
      reply = ⟨" Done.\n", 1⟩ ∧ ∃ bytes, packet = some bytes ∧
        SimpleP2P.revokeFile r.obj = .ok bytes ∧ db.revokeResource r.obj = .ok db' := by
  cases sent : SimpleP2P.revokeFile r.obj with
  | error e => simp [revoke, found, UdpModule.revokeFile, sent, bind, Except.bind]
  | ok bytes =>
      cases revoked : db.revokeResource r.obj with
      | error e => simp [revoke, found, UdpModule.revokeFile, sent, revoked, bind, Except.bind]
      | ok next =>
          simp [revoke, found, UdpModule.revokeFile, sent, revoked, bind, Except.bind, pure,
            Except.pure, eq_comm]

theorem revoked_unique {q q' : ResourcePtr} (revoked : ResourceDatabase.Revoked q db db')
    (revoked' : ResourceDatabase.Revoked q' db db') {p : HostPtr} {h : Host}
    (there : db.hosts.lookup p = some h) (listed : q ∈ h.possesedResources) : q = q' := by
  have after : db'.hosts.lookup p = some
      { h with possesedResources := h.possesedResources.filter (· != q') } := by
    rw [Store.lookup_eq_some, revoked'.hosts]
    exact List.mem_map_of_mem (Store.lookup_eq_some.mp there)
  have gone := revoked.possesed after
  simpa [listed] using gone

theorem revokesRightly_online (valid : db.Valid) (found : firstNamed db nameOfFile = some r) :
    RevokesRightly db true nameOfFile ↔
      Owned db nameOfFile r.ptr r.obj ∧ r.obj.name.length ≤ fileNameLength + fileSizeLength ∧
        ∀ p ∈ r.obj.hostsInPossession, db.hosts.lookup p ≠ none := by
  obtain ⟨there, named⟩ := firstNamed_some found
  have located : db.findResource r.obj = some r :=
    valid.findResource_eq (Store.lookup_eq_some.mp there)
  constructor
  · rintro ⟨reply, packet, db', ok, -, -, revokes⟩
    obtain ⟨-, bytes, rfl, sent, ok⟩ := (revoke_online found).mp ok
    obtain ⟨q, x, owned, -, revoked⟩ := revokes bytes rfl
    obtain ⟨hosts, cut, -⟩ := (ResourceDatabase.revokeResource_ok located).mp ok
    refine ⟨?_, (revokeFile_ok_iff r.obj).mp ⟨bytes, sent⟩, Store.modifyAll_ok_iff.mp ⟨hosts, cut⟩⟩
    obtain ⟨resource, -, h, local_host, listed⟩ := owned
    obtain rfl := revoked_unique revoked (valid.revoked located ok) local_host listed
    exact ⟨there, named, h, local_host, listed⟩
  · rintro ⟨owned, fits, present⟩
    obtain ⟨bytes, sent⟩ := (revokeFile_ok_iff r.obj).mpr fits
    obtain ⟨hosts, cut⟩ : ∃ hosts, db.hosts.modifyAll Fault.expiredPointer (·.removeResource r.ptr)
        r.obj.hostsInPossession = .ok hosts := Store.modifyAll_ok_iff.mpr present
    have ok := (ResourceDatabase.revokeResource_ok located).mpr ⟨hosts, cut, rfl⟩
    refine ⟨_, _, _, (revoke_online found).mpr ⟨rfl, bytes, rfl, sent, ok⟩, ?_, by simp, ?_⟩
    · simpa using ⟨r.ptr, r.obj, owned⟩
    · intro other same
      obtain rfl := Option.some.inj same
      exact ⟨r.ptr, r.obj, owned, sent, valid.revoked located ok⟩

theorem resolvesRightly_iff {ip : IpAddress}
    (run : Reach ResourceDatabase.apply Anything (.start ip) db) (client inTime : Bool)
    (nameOfFile : FileName) :
    ResolvesRightly db client inTime nameOfFile ↔ FirstDecides db client inTime nameOfFile := by
  cases found : firstNamed db nameOfFile with
  | none =>
      have nothing (r : Shared Resource) : ¬IsFirst db nameOfFile r := by
        simp [← firstNamed_eq_some, found]
      refine ⟨fun _ => ⟨fun r first => absurd first (nothing r), fun r first => absurd first (nothing r)⟩,
        fun _ => ?_⟩
      exact ⟨downloadsRightly_missing found, revokesRightly_missing found⟩
  | some r =>
      have revokes : RevokesRightly db client nameOfFile ↔ if client then
          Owned db nameOfFile r.ptr r.obj ∧ r.obj.name.length ≤ fileNameLength + fileSizeLength ∧
            ∀ p ∈ r.obj.hostsInPossession, db.hosts.lookup p ≠ none
          else ∀ q x, ¬Owned db nameOfFile q x := by
        cases client with
        | true => exact revokesRightly_online (ResourceDatabase.reach_valid run) found
        | false => exact revokesRightly_offline found
      constructor
      · rintro ⟨downloads, revoked⟩
        refine ⟨fun x first => ?_, fun x first => ?_⟩
        · obtain rfl := Option.some.inj (found.symm.trans (firstNamed_eq_some.mpr first))
          exact (downloadsRightly_found found).mp downloads
        · obtain rfl := Option.some.inj (found.symm.trans (firstNamed_eq_some.mpr first))
          exact revokes.mp revoked
      · rintro ⟨downloads, revoked⟩
        have first := firstNamed_eq_some.mp found
        exact ⟨(downloadsRightly_found found).mpr (downloads r first), revokes.mpr (revoked r first)⟩

theorem own_resolvesRightly : ∃ db : ResourceDatabase, firstNamed db [97] ≠ none ∧
    ResolvesRightly db true true [97] := by
  let me : IpAddress := ⟨[10, 0, 0, 1]⟩
  let res : Resource := { size := 3, name := [97] }
  let db := (ResourceDatabase.start me).addFileInternal res me
  have run : Reach ResourceDatabase.apply Anything (.start me) db :=
    .tail (e := .addFile res me) .refl trivial rfl
  have found : firstNamed db [97] = some ⟨0, { res with hostsInPossession := [0] }⟩ := rfl
  refine ⟨db, by simp [found], (resolvesRightly_iff run true true [97]).mpr ⟨?_, ?_⟩⟩
  · intro r first
    obtain rfl := Option.some.inj (found.symm.trans (firstNamed_eq_some.mpr first))
    rfl
  · intro r first
    obtain rfl := Option.some.inj (found.symm.trans (firstNamed_eq_some.mpr first))
    refine ⟨⟨rfl, rfl, { hostIp := me, possesedResources := [0] }, rfl, by simp⟩, by decide, ?_⟩
    intro p listed
    obtain rfl : p = 0 := by simpa using listed
    exact Option.ne_none_iff_exists'.mpr ⟨{ hostIp := me, possesedResources := [0] }, rfl⟩

/-- The file is revoked, and a new one of the name is added. -/
theorem resolvesRightly_fails : ¬∀ (ip : IpAddress) (db : ResourceDatabase),
    Reach ResourceDatabase.apply Anything (.start ip) db → ∀ client inTime nameOfFile,
      ResolvesRightly db client inTime nameOfFile := by
  intro claim
  let res : Resource := { size := 3, name := [97] }
  let new : Resource := { size := 4, name := [97] }
  let holder : IpAddress := ⟨[10, 0, 0, 2]⟩
  obtain ⟨db, run, hidden⟩ := exists_reach_of_exec ResourceDatabase.apply Anything
    (.start ⟨[10, 0, 0, 1]⟩) [.addFile res holder, .revokeResource res, .addFile new holder]
    (fun db => (firstNamed db [97]).map (·.obj.invalidated) = some true ∧
      db.resources.lookup 1 = some { new with hostsInPossession := [1] }) (by decide)
  obtain ⟨first, second⟩ := of_decide_eq_true hidden
  obtain ⟨r, found, revoked⟩ := Option.map_eq_some_iff.mp first
  have downloads := ((resolvesRightly_iff run true true [97]).mp (claim _ db run _ _ _)).download r
    (firstNamed_eq_some.mp found)
  rw [if_pos revoked] at downloads
  exact downloads 1 ⟨_, second, rfl, rfl⟩

end CLI

end SimpleP2P
