import SimpleP2P.Database.Keys
import SimpleP2P.Database.Revocation
import SimpleP2P.ResourceHeader

namespace SimpleP2P.ResourceDatabase
open Library

def hasResource (db : ResourceDatabase) (host : Host) (res : Resource) : Except Fault Bool := do
  return (← db.countSame res host.possesedResources) ≠ 0

def countHosts (db : ResourceDatabase) (ip : IpAddress) : List HostPtr → Except Fault Nat
  | [] => .ok 0
  | p :: rest =>
      match db.hosts.lookup p with
      | none => .error .expiredPointer
      | some h => do
          let n ← db.countHosts ip rest
          return if h.hostIp = ip then n + 1 else n

def hasHost (db : ResourceDatabase) (res : Resource) (ip : IpAddress) : Except Fault Bool := do
  return (← db.countHosts ip res.hostsInPossession) ≠ 0

def whoHasFile (db : ResourceDatabase) (resource : Resource) : Option ResourcePtr :=
  (db.findResource resource).map (·.ptr)

def whoHasHeader (db : ResourceDatabase) (resourceHeader : Bytes) : Option ResourcePtr :=
  db.whoHasFile (.ofHeader resourceHeader)

/-- The answers about host `p` and resource `q`. Only a revoked resource still lists hosts that do not
list it, and only such a list can name hosts that are gone. -/
structure AnswersAgree (db : ResourceDatabase) (p : HostPtr) (h : Host) (q : ResourcePtr)
    (x : Resource) : Prop where
  hasResource : db.hasResource h x = .ok (decide (q ∈ h.possesedResources))
  whoHasFile : db.whoHasFile x = some q
  whoHasHeader : x.WellNamed → ∀ header, x.generateResourceHeader = .ok header →
    db.whoHasHeader header = some q
  hasHost : db.hasHost x h.hostIp =
    if ∀ p' ∈ x.hostsInPossession, db.hosts.lookup p' ≠ none then
      .ok (decide (p ∈ x.hostsInPossession))
    else .error .expiredPointer
  listed : q ∈ h.possesedResources → p ∈ x.hostsInPossession
  current : x.invalidated = false → (∀ p' ∈ x.hostsInPossession, db.hosts.lookup p' ≠ none) ∧
    (p ∈ x.hostsInPossession → q ∈ h.possesedResources)
  hasFile : p = db.myHost → db.hasFile x = .ok (decide (q ∈ h.possesedResources))
  advertised : p = db.myHost → x.WellNamed →
    (∀ r ∈ h.possesedResources, ∀ y, db.resources.lookup r = some y → y.WellNamed) →
    ∃ headers, db.generateDatabaseHeaders = .ok headers ∧
      ((∃ header ∈ headers, x.generateResourceHeader = .ok header) ↔ q ∈ h.possesedResources)

variable {db : ResourceDatabase} {p : HostPtr} {h : Host} {q : ResourcePtr} {x : Resource}
  {ip : IpAddress} {hosts : List HostPtr} {possesed : List ResourcePtr} {res : Resource}

/-! ## Walks over the lists -/

theorem Valid.listed_iff (valid : db.Valid) (resource : db.resources.lookup q = some x) :
    (∃ r ∈ possesed, db.possession.key r = some x.key) ↔ q ∈ possesed := by
  have own : db.possession.key q = some x.key := by simp [possession, resource]
  constructor
  · rintro ⟨r, listed, named⟩
    exact valid.key_inj r q x.key named own ▸ listed
  · exact fun listed => ⟨q, listed, own⟩

theorem countSame_total (present : ∀ r ∈ possesed, db.resources.lookup r ≠ none) :
    ∃ n, db.countSame res possesed = .ok n := by
  cases count : db.countSame res possesed with
  | ok n => exact ⟨n, rfl⟩
  | error e =>
      obtain ⟨r, listed, gone⟩ := countSame_expired count
      exact absurd gone (present r listed)

theorem Valid.hasResource (valid : db.Valid) (host : db.hosts.lookup p = some h)
    (resource : db.resources.lookup q = some x) :
    db.hasResource h x = .ok (decide (q ∈ h.possesedResources)) := by
  obtain ⟨n, count⟩ : ∃ n, db.countSame x h.possesedResources = .ok n :=
    countSame_total fun r listed => valid.resource_of_possesed host listed
  have nonzero : n ≠ 0 ↔ q ∈ h.possesedResources := by
    rw [ne_eq, countSame_ok count, ← valid.listed_iff resource]
    simp
  simp only [ResourceDatabase.hasResource, count, bind, Except.bind, pure, Except.pure, nonzero]

theorem findSame_eq (present : ∀ r ∈ possesed, db.resources.lookup r ≠ none) :
    db.findSame res possesed = .ok (decide (∃ r ∈ possesed, db.possession.key r = some res.key)) := by
  induction possesed with
  | nil => simp [findSame]
  | cons r rest ih =>
      obtain ⟨y, found⟩ := Option.ne_none_iff_exists'.mp (present r List.mem_cons_self)
      have named : db.possession.key r = some y.key := by simp [possession, found]
      have later := ih fun q member => present q (List.mem_cons_of_mem _ member)
      simp only [findSame, found]
      by_cases same : y.sameAs res = true
      · simp [same, named, sameAs_iff_key.mp same]
      · have differs : y.key ≠ res.key := fun eq => same (sameAs_iff_key.mpr eq)
        simp [same, later, named, differs]

theorem countHosts_eq : db.countHosts ip hosts =
    if ∀ p ∈ hosts, db.hosts.lookup p ≠ none then
      .ok (hosts.countP fun p => db.possession.address p = some ip)
    else .error .expiredPointer := by
  induction hosts with
  | nil => simp [countHosts]
  | cons p rest ih =>
      cases there : db.hosts.lookup p with
      | none => simp [countHosts, there]
      | some h =>
          have address : db.possession.address p = some h.hostIp := by simp [possession, there]
          simp only [countHosts, there, ih, List.forall_mem_cons, List.countP_cons, address,
            Option.some.injEq]
          by_cases present : ∀ p ∈ rest, db.hosts.lookup p ≠ none
          · by_cases same : h.hostIp = ip <;>
              simp [if_pos present, same, bind, Except.bind, pure, Except.pure]
          · simp [present, bind, Except.bind]

theorem Valid.hasHost (valid : db.Valid) (host : db.hosts.lookup p = some h) :
    db.hasHost x h.hostIp = if ∀ p' ∈ x.hostsInPossession, db.hosts.lookup p' ≠ none then
      .ok (decide (p ∈ x.hostsInPossession)) else .error .expiredPointer := by
  have own : db.possession.address p = some h.hostIp := by simp [possession, host]
  have nonzero : x.hostsInPossession.countP (fun p' => db.possession.address p' = some h.hostIp) ≠ 0 ↔
      p ∈ x.hostsInPossession := by
    rw [← Nat.pos_iff_ne_zero, List.countP_pos_iff]
    constructor
    · rintro ⟨p', listed, named⟩
      exact valid.address_inj p' p h.hostIp (of_decide_eq_true named) own ▸ listed
    · exact fun listed => ⟨p, listed, decide_eq_true own⟩
  rw [ResourceDatabase.hasHost, countHosts_eq]
  split
  · simp only [bind, Except.bind, pure, Except.pure, nonzero]
  · rfl

theorem headersOf_complete {headers : List Bytes} {header : Bytes}
    (ok : db.headersOf possesed = .ok headers) (listed : q ∈ possesed)
    (resource : db.resources.lookup q = some x) (own : x.generateResourceHeader = .ok header) :
    header ∈ headers := by
  induction possesed generalizing headers with
  | nil => simp at listed
  | cons r rest ih =>
      cases found : db.resources.lookup r with
      | none => simp [headersOf, found] at ok
      | some y =>
          simp only [headersOf, found] at ok
          obtain ⟨first, mine, ok⟩ := bind_eq_ok.mp ok
          obtain ⟨later, others, ok⟩ := bind_eq_ok.mp ok
          obtain rfl := Except.ok.inj ok
          rcases List.mem_cons.mp listed with rfl | inside
          · obtain rfl := Option.some.inj (resource.symm.trans found)
            obtain rfl := Except.ok.inj (own.symm.trans mine)
            exact List.mem_cons_self
          · exact List.mem_cons_of_mem _ (ih others inside)

theorem headersOf_total (named : ∀ r ∈ possesed, ∃ y, db.resources.lookup r = some y ∧ y.WellNamed) :
    ∃ headers, db.headersOf possesed = .ok headers := by
  induction possesed with
  | nil => exact ⟨[], rfl⟩
  | cons r rest ih =>
      obtain ⟨y, found, wellNamed⟩ := named r List.mem_cons_self
      obtain ⟨headers, later⟩ := ih fun q member => named q (List.mem_cons_of_mem _ member)
      simp only [headersOf, found, wellNamed.header, later]
      exact ⟨_, rfl⟩

/-! ## The answers -/

theorem Valid.findHost_localhost (valid : db.Valid) (host : db.hosts.lookup db.myHost = some h) :
    db.findHost db.myHostIp = some ⟨db.myHost, h⟩ := by
  obtain ⟨found, located, same⟩ := valid.findHost_of_address valid.localhost
  obtain ⟨there, -⟩ := findHost_some located
  rw [same, host] at there
  rw [located, ← same, Option.some.inj there]

theorem Valid.advertised (valid : db.Valid) (host : db.hosts.lookup db.myHost = some h)
    (resource : db.resources.lookup q = some x) (wellNamed : x.WellNamed)
    (all : ∀ r ∈ h.possesedResources, ∀ y, db.resources.lookup r = some y → y.WellNamed) :
    ∃ headers, db.generateDatabaseHeaders = .ok headers ∧
      ((∃ header ∈ headers, x.generateResourceHeader = .ok header) ↔ q ∈ h.possesedResources) := by
  obtain ⟨headers, ok⟩ : ∃ headers, db.headersOf h.possesedResources = .ok headers :=
    headersOf_total fun r listed => by
      obtain ⟨y, found⟩ := Option.ne_none_iff_exists'.mp (valid.resource_of_possesed host listed)
      exact ⟨y, found, all r listed y found⟩
  refine ⟨headers, by simp only [generateDatabaseHeaders, valid.findHost_localhost host, ok], ?_⟩
  constructor
  · rintro ⟨header, member, own⟩
    obtain ⟨r, listed, y, found, same⟩ := headersOf_mem ok member
    have alike := (Resource.headerFaithful_iff.mpr wellNamed).distinct
      (Resource.headerFaithful_iff.mpr (all r listed y found)) (own.trans same.symm)
    refine (valid.listed_iff resource).mp ⟨r, listed, ?_⟩
    simp [possession, found, sameAs_iff_key.mp alike]
  · exact fun listed => ⟨_, headersOf_complete ok listed resource wellNamed.header, wellNamed.header⟩

theorem Valid.answersAgree (valid : db.Valid) (host : db.hosts.lookup p = some h)
    (resource : db.resources.lookup q = some x) : db.AnswersAgree p h q x where
  hasResource := valid.hasResource host resource
  whoHasFile := by
    rw [whoHasFile, valid.findResource_eq (Store.lookup_eq_some.mp resource)]
    rfl
  whoHasHeader wellNamed header own := by
    obtain ⟨-, decoded⟩ := wellNamed.decode own
    have same : x.sameAs (.ofHeader header) = true := by simp [decoded]
    rw [whoHasHeader, whoHasFile, valid.findResource_of_mem (Store.lookup_eq_some.mp resource) same]
    rfl
  hasHost := valid.hasHost host
  listed member := by
    obtain ⟨-, -, y, found, back⟩ := valid.linked.ends p q ⟨h, host, member⟩
    exact Option.some.inj (resource.symm.trans found) ▸ back
  current unrevoked := by
    have thawed : ¬db.possession.graph.frozen q := by
      rintro ⟨y, found, revoked⟩
      obtain rfl := Option.some.inj (resource.symm.trans found)
      simp [unrevoked] at revoked
    refine ⟨fun p' member => (valid.linked.answered q p' ⟨x, resource, member⟩ thawed).1, ?_⟩
    intro member
    obtain ⟨-, h', there, back⟩ := valid.linked.answered q p ⟨x, resource, member⟩ thawed
    exact Option.some.inj (host.symm.trans there) ▸ back
  hasFile me := by
    subst me
    rw [hasFile, valid.findHost_localhost host]
    simp only [findSame_eq fun r listed => valid.resource_of_possesed host listed,
      valid.listed_iff resource]
  advertised me wellNamed all := by
    subst me
    exact valid.advertised host resource wellNamed all

end SimpleP2P.ResourceDatabase
