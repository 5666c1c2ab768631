import SimpleP2P.Broadcast.Agreement
import SimpleP2P.Database.Workers
import SimpleP2P.Download.Contents

namespace SimpleP2P
open Library

/-- `address` is where the workers of the download have connected to. -/
structure Fetch where
  node : IpAddress
  resource : ResourcePtr
  address : HostPtr → Option IpAddress
  contents : Contents
  registered : Bool := false

structure Swarm where
  net : PeerNetwork := .start
  disk : IpAddress → FileName → Option Bytes := fun _ _ => none
  fetches : List Fetch := []

namespace Fetch

def server? (f : Fetch) (i : Nat) : Option IpAddress :=
  f.contents.download.workers[i]?.bind fun w => f.address w.host

def file (f : Fetch) : Resource := f.contents.download.complete.resource

end Fetch

namespace Swarm

inductive Event
  /-- The user puts a file into the directory of a node. -/
  | write (i : IpAddress) (nameOfFile : FileName) (content : Bytes)
  | add (i : IpAddress) (nameOfFile : FileName)
  | revoke (i : IpAddress) (nameOfFile : FileName)
  | beacon (i : IpAddress)
  | deliver (receiver sender : IpAddress) (packet : Packet)
  | download (i : IpAddress) (nameOfFile : FileName) (retarded : Nat → HostPtr → Bool)
      (delays : HostPtr → HostDelays) (data : Bytes)
  | work (n : Nat) (e : Download.Event)
  /-- Some more bytes of a reply to worker `i` of the download. -/
  | arrive (n i : Nat) (bytes : Bytes)
  | register (n : Nat)
  /-- So many bytes of the download are in its file, which is truncated when it is opened. -/
  | store (n count : Nat)

def communicate (s : Swarm) (e : Network.Event IpAddress Peer.Event Packet) : Except Halt Swarm := do
  return { s with net := ← PeerNetwork.step s.net e }

def put (s : Swarm) (i : IpAddress) (nameOfFile : FileName) (content : Bytes) : Swarm :=
  { s with disk := Function.update s.disk i (Function.update (s.disk i) nameOfFile (some content)) }

/-- The command `download`, whose thread reads the resource in time, up to the start of the workers. -/
def begin (s : Swarm) (i : IpAddress) (nameOfFile : FileName) (retarded : Nat → HostPtr → Bool)
    (delays : HostPtr → HostDelays) (data : Bytes) : Except Halt Swarm :=
  let db := (s.net.node i).db
  match CLI.download db nameOfFile true with
  | .error f => .error (.fault f)
  | .ok (_, none) => .ok s
  | .ok (_, some r) =>
      match db.resources.lookup r with
      | none => .error (.fault .expiredPointer)
      | some x =>
          match db.createWorkers retarded x with
          | .error (.fault f) => .error (.fault f)
          | .error _ => .ok s
          | .ok workers =>
              if data.length = (CompleteResource.ofResource x).dataSize then
                .ok { s with
                  fetches := s.fetches ++ [{
                    node := i
                    resource := r
                    address := fun p => (db.hosts.lookup p).map (·.hostIp)
                    contents := .start x workers delays data }] }
              else .error .blocked

def stepFetch (s : Swarm) (n : Nat) (f : Fetch) (e : Contents.Event) : Except Halt Swarm := do
  let contents ← f.contents.step e
  return { s with fetches := s.fetches.set n { f with contents } }

def step (s : Swarm) : Event → Except Halt Swarm
  | .write i nameOfFile content => .ok (s.put i nameOfFile content)
  | .add i nameOfFile =>
      s.communicate (.act i (.add ((s.disk i nameOfFile).map fun c => .ofNat c.length) nameOfFile))
  | .revoke i nameOfFile => s.communicate (.act i (.revoke nameOfFile))
  | .beacon i => s.communicate (.act i .beacon)
  | .deliver i j packet => s.communicate (.deliver i j packet)
  | .download i nameOfFile retarded delays data => s.begin i nameOfFile retarded delays data
  | .work n e =>
      match s.fetches[n]? with
      | none => .error .blocked
      | some f =>
          match e, f.contents.download.controller with
          | .controller _, .storing => .error .blocked
          | e, _ => s.stepFetch n f (.step e)
  | .arrive n i bytes =>
      match s.fetches[n]? with
      | none => .error .blocked
      | some f => s.stepFetch n f (.arrive i bytes)
  | .register n =>
      match s.fetches[n]? with
      | none => .error .blocked
      | some f =>
          if f.contents.download.controller = .storing ∧ f.registered = false then do
            let net ← PeerNetwork.step s.net (.act f.node (.downloaded f.resource))
            return { s with net, fetches := s.fetches.set n { f with registered := true } }
          else .error .blocked
  | .store n count =>
      match s.fetches[n]? with
      | none => .error .blocked
      | some f =>
          if f.contents.download.controller = .storing ∧ f.registered = true then do
            let bytes ← (storedBytes f.file f.contents.data).mapError .fault
            return s.put f.node f.file.name (bytes.take count)
          else .error .blocked

/-- Files of one name are the same file wherever a user puts one, and are added whole, under a name that a
header can carry; what a worker reads answers its request from what its host has of the file; no segment
is completed twice. -/
def Meets (answers : Bytes → Contents → Contents.Event → Prop) (file : FileName → Bytes) (s : Swarm) :
    Event → Prop
  | .write _ nameOfFile content => content = file nameOfFile
  | .add i nameOfFile => PeerNetwork.Faithful nameOfFile ∧ ∀ c ∈ s.disk i nameOfFile, c = file nameOfFile
  | .work n e => ∀ f ∈ s.fetches[n]?, f.contents.download.CompletesOnce e
  | .arrive n i bytes => ∀ f ∈ s.fetches[n]?, ∃ server ∈ f.server? i, ∃ c ∈ s.disk server f.file.name,
      answers c f.contents (.arrive i bytes)
  | _ => True

abbrev Truthful (file : FileName → Bytes) (s : Swarm) (e : Event) : Prop := s.Meets Contents.Honest file e

structure Intact (file : FileName → Bytes) (r : Resource) (f : Fetch) : Prop where
  announced : Contents.Announces r (file r.name)
  safe : f.contents.Safe r
  filled : f.contents.Filled r (file r.name)
  counts : f.contents.download.CountsSegments

structure Sound (file : FileName → Bytes) (s : Swarm) : Prop where
  net : Reach PeerNetwork.step (PeerNetwork.Adding PeerNetwork.Faithful) PeerNetwork.start s.net
  added : ∀ a k, Peer.Added s.net.past a k → k.2.toNat = (file k.1).length
  disk : ∀ i nameOfFile c, s.disk i nameOfFile = some c → c <+: file nameOfFile
  fetches : ∀ f ∈ s.fetches, ∃ r, Intact file r f

variable {file : FileName → Bytes} {s s' : Swarm} {i a : IpAddress}

/-! ## What the databases say -/

theorem Sound.announces (h : s.Sound file) (small : ∀ n, (file n).length ≤ 65535 * 1024)
    {r : ResourcePtr} {x : Resource} (there : (s.net.node i).db.resources.lookup r = some x) :
    Contents.Announces x (file x.name) := by
  have origin := ((PeerNetwork.reach_holds h.net).node i).known r x.key
    (by simp [ResourceDatabase.possession, there])
  have named : x.WellNamed := PeerNetwork.origin_faithful h.net origin
  obtain ⟨a, res, added, same⟩ := origin
  have own : res.WellNamed := PeerNetwork.added_kind h.net added
  have key : x.key = res.key := same.elim id own.takenFor_iff.mp
  rw [← key] at added
  exact ⟨named, h.added a x.key added, small x.name⟩

/-! ## Steps of the network -/

theorem added_step {w w' : PeerNetwork} {e : Network.Event IpAddress Peer.Event Packet}
    {k : ResourceKey} (ok : PeerNetwork.step w e = .ok w') (added : Peer.Added w'.past a k) :
    Peer.Added w.past a k ∨ e = .act a (.add (some k.2) k.1) := by
  obtain ⟨r, member, own, input⟩ := added
  cases Network.step_move ok with
  | @act i e s out done =>
      rcases List.mem_append.mp member with old | new
      · exact .inl ⟨r, old, own, input⟩
      · right
        rw [List.mem_singleton.mp new] at own input
        obtain rfl : i = a := own
        rw [Input.act.inj input]
  | deliver sent done =>
      rcases List.mem_append.mp member with old | new
      · exact .inl ⟨r, old, own, input⟩
      · rw [List.mem_singleton.mp new] at input
        contradiction

theorem Sound.communicate (h : s.Sound file) {e : Network.Event IpAddress Peer.Event Packet}
    {net : PeerNetwork} (ok : PeerNetwork.step s.net e = .ok net)
    (kind : PeerNetwork.Adding PeerNetwork.Faithful s.net e)
    (size : ∀ a (k : ResourceKey), e = .act a (.add (some k.2) k.1) → k.2.toNat = (file k.1).length) :
    ({ s with net } : Swarm).Sound file where
  net := h.net.tail kind ok
  added a k added := by
    rcases added_step ok added with old | new
    · exact h.added a k old
    · exact size a k new
  disk := h.disk
  fetches := h.fetches

theorem communicate_ok {e : Network.Event IpAddress Peer.Event Packet}
    (ok : s.communicate e = .ok s') :
    ∃ net, PeerNetwork.step s.net e = .ok net ∧ s' = { s with net } := by
  obtain ⟨net, moved, ended⟩ := bind_eq_ok.mp ok
  exact ⟨net, moved, (Except.ok.inj ended).symm⟩

theorem Sound.add (h : s.Sound file) (small : ∀ n, (file n).length ≤ 65535 * 1024)
    {nameOfFile : FileName} (faithful : PeerNetwork.Faithful nameOfFile)
    (whole : ∀ c ∈ s.disk i nameOfFile, c = file nameOfFile)
    (ok : s.step (.add i nameOfFile) = .ok s') : s'.Sound file := by
  obtain ⟨net, moved, rfl⟩ := communicate_ok ok
  refine h.communicate moved faithful fun a k same => ?_
  simp only [Network.Event.act.injEq, Peer.Event.add.injEq] at same
  obtain ⟨rfl, size, rfl⟩ := same
  obtain ⟨c, there, size⟩ := Option.map_eq_some_iff.mp size
  have short := small k.1
  rw [← size, whole c there, UInt64.toNat_ofNat', Nat.mod_eq_of_lt (by omega)]

/-! ## Files and downloads -/

theorem put_disk {nameOfFile other : FileName} {content : Bytes} {j : IpAddress} :
    (s.put i nameOfFile content).disk j other =
      if j = i ∧ other = nameOfFile then some content else s.disk j other := by
  simp only [put, Function.update_apply]
  split
  · rename_i same
    subst same
    simp [Function.update_apply]
  · rename_i different
    simp [different]

theorem Sound.put (h : s.Sound file) {nameOfFile : FileName} {content : Bytes}
    (part : content <+: file nameOfFile) : (s.put i nameOfFile content).Sound file where
  net := h.net
  added := h.added
  disk j other c there := by
    rw [put_disk] at there
    split at there
    · rename_i same
      rw [same.2, ← Option.some.inj there]
      exact part
    · exact h.disk j other c there
  fetches := h.fetches

theorem Sound.set (h : s.Sound file) {n : Nat} {f : Fetch} {r : Resource} (intact : Intact file r f) :
    ({ s with fetches := s.fetches.set n f } : Swarm).Sound file where
  net := h.net
  added := h.added
  disk := h.disk
  fetches := Threads.forall_step h.fetches ⟨r, intact⟩

theorem Sound.whole (h : s.Sound file) {r : Resource} {c : Bytes}
    (announced : Contents.Announces r (file r.name)) (there : s.disk i r.name = some c)
    (length : c.length = r.size.toNat) : c = file r.name :=
  (h.disk i r.name c there).eq_of_length (length.trans announced.size)

theorem Intact.step {r : Resource} {f : Fetch} (h : Intact file r f) {e : Contents.Event}
    {contents : Contents} (pieces : f.contents.Pieces (file r.name) e) (once : f.contents.CompletesOnce e)
    (ok : f.contents.step e = .ok contents) : Intact file r { f with contents } := by
  refine ⟨h.announced, h.safe.step ok, h.filled.step h.safe h.announced pieces ok, ?_⟩
  cases e with
  | step e => exact h.counts.step once (Contents.step_ok ok).2.1
  | arrive i bytes =>
      obtain ⟨segment, address, data, -, -, -, -, rfl⟩ := Contents.arrive_ok ok
      exact h.counts

theorem Sound.begin (h : s.Sound file) (small : ∀ n, (file n).length ≤ 65535 * 1024)
    {nameOfFile : FileName} {retarded : Nat → HostPtr → Bool} {delays : HostPtr → HostDelays}
    {data : Bytes} (ok : s.begin i nameOfFile retarded delays data = .ok s') : s'.Sound file := by
  simp only [Swarm.begin] at ok
  split at ok
  · contradiction
  · exact Except.ok.inj ok ▸ h
  · split at ok
    · contradiction
    · rename_i r _ x there
      split at ok
      · contradiction
      · exact Except.ok.inj ok ▸ h
      · rename_i workers _
        split at ok
        · rename_i length
          obtain rfl := Except.ok.inj ok
          refine ⟨h.net, h.added, h.disk, fun f member => ?_⟩
          rcases List.mem_append.mp member with old | new
          · exact h.fetches f old
          · rw [List.mem_singleton.mp new]
            exact ⟨x, h.announces small there, .start x workers delays length,
              .start x workers delays data,
              .of_counted (CompleteResource.counted_ofResource x) nofun⟩
        · contradiction

theorem Sound.step (h : s.Sound file) (small : ∀ n, (file n).length ≤ 65535 * 1024) {e : Event}
    (truthful : s.Truthful file e) (ok : s.step e = .ok s') : s'.Sound file := by
  cases e with
  | write i nameOfFile content =>
      obtain rfl := Except.ok.inj ok
      exact h.put (truthful ▸ List.prefix_refl _)
  | add i nameOfFile => exact h.add small truthful.1 truthful.2 ok
  | revoke i nameOfFile =>
      obtain ⟨net, moved, rfl⟩ := communicate_ok ok
      exact h.communicate moved trivial (by simp)
  | beacon i =>
      obtain ⟨net, moved, rfl⟩ := communicate_ok ok
      exact h.communicate moved trivial (by simp)
  | deliver i j packet =>
      obtain ⟨net, moved, rfl⟩ := communicate_ok ok
      exact h.communicate moved trivial (by simp)
  | download i nameOfFile retarded delays data => exact h.begin small ok
  | work n e =>
      cases there : s.fetches[n]? with
      | none => simp [Swarm.step, there] at ok
      | some f =>
          obtain ⟨r, intact⟩ := h.fetches f (List.mem_of_getElem? there)
          simp only [Swarm.step, there] at ok
          split at ok
          · contradiction
          · obtain ⟨contents, moved, ended⟩ := bind_eq_ok.mp ok
            obtain rfl := Except.ok.inj ended
            exact h.set (intact.step (e := .step _) trivial (truthful f there) moved)
  | arrive n i bytes =>
      cases there : s.fetches[n]? with
      | none => simp [Swarm.step, there] at ok
      | some f =>
          obtain ⟨r, intact⟩ := h.fetches f (List.mem_of_getElem? there)
          obtain ⟨server, -, c, stored, honest⟩ := truthful f there
          have same : f.file = r := intact.safe.resource
          rw [same] at stored
          have pieces := intact.safe.pieces_part intact.announced (h.disk server r.name c stored) honest
          simp only [Swarm.step, there] at ok
          obtain ⟨contents, moved, ended⟩ := bind_eq_ok.mp ok
          obtain rfl := Except.ok.inj ended
          exact h.set (intact.step (e := .arrive i bytes) pieces trivial moved)
  | register n =>
      cases there : s.fetches[n]? with
      | none => simp [Swarm.step, there] at ok
      | some f =>
          obtain ⟨r, intact⟩ := h.fetches f (List.mem_of_getElem? there)
          simp only [Swarm.step, there] at ok
          split at ok
          · obtain ⟨net, moved, ended⟩ := bind_eq_ok.mp ok
            obtain rfl := Except.ok.inj ended
            have known := h.communicate moved trivial (by simp)
            exact known.set ⟨intact.announced, intact.safe, intact.filled, intact.counts⟩
          · contradiction
  | store n count =>
      cases there : s.fetches[n]? with
      | none => simp [Swarm.step, there] at ok
      | some f =>
          obtain ⟨r, intact⟩ := h.fetches f (List.mem_of_getElem? there)
          have same : f.file = r := intact.safe.resource
          simp only [Swarm.step, there, same] at ok
          split at ok
          · rename_i storing
            obtain ⟨bytes, read, ended⟩ := bind_eq_ok.mp ok
            obtain rfl := Except.ok.inj ended
            have stored := intact.filled.stored intact.safe intact.announced intact.counts storing.1
            obtain rfl := Except.ok.inj ((mapError_ok.mp read).symm.trans stored)
            exact h.put (List.take_prefix count _)
          · contradiction

/-! ## Runs -/

theorem sound_start (file : FileName → Bytes) : ({} : Swarm).Sound file where
  net := .refl
  added a k added := by
    obtain ⟨r, member, -⟩ := added
    exact absurd member List.not_mem_nil
  disk := nofun
  fetches := nofun

theorem reach_sound (small : ∀ n, (file n).length ≤ 65535 * 1024)
    (run : Reach step (Truthful file) {} s) : s.Sound file :=
  run.invariant (sound_start file) fun _ _ _ sound truthful ok => sound.step small truthful ok

def Whole (content : Bytes) (c : Contents) (e : Contents.Event) : Prop :=
  content.length = c.download.complete.resource.size.toNat ∧ c.Pieces content e

instance (content : Bytes) (c : Contents) (e : Contents.Event) : Decidable (Whole content c e) :=
  inferInstanceAs (Decidable
    (content.length = c.download.complete.resource.size.toNat ∧ c.Pieces content e))

theorem reach_truthful (small : ∀ n, (file n).length ≤ 65535 * 1024)
    (run : Reach step (Meets Whole file) {} s) : Reach step (Truthful file) {} s := by
  induction run with
  | refl => exact .refl
  | @tail s s' e _ plain ok ih =>
      refine ih.tail ?_ ok
      cases e with
      | arrive n i bytes =>
          intro f there
          obtain ⟨server, connected, c, stored, length, pieces⟩ := plain f there
          have sound := reach_sound small ih
          obtain ⟨r, intact⟩ := sound.fetches f (List.mem_of_getElem? there)
          have same : f.file = r := intact.safe.resource
          refine ⟨server, connected, c, stored, ?_⟩
          rw [same] at stored
          have whole := sound.whole intact.announced stored (length.trans (congrArg (·.size.toNat) same))
          rw [whole] at pieces ⊢
          exact intact.safe.honest intact.announced pieces
      | _ => exact plain

instance (answers : Bytes → Contents → Contents.Event → Prop) [∀ c d e, Decidable (answers c d e)]
    (file : FileName → Bytes) (s : Swarm) : (e : Event) → Decidable (s.Meets answers file e)
  | .write _ nameOfFile content => inferInstanceAs (Decidable (content = file nameOfFile))
  | .add i nameOfFile => inferInstanceAs (Decidable (PeerNetwork.Faithful nameOfFile ∧
      ∀ c ∈ s.disk i nameOfFile, c = file nameOfFile))
  | .work n e => inferInstanceAs (Decidable
      (∀ f ∈ s.fetches[n]?, f.contents.download.CompletesOnce e))
  | .arrive n i bytes => inferInstanceAs (Decidable (∀ f ∈ s.fetches[n]?, ∃ server ∈ f.server? i,
      ∃ c ∈ s.disk server f.file.name, answers c f.contents (.arrive i bytes)))
  | .revoke _ _ | .beacon _ | .deliver _ _ _ | .download _ _ _ _ _ | .register _ | .store _ _ =>
      .isTrue trivial

def fetched (n : Nat) (i : IpAddress) : List Event :=
  [.download i [97] (fun _ _ => false) (fun _ => { banTime := 0 }) (List.replicate 1024 9)] ++
    List.replicate 7 (.work n (.worker 0 {})) ++
    [.arrive n 0 [1, 2], .arrive n 0 (3 :: List.replicate 1021 0)] ++
    List.replicate 3 (.work n (.worker 0 {})) ++ [.work n (.controller {}), .register n, .store n 3]

theorem passed_on : ∃ s : Swarm, s.disk ⟨[3]⟩ [97] = some [1, 2, 3] ∧
    (∃ f ∈ s.fetches, f.node = ⟨[3]⟩ ∧ f.contents.download.controller = .storing) ∧
    Reach step (Truthful fun _ => [1, 2, 3]) {} s := by
  obtain ⟨s, run, ended⟩ := exists_reach_of_exec step (Meets Whole fun _ => [1, 2, 3]) {}
    ([.write ⟨[1]⟩ [97] [1, 2, 3], .add ⟨[1]⟩ [97], .beacon ⟨[1]⟩,
        .deliver ⟨[2]⟩ ⟨[1]⟩ Rounds.announceA] ++ fetched 0 ⟨[2]⟩ ++
      [.beacon ⟨[2]⟩, .deliver ⟨[3]⟩ ⟨[2]⟩ Rounds.announceA] ++ fetched 1 ⟨[3]⟩)
    (fun s => s.disk ⟨[3]⟩ [97] = some [1, 2, 3] ∧
      ∃ f ∈ s.fetches, f.node = ⟨[3]⟩ ∧ f.contents.download.controller = .storing) (by decide +kernel)
  obtain ⟨stored, storing⟩ := of_decide_eq_true ended
  exact ⟨s, stored, storing, reach_truthful (by simp) run⟩

end Swarm

end SimpleP2P
