import SimpleP2P.Database.Soundness

namespace SimpleP2P
open Library

abbrev Datagram := { bytes : Bytes // bytes.length ≤ udpServBufferSize }

abbrev UdpBuffer := Buffer udpServBufferSize

inductive Message
  | fileList (resources : List Resource)
  | revoke (resource : Resource)
  | unknown
  deriving DecidableEq, Repr

def readHeaders (memory : Memory) (buf : Nat) : Nat → Except Fault (List Resource)
  | 0 => .ok []
  | iter + 1 => do
      let header ← memory.readRange buf resourceHeaderSize
      let resources ← readHeaders memory (buf + resourceHeaderSize) iter
      return .ofHeader header :: resources

def parse (memory : Memory) : Except Fault Message := do
  let command ← memory 0
  if command = fileList then
    let iter ← memory.readRange 1 8
    return .fileList (← readHeaders memory 9 (BigEndian.valueOf iter))
  else if command = revoke then
    return .revoke (.ofHeader (← memory.readRange 1 264))
  else return .unknown

def Message.deliver (sender : IpAddress) (db : ResourceDatabase) :
    Message → Except Fault ResourceDatabase
  | .fileList resources => db.updateHost sender resources
  | .revoke resource => db.revokeResource resource
  | .unknown => .ok db

def handleReceive (memory : Memory) (sender : IpAddress) (db : ResourceDatabase) :
    Except Fault ResourceDatabase :=
  if db.myHostIp ≠ sender then do (← parse memory).deliver sender db
  else .ok db

namespace Datagram

def expectedLength (d : Datagram) : Option Nat :=
  if d.1.head? = some fileList then
    some (9 + resourceHeaderSize * BigEndian.valueOf ((d.1.drop 1).take 8))
  else if d.1.head? = some revoke then some 265
  else none

def Matches (d : Datagram) : Prop := ∃ n ∈ d.expectedLength, d.1.length = n

/-- The memory the handler reads: the datagram, then what was left in the buffer. -/
def received (d : Datagram) (buffer : UdpBuffer) : Memory :=
  .ofBytes (buffer.receive d.1 d.2).bytes

/-- Only the datagram is read, what the database becomes depends on nothing else in the buffer, and
a datagram that does not match changes nothing. -/
structure HandledWithin (d : Datagram) : Prop where
  inside : ∃ message, parse (.ofBytes d.1) = .ok message
  alone : ∀ ip db, Reach ResourceDatabase.apply Anything (.start ip) db →
    ∀ sender buffer buffer', handleReceive (d.received buffer) sender db =
      handleReceive (d.received buffer') sender db
  unmatched : ¬d.Matches → ∀ ip db, Reach ResourceDatabase.apply Anything (.start ip) db →
    ∀ sender buffer, handleReceive (d.received buffer) sender db = .ok db

def WellFormed (d : Datagram) : Prop :=
  d.1 ≠ [] ∧ ∀ n ∈ d.expectedLength, d.1.length = n

end Datagram

/-! ## What is read -/

theorem readHeaders_mono {memory memory' : Memory}
    (extended : ∀ i b, memory i = .ok b → memory' i = .ok b) {buf iter : Nat}
    {resources : List Resource} (h : readHeaders memory buf iter = .ok resources) :
    readHeaders memory' buf iter = .ok resources := by
  induction iter generalizing buf resources with
  | zero => exact h
  | succ iter ih =>
      cases first : memory.readRange buf resourceHeaderSize with
      | error e => simp [readHeaders, first, bind, Except.bind] at h
      | ok header =>
          cases later : readHeaders memory (buf + resourceHeaderSize) iter with
          | error e => simp [readHeaders, first, later, bind, Except.bind] at h
          | ok rest =>
              simp only [readHeaders, first, later, bind, Except.bind] at h
              simp only [readHeaders, Memory.readRange_mono extended first, ih later, bind, Except.bind]
              exact h

theorem parse_mono {memory memory' : Memory}
    (extended : ∀ i b, memory i = .ok b → memory' i = .ok b) {message : Message}
    (h : parse memory = .ok message) : parse memory' = .ok message := by
  cases first : memory 0 with
  | error e => simp [parse, first, bind, Except.bind] at h
  | ok command =>
      simp only [parse, first, extended _ _ first, bind, Except.bind] at h ⊢
      split
      · rename_i list
        simp only [if_pos list] at h
        cases iter : memory.readRange 1 8 with
        | error e => simp [iter] at h
        | ok count =>
            cases headers : readHeaders memory 9 (BigEndian.valueOf count) with
            | error e => simp [iter, headers] at h
            | ok resources =>
                simp only [iter, headers] at h
                simp only [Memory.readRange_mono extended iter, readHeaders_mono extended headers]
                exact h
      · rename_i other
        simp only [if_neg other] at h
        split
        · rename_i revoked
          simp only [if_pos revoked] at h
          cases header : memory.readRange 1 264 with
          | error e => simp [header] at h
          | ok bytes =>
              simp only [header] at h
              simp only [Memory.readRange_mono extended header]
              exact h
        · rename_i neither
          simpa only [if_neg neither] using h

theorem readHeaders_ofBytes {bytes : Bytes} {buf iter : Nat} (start : buf ≤ bytes.length) :
    (∃ resources, readHeaders (.ofBytes bytes) buf iter = .ok resources) ↔
      buf + resourceHeaderSize * iter ≤ bytes.length := by
  induction iter generalizing buf with
  | zero => simpa [readHeaders] using start
  | succ iter ih =>
      by_cases inside : buf + resourceHeaderSize ≤ bytes.length
      · have next := ih inside
        rw [readHeaders, Memory.readRange_ofBytes inside]
        simp only [bind, Except.bind, Nat.mul_succ]
        rw [show buf + (resourceHeaderSize * iter + resourceHeaderSize) =
          buf + resourceHeaderSize + resourceHeaderSize * iter by omega, ← next]
        cases later : readHeaders (.ofBytes bytes) (buf + resourceHeaderSize) iter with
        | error e => simp
        | ok rest => simp [pure, Except.pure]
      · have outside : Memory.readRange (.ofBytes bytes) buf resourceHeaderSize = .error .outOfBounds :=
          Memory.readRange_outside (by decide) (by omega)
        rw [readHeaders, outside]
        simp only [bind, Except.bind, Nat.mul_succ, reduceCtorEq, exists_false, false_iff]
        omega

theorem parse_ofBytes (d : Datagram) : (∃ message, parse (.ofBytes d.1) = .ok message) ↔
    d.1 ≠ [] ∧ ∀ n ∈ d.expectedLength, n ≤ d.1.length := by
  by_cases empty : d.1 = []
  · simp [parse, empty, Memory.ofBytes_of_ge, bind, Except.bind]
  · obtain ⟨command, rest, same⟩ := List.exists_cons_of_ne_nil empty
    have first : Memory.ofBytes d.1 0 = .ok command := by simp [same]
    have head : d.1.head? = some command := by simp [same]
    simp only [parse, first, bind, Except.bind, Datagram.expectedLength, head, Option.some.injEq,
      ne_eq, empty, not_false_eq_true, true_and]
    split
    · simp only [Option.mem_def, Option.some.injEq, forall_eq']
      by_cases counted : 9 ≤ d.1.length
      · rw [Memory.readRange_ofBytes (by omega), ← readHeaders_ofBytes counted]
        cases headers : readHeaders (.ofBytes d.1) 9 (BigEndian.valueOf ((d.1.drop 1).take 8)) with
        | error e => simp only [headers, reduceCtorEq, exists_false]
        | ok resources =>
            simp only [headers, pure, Except.pure, Except.ok.injEq, exists_eq']
      · have short : Memory.readRange (.ofBytes d.1) 1 8 = .error .outOfBounds :=
          Memory.readRange_outside (by decide) (by omega)
        simp only [short, reduceCtorEq, exists_false, false_iff]
        omega
    · split
      · simp only [Option.mem_def, Option.some.injEq, forall_eq']
        by_cases whole : 265 ≤ d.1.length
        · rw [Memory.readRange_ofBytes (by omega)]
          simp [pure, Except.pure, whole]
        · have short : Memory.readRange (.ofBytes d.1) 1 264 = .error .outOfBounds :=
            Memory.readRange_outside (by decide) (by omega)
          simp only [short, reduceCtorEq, exists_false, false_iff]
          omega
      · simp [pure, Except.pure]

theorem parse_command {d : Datagram} {message : Message} (h : parse (.ofBytes d.1) = .ok message) :
    match message with
    | .fileList _ => d.1.head? = some fileList
    | .revoke _ => d.1.head? = some revoke
    | .unknown => d.expectedLength = none := by
  cases first : Memory.ofBytes d.1 0 with
  | error e => simp [parse, first, bind, Except.bind] at h
  | ok command =>
      have head : d.1.head? = some command := by
        rw [List.head?_eq_getElem?]
        exact Memory.ofBytes_ok.mp first
      simp only [parse, first, bind, Except.bind] at h
      split at h
      · rename_i list
        cases iter : Memory.readRange (.ofBytes d.1) 1 8 with
        | error e => simp [iter] at h
        | ok count =>
            cases headers : readHeaders (.ofBytes d.1) 9 (BigEndian.valueOf count) with
            | error e => simp [iter, headers] at h
            | ok resources =>
                simp only [iter, headers, pure, Except.pure, Except.ok.injEq] at h
                subst h
                exact list ▸ head
      · rename_i other
        split at h
        · rename_i revoked
          cases header : Memory.readRange (.ofBytes d.1) 1 264 with
          | error e => simp [header] at h
          | ok bytes =>
              simp only [header, pure, Except.pure, Except.ok.injEq] at h
              subst h
              exact revoked ▸ head
        · rename_i neither
          simp only [pure, Except.pure, Except.ok.injEq] at h
          subst h
          simp [Datagram.expectedLength, head, other, neither]

namespace Datagram

variable {d : Datagram}

theorem revoke_ne_fileList : revoke ≠ fileList := by decide

theorem parse_received {message : Message} (h : parse (.ofBytes d.1) = .ok message)
    (buffer : UdpBuffer) : parse (d.received buffer) = .ok message :=
  parse_mono (Memory.ofBytes_append d.1 _) h

theorem WellFormed.handledWithin (h : d.WellFormed) : d.HandledWithin := by
  obtain ⟨filled, length⟩ := h
  obtain ⟨message, parsed⟩ := (parse_ofBytes d).mpr ⟨filled, fun n asked => (length n asked).ge⟩
  refine ⟨⟨message, parsed⟩, fun ip db run sender buffer buffer' => ?_, ?_⟩
  · rw [handleReceive, handleReceive, parse_received parsed, parse_received parsed]
  · intro unmatched ip db run sender buffer
    have unknown : d.expectedLength = none := by
      by_contra asked
      obtain ⟨n, expected⟩ := Option.ne_none_iff_exists'.mp asked
      exact unmatched ⟨n, expected, length n expected⟩
    cases message with
    | fileList resources =>
        have command : d.1.head? = some fileList := parse_command parsed
        simp [expectedLength, command] at unknown
    | revoke resource =>
        have command : d.1.head? = some revoke := parse_command parsed
        simp [expectedLength, command, revoke_ne_fileList] at unknown
    | unknown =>
        rw [handleReceive, parse_received parsed]
        simp [Message.deliver, bind, Except.bind]

theorem start_updateHost_ne (resources : List Resource) :
    (ResourceDatabase.start ⟨[]⟩).updateHost ⟨[0]⟩ resources ≠ .ok (.start ⟨[]⟩) := by
  intro unchanged
  obtain ⟨p, known⟩ := ResourceDatabase.updateHost_address unchanged
  simp only [ResourceDatabase.possession, ResourceDatabase.start, Store.lookup_push,
    Store.lookup_empty] at known
  split at known <;> simp at known

theorem added_revokeResource_ne (res : Resource) :
    ((ResourceDatabase.start ⟨[]⟩).addFileInternal res ⟨[]⟩).revokeResource res ≠
      .ok ((ResourceDatabase.start ⟨[]⟩).addFileInternal res ⟨[]⟩) := by
  intro unchanged
  have added : ((ResourceDatabase.start ⟨[]⟩).addFileInternal res ⟨[]⟩).findResource res =
      some ⟨0, { res.copy with hostsInPossession := [0] }⟩ := by
    simp [ResourceDatabase.addFileInternal, ResourceDatabase.ensureResource,
      ResourceDatabase.ensureHost, ResourceDatabase.connect, ResourceDatabase.findResource,
      ResourceDatabase.findHost, ResourceDatabase.start, Store.find?, Store.empty, Store.push,
      Store.modify, Store.update, Resource.copy, Resource.sameAs]
  obtain ⟨there, -⟩ := ResourceDatabase.findResource_some added
  have frozen := congrArg (·.graph.frozen 0) (ResourceDatabase.revokeResource_found added unchanged)
  simp [ResourceDatabase.possession, Possession.freeze, LinkGraph.freeze, there, Resource.copy] at frozen

theorem HandledWithin.wellFormed (h : d.HandledWithin) : d.WellFormed := by
  obtain ⟨⟨message, parsed⟩, -, unmatched⟩ := h
  obtain ⟨filled, enough⟩ := (parse_ofBytes d).mp ⟨message, parsed⟩
  refine ⟨filled, fun n expected => ?_⟩
  by_contra other
  have differs : ¬d.Matches := by
    rintro ⟨m, asked, same⟩
    obtain rfl : n = m := Option.mem_unique expected asked
    exact other same
  cases message with
  | fileList resources =>
      have kept := unmatched differs ⟨[]⟩ (.start ⟨[]⟩) .refl ⟨[0]⟩ (.zeros _)
      rw [handleReceive, parse_received parsed, if_pos (by decide)] at kept
      exact start_updateHost_ne resources kept
  | revoke resource =>
      have kept := unmatched differs ⟨[]⟩ _
        (.tail (e := .addFile resource ⟨[]⟩) .refl trivial rfl) ⟨[0]⟩ (.zeros _)
      have localhost := ResourceDatabase.addFileInternal_localhost (.start ⟨[]⟩) resource ⟨[]⟩
      have remote : (ResourceDatabase.addFileInternal (.start ⟨[]⟩) resource ⟨[]⟩).myHostIp ≠ ⟨[0]⟩ := by
        rw [(Prod.mk.inj localhost).2]
        decide
      rw [handleReceive, parse_received parsed, if_pos remote] at kept
      exact added_revokeResource_ne resource kept
  | unknown =>
      have none : d.expectedLength = none := parse_command parsed
      simp [none] at expected

theorem handledWithin_iff (d : Datagram) : d.HandledWithin ↔ d.WellFormed :=
  ⟨HandledWithin.wellFormed, WellFormed.handledWithin⟩

/-- A revocation cut after its command is completed from the bytes of an earlier datagram. -/
theorem handledWithin_fails : ¬∀ d : Datagram, d.HandledWithin := by
  intro claim
  obtain ⟨message, parsed⟩ := (claim ⟨[revoke], by decide⟩).inside
  have cut : parse (.ofBytes [revoke]) = .error .outOfBounds := by decide
  simp [cut] at parsed

end Datagram

end SimpleP2P
