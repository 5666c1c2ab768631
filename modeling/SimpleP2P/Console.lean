import SimpleP2P.CLI
import SimpleP2P.Database.Queries

/-!
# The console

The tokenizer is not part of the program: `tokens` is what it makes of a line. While `global` goes
through the resources, the other threads of the program work on the database.
-/

namespace SimpleP2P
open Library

namespace CLI

def ascii (text : String) : Bytes := text.toList.map fun c => UInt8.ofNat c.toNat

def blank : UInt8 := 32

/-- The argument of a single token is empty, and later tokens are not read. -/
def parse (tokens : Bytes → List Bytes) (line : Bytes) : Option (Bytes × Bytes) :=
  match tokens line with
  | [] => none
  | [name] => some (name, [])
  | name :: arg :: _ => some (name, arg)

inductive Function
  | add
  | revoke
  | download
  | global
  | help
  | quit
  deriving DecidableEq, Repr

structure CLICommand where
  name : String
  description : String
  function : Function

def commands : List CLICommand :=
  [⟨"add", "\"add name_of_file\" - adds local file to resource db, will be broadcasted", .add⟩,
    ⟨"revoke", "\"revoke name_of_file\" - invalidates a resource", .revoke⟩,
    ⟨"download", "\"download name_of_file\" - downloads a file using p2p", .download⟩,
    ⟨"global", "prints files in the system", .global⟩,
    ⟨"help", "prints available commands", .help⟩,
    ⟨"quit", "leaves the program", .quit⟩]

/-- `operator<<`, which fills the name up to ten columns. -/
def CLICommand.line (command : CLICommand) : Bytes :=
  ascii "- " ++ ascii command.name ++ List.replicate (10 - (ascii command.name).length) blank ++
    ascii " " ++ ascii command.description ++ ascii "\n"

def named (name : Bytes) : Option Function :=
  (commands.find? fun command => ascii command.name = name).map (·.function)

theorem filter_name {commands : List CLICommand}
    (distinct : (commands.map fun command => ascii command.name).Nodup) (name : Bytes) :
    commands.filter (fun command => ascii command.name = name) =
      (commands.find? fun command => ascii command.name = name).toList := by
  induction commands with
  | nil => rfl
  | cons first rest ih =>
      obtain ⟨new, later⟩ := List.nodup_cons.mp distinct
      by_cases same : ascii first.name = name
      · have none : rest.filter (fun command => ascii command.name = name) = [] := by
          rw [List.filter_eq_nil_iff]
          intro command member
          have other := ne_of_mem_of_not_mem (List.mem_map_of_mem member) new
          simpa [← same] using other
        simp [same, none]
      · simp [same, ih later]

theorem runs_named (name : Bytes) :
    (commands.filter fun command => ascii command.name = name).map (·.function) =
      (named name).toList := by
  rw [filter_name (by decide), named]
  cases commands.find? fun command => ascii command.name = name <;> rfl

inductive FileError
  | noSuchFile
  | other
  deriving DecidableEq, Repr

def fileSizeText (size : UInt64) : Bytes := ascii s!" File size is: {size}\n"

def owned : Bool → Bytes
  | true => ascii " [owned]"
  | false => []

def revoked : Bool → Bytes
  | true => ascii " [revoked]"
  | false => []

end CLI

inductive Stage
  | reading
  /-- `global` has these resources of its copy of the vector left. -/
  | listing (rest : List ResourcePtr)
  /-- It asks `has_resource` for the first one, which goes through the list of the local host. -/
  | walking (q : ResourcePtr) (rest : List ResourcePtr)
  /-- It asks `isInvalidated` of the first one. -/
  | marking (q : ResourcePtr) (rest : List ResourcePtr)
  | exited
  deriving DecidableEq, Repr

def Stage.left : Stage → List ResourcePtr
  | .listing rest => rest
  | .walking q rest | .marking q rest => q :: rest
  | .reading | .exited => []

def Stage.parts : Stage → Nat
  | .listing rest => 3 * rest.length + 1
  | .walking _ rest => 3 * rest.length + 3
  | .marking _ rest => 3 * rest.length + 2
  | .reading | .exited => 0

/-- `client` is whether the broadcast client has been made; `printed` is what the printer was given. -/
structure Console where
  db : ResourceDatabase
  client : Bool
  stage : Stage := .reading
  stream : Bytes := []
  printed : List Bytes := []
  packets : List Packet := []
  downloads : List ResourcePtr := []

namespace Console

inductive Event
  /-- A line is read, and what `file_size` says if it is an `add`; `inTime` is that of `download`. -/
  | line (text : Bytes) (size : Except CLI.FileError UInt64) (inTime : Bool)
  /-- The next part of a round of the loop of `global`, or the end of the loop. -/
  | list
  /-- Another thread of the program has the lock of the database. -/
  | other (op : ResourceDatabase.Op)

def start (me : IpAddress) (client : Bool) : Console where
  db := .start me
  client := client

def print (c : Console) (text : Bytes) : Console := { c with printed := c.printed ++ [text] }

def call (c : Console) (arg : Bytes) (size : Except CLI.FileError UInt64) (inTime : Bool) :
    CLI.Function → Except Fault Console
  | .add =>
      match size with
      | .ok size =>
          let c := c.print (CLI.fileSizeText size)
          match CLI.add (fun _ => some size) arg with
          | some res => .ok { c with db := c.db.addFileInternal res c.db.myHostIp }
          | none => .ok c
      | .error .noSuchFile =>
          .ok (c.print (CLI.ascii " File does not exist. Are you sure it is in Simple_P2P/bin?\n"))
      | .error .other => .ok c
  | .revoke => do
      let (reply, packet, db) ← CLI.revoke c.db c.client arg
      return { c with db, packets := c.packets ++ packet.toList }.print (CLI.ascii reply.text)
  | .download => do
      let (reply, started) ← CLI.download c.db arg inTime
      return { c with downloads := c.downloads ++ started.toList }.print (CLI.ascii reply.text)
  | .global => .ok { c with stage := .listing (c.db.resources.objects.map (·.ptr)) }
  | .help => .ok (c.print (CLI.commands.flatMap CLI.CLICommand.line))
  | .quit => .ok { c with stage := .exited }

def executeCommand (c : Console) (name arg : Bytes) (size : Except CLI.FileError UInt64)
    (inTime : Bool) : Except Fault Console :=
  match CLI.named name with
  | some function => c.call arg size inTime function
  | none => .ok (c.print (CLI.ascii "* type 'help' for the list of available commands\n"))

def list (c : Console) : Except Halt Console :=
  match c.stage with
  | .listing [] => .ok { c.print c.stream with stage := .reading, stream := [] }
  | .listing (q :: rest) =>
      match c.db.resources.lookup q with
      | some x =>
          .ok { c with stage := .walking q rest, stream := c.stream ++ CLI.ascii " " ++ x.name }
      | none => .error (.fault .expiredPointer)
  | .walking q rest =>
      match c.db.resources.lookup q, c.db.hosts.lookup c.db.myHost with
      | some x, some localhost => do
          let owned ← (c.db.hasResource localhost x).mapError .fault
          return { c with stage := .marking q rest, stream := c.stream ++ CLI.owned owned }
      | _, _ => .error (.fault .expiredPointer)
  | .marking q rest =>
      match c.db.resources.lookup q with
      | some x => .ok { c with
          stage := .listing rest
          stream := c.stream ++ CLI.revoked x.invalidated ++ CLI.ascii "\n" }
      | none => .error (.fault .expiredPointer)
  | .reading | .exited => .error .blocked

/-- `has_resource` does not lock the database: when the list that it goes through is changed, it reads
pointers that are moved or freed meanwhile. -/
def torn (c : Console) (db : ResourceDatabase) : Bool :=
  match c.stage with
  | .walking _ _ => (db.hosts.lookup db.myHost).map (·.possesedResources) !=
      (c.db.hosts.lookup c.db.myHost).map (·.possesedResources)
  | .reading | .listing _ | .marking _ _ | .exited => false

def step (tokens : Bytes → List Bytes) (c : Console) : Event → Except Halt Console
  | .line text size inTime =>
      if c.stage = .reading then
        match CLI.parse tokens text with
        | some (name, arg) => (c.executeCommand name arg size inTime).mapError .fault
        | none => .ok c
      else .error .blocked
  | .list => c.list
  | .other op =>
      if c.stage = .exited then .error .blocked
      else do
        let db ← (c.db.apply op).mapError .fault
        if c.torn db then .error (.fault .dataRace) else return { c with db }

end Console

/-! ## What an event does -/

namespace Console

variable {tokens : Bytes → List Bytes} {c c' c₁ c₂ : Console} {me : IpAddress} {client : Bool}
  {text name arg : Bytes} {size : Except CLI.FileError UInt64} {inTime : Bool}

inductive Outcome
  | nothing
  | answer
  | listing
  | exit
  deriving DecidableEq, Repr

/-- Nothing is said of a file whose size cannot be read for a reason other than its absence. -/
def outcome (size : Except CLI.FileError UInt64) : Option CLI.Function → Outcome
  | some .global => .listing
  | some .quit => .exit
  | some .add => if size = .error .other then .nothing else .answer
  | _ => .answer

def Event.outcome (tokens : Bytes → List Bytes) : Event → Outcome
  | .line text size _ =>
      match CLI.parse tokens text with
      | some (name, _) => Console.outcome size (CLI.named name)
      | none => .nothing
  | .list | .other _ => .nothing

inductive Takes (c : Console) : Outcome → Stage → List Bytes → Prop
  | nothing : Takes c .nothing c.stage c.printed
  | answer {text : Bytes} : Takes c .answer c.stage (c.printed ++ [text])
  | listing : Takes c .listing (.listing (c.db.resources.objects.map (·.ptr))) c.printed
  | exit : Takes c .exit .exited c.printed

structure Called (c : Console) (o : Outcome) (c' : Console) : Prop where
  db : c'.db = c.db ∨ ∃ op, c.db.apply op = .ok c'.db
  client : c'.client = c.client
  stream : c'.stream = c.stream
  takes : Takes c o c'.stage c'.printed

theorem call_add (ok : c.call arg size inTime .add = .ok c') :
    Called c (outcome size (some .add)) c' := by
  cases size with
  | ok size =>
      obtain rfl := Except.ok.inj ok
      exact ⟨.inr ⟨.addFile { size, name := arg, path := arg } c.db.myHostIp, rfl⟩, rfl, rfl, .answer⟩
  | error e =>
      cases e with
      | noSuchFile =>
          obtain rfl := Except.ok.inj ok
          exact ⟨.inl rfl, rfl, rfl, .answer⟩
      | other =>
          obtain rfl := Except.ok.inj ok
          exact ⟨.inl rfl, rfl, rfl, .nothing⟩

theorem revoke_db {db db' : ResourceDatabase} {reply : CLI.Reply} {packet : Option Packet}
    (ok : CLI.revoke db client arg = .ok (reply, packet, db')) :
    db' = db ∨ ∃ op, db.apply op = .ok db' := by
  cases found : CLI.firstNamed db arg with
  | none =>
      simp only [CLI.revoke, found, Except.ok.injEq, Prod.mk.injEq] at ok
      exact .inl ok.2.2.symm
  | some r =>
      cases client with
      | false =>
          simp only [CLI.revoke, found] at ok
          obtain ⟨result, sent, made⟩ := bind_eq_ok.mp ok
          obtain rfl := Except.ok.inj sent
          obtain ⟨-, -, same⟩ := by simpa only [Prod.mk.injEq] using Except.ok.inj made
          exact .inl same.symm
      | true =>
          obtain ⟨-, bytes, -, -, revoked⟩ := (CLI.revoke_online found).mp ok
          exact .inr ⟨.revokeResource r.obj, revoked⟩

theorem call_called {function : CLI.Function} (ok : c.call arg size inTime function = .ok c') :
    Called c (outcome size (some function)) c' := by
  cases function with
  | add => exact call_add ok
  | revoke =>
      obtain ⟨⟨reply, packet, db⟩, done, made⟩ := bind_eq_ok.mp ok
      obtain rfl := Except.ok.inj made
      exact ⟨revoke_db done, rfl, rfl, .answer⟩
  | download =>
      obtain ⟨⟨reply, started⟩, -, made⟩ := bind_eq_ok.mp ok
      obtain rfl := Except.ok.inj made
      exact ⟨.inl rfl, rfl, rfl, .answer⟩
  | global =>
      obtain rfl := Except.ok.inj ok
      exact ⟨.inl rfl, rfl, rfl, .listing⟩
  | help =>
      obtain rfl := Except.ok.inj ok
      exact ⟨.inl rfl, rfl, rfl, .answer⟩
  | quit =>
      obtain rfl := Except.ok.inj ok
      exact ⟨.inl rfl, rfl, rfl, .exit⟩

theorem executeCommand_called (ok : c.executeCommand name arg size inTime = .ok c') :
    Called c (outcome size (CLI.named name)) c' := by
  unfold executeCommand at ok
  cases chosen : CLI.named name with
  | some function => exact call_called (by simpa only [chosen] using ok)
  | none =>
      simp only [chosen] at ok
      obtain rfl := Except.ok.inj ok
      exact ⟨.inl rfl, rfl, rfl, .answer⟩

inductive Move (tokens : Bytes → List Bytes) (c : Console) : Event → Console → Prop
  | line {c' : Console} {text : Bytes} {size : Except CLI.FileError UInt64} {inTime : Bool} :
      c.stage = .reading → Called c ((Event.line text size inTime).outcome tokens) c' →
      Move tokens c (.line text size inTime) c'
  | named {q : ResourcePtr} {rest : List ResourcePtr} {x : Resource} :
      c.stage = .listing (q :: rest) → c.db.resources.lookup q = some x →
      Move tokens c .list { c with
        stage := .walking q rest
        stream := c.stream ++ CLI.ascii " " ++ x.name }
  | walked {q : ResourcePtr} {rest : List ResourcePtr} {x : Resource} {h : Host} {owned : Bool} :
      c.stage = .walking q rest → c.db.resources.lookup q = some x →
      c.db.hosts.lookup c.db.myHost = some h → c.db.hasResource h x = .ok owned →
      Move tokens c .list { c with stage := .marking q rest, stream := c.stream ++ CLI.owned owned }
  | marked {q : ResourcePtr} {rest : List ResourcePtr} {x : Resource} :
      c.stage = .marking q rest → c.db.resources.lookup q = some x →
      Move tokens c .list { c with
        stage := .listing rest
        stream := c.stream ++ CLI.revoked x.invalidated ++ CLI.ascii "\n" }
  | finished : c.stage = .listing [] →
      Move tokens c .list { c.print c.stream with stage := .reading, stream := [] }
  | other {op : ResourceDatabase.Op} {db : ResourceDatabase} : c.stage ≠ .exited →
      c.db.apply op = .ok db → c.torn db = false → Move tokens c (.other op) { c with db }

theorem list_move (ok : c.list = .ok c') : Move tokens c .list c' := by
  unfold list at ok
  cases there : c.stage with
  | reading | exited => simp [there] at ok
  | listing rest =>
      cases rest with
      | nil =>
          simp only [there] at ok
          obtain rfl := Except.ok.inj ok
          exact .finished there
      | cons q rest =>
          cases found : c.db.resources.lookup q with
          | none => simp [there, found] at ok
          | some x =>
              simp only [there, found] at ok
              obtain rfl := Except.ok.inj ok
              exact .named there found
  | walking q rest =>
      cases found : c.db.resources.lookup q with
      | none => simp [there, found] at ok
      | some x =>
          cases host : c.db.hosts.lookup c.db.myHost with
          | none => simp [there, found, host] at ok
          | some h =>
              simp only [there, found, host] at ok
              obtain ⟨owned, counted, made⟩ := bind_eq_ok.mp ok
              obtain rfl := Except.ok.inj made
              exact .walked there found host (mapError_ok.mp counted)
  | marking q rest =>
      cases found : c.db.resources.lookup q with
      | none => simp [there, found] at ok
      | some x =>
          simp only [there, found] at ok
          obtain rfl := Except.ok.inj ok
          exact .marked there found

theorem step_move {e : Event} (ok : c.step tokens e = .ok c') : Move tokens c e c' := by
  cases e with
  | line text size inTime =>
      simp only [step] at ok
      split at ok
      · rename_i reading
        refine .line reading ?_
        cases parsed : CLI.parse tokens text with
        | none =>
            simp only [parsed] at ok
            obtain rfl := Except.ok.inj ok
            simp only [Event.outcome, parsed]
            exact ⟨.inl rfl, rfl, rfl, .nothing⟩
        | some command =>
            simp only [parsed] at ok
            simp only [Event.outcome, parsed]
            exact executeCommand_called (mapError_ok.mp ok)
      · contradiction
  | list => exact list_move ok
  | other op =>
      simp only [step] at ok
      split at ok
      · contradiction
      · rename_i running
        obtain ⟨db, applied, made⟩ := bind_eq_ok.mp ok
        split at made
        · contradiction
        · rename_i whole
          obtain rfl := Except.ok.inj made
          exact .other running (mapError_ok.mp applied) (by simpa using whole)

theorem Move.db {e : Event} (move : Move tokens c e c') :
    c'.db = c.db ∨ ∃ op, c.db.apply op = .ok c'.db := by
  cases move with
  | line _ called => exact called.db
  | named | walked | marked | finished => exact .inl rfl
  | other _ applied => exact .inr ⟨_, applied⟩

theorem reach_db {allowed : Console → Event → Prop} (run : Reach (step tokens) allowed c c') :
    Reach ResourceDatabase.apply Anything c.db c'.db := by
  induction run with
  | refl => exact .refl
  | tail _ _ ok ih =>
      rcases (step_move ok).db with same | ⟨op, applied⟩
      · exact same ▸ ih
      · exact ih.tail trivial applied

/-! ## The answers -/

def owed : Stage → Nat
  | .listing _ | .walking _ _ | .marking _ _ => 1
  | .reading | .exited => 0

def note (tokens : Bytes → List Bytes) (_ : Console) (e : Event) (n : Nat) : Nat :=
  if e.outcome tokens = .answer ∨ e.outcome tokens = .listing then n + 1 else n

structure Ready (c : Console) : Prop where
  valid : c.db.Valid
  present : ∀ q ∈ c.stage.left, c.db.resources.lookup q ≠ none
  empty : owed c.stage = 0 → c.stream = []

theorem Takes.owed {o : Outcome} {stage : Stage} {printed : List Bytes}
    (takes : Takes c o stage printed) (reading : c.stage = .reading) :
    printed.length + Console.owed stage =
      c.printed.length + if o = .answer ∨ o = .listing then 1 else 0 := by
  cases takes <;> simp [Console.owed, reading]

theorem Takes.left {o : Outcome} {stage : Stage} {printed : List Bytes}
    (takes : Takes c o stage printed) (reading : c.stage = .reading) {q : ResourcePtr}
    (member : q ∈ stage.left) : c.db.resources.lookup q ≠ none := by
  cases takes with
  | nothing | answer => simp [reading, Stage.left] at member
  | exit => simp [Stage.left] at member
  | listing =>
      obtain ⟨r, listed, rfl⟩ := List.mem_map.mp member
      simp [Store.lookup_eq_some.mpr listed]

theorem Move.owed {e : Event} {n : Nat} (move : Move tokens c e c')
    (paid : n = c.printed.length + Console.owed c.stage) :
    note tokens c e n = c'.printed.length + Console.owed c'.stage := by
  cases move with
  | line reading called =>
      rw [called.takes.owed reading, paid, note, reading]
      split <;> rfl
  | named there | walked there | marked there =>
      rw [there] at paid
      exact paid
  | finished there =>
      rw [there] at paid
      refine Eq.trans paid ?_
      simp [print, Console.owed]
  | other => exact paid

theorem name_apply {db db' : ResourceDatabase} {op : ResourceDatabase.Op}
    (applied : db.apply op = .ok db') {q : ResourcePtr} {x : Resource}
    (found : db.resources.lookup q = some x) :
    ∃ y, db'.resources.lookup q = some y ∧ y.name = x.name := by
  have named : db.possession.key q = some x.key := by simp [ResourceDatabase.possession, found]
  have kept := ResourceDatabase.key_steps (ResourceDatabase.apply_steps applied) named
  obtain ⟨y, there, same⟩ := Option.map_eq_some_iff.mp kept
  exact ⟨y, there, congrArg Prod.fst same⟩

theorem present_apply {db db' : ResourceDatabase} {op : ResourceDatabase.Op}
    (applied : db.apply op = .ok db') {q : ResourcePtr} (there : db.resources.lookup q ≠ none) :
    db'.resources.lookup q ≠ none := by
  obtain ⟨x, found⟩ := Option.ne_none_iff_exists'.mp there
  obtain ⟨y, found', -⟩ := name_apply applied found
  simp [found']

theorem ready_start (me : IpAddress) (client : Bool) : (start me client).Ready where
  valid := ResourceDatabase.valid_start me
  present q member := by simp [start, Stage.left] at member
  empty _ := rfl

theorem Ready.step {e : Event} (ready : c.Ready) (ok : c.step tokens e = .ok c') : c'.Ready := by
  have move := step_move ok
  have valid : c'.db.Valid := by
    rcases move.db with same | ⟨op, applied⟩
    · exact same ▸ ready.valid
    · exact ready.valid.apply applied
  cases move with
  | line reading called =>
      obtain ⟨changed, -, stream, takes⟩ := called
      have idle : c.stream = [] := ready.empty (by rw [reading]; rfl)
      refine ⟨valid, fun q member => ?_, fun _ => stream.trans idle⟩
      have there := takes.left reading member
      rcases changed with same | ⟨op, applied⟩
      · exact same ▸ there
      · exact present_apply applied there
  | named there | walked there =>
      exact ⟨valid, fun r member => ready.present r (by rw [there]; exact member), by simp [owed]⟩
  | marked there =>
      refine ⟨valid, fun r member => ready.present r ?_, by simp [owed]⟩
      rw [there]
      exact List.mem_cons_of_mem _ member
  | finished => exact ⟨valid, by simp [Stage.left], fun _ => rfl⟩
  | other running applied =>
      exact ⟨valid, fun q member => present_apply applied (ready.present q member), ready.empty⟩

theorem reach_ready (run : Reach (step tokens) Anything (start me client) c) : c.Ready :=
  run.invariant (ready_start me client) fun _ _ _ ready _ ok => ready.step ok

structure Continues (c c' : Console) : Prop where
  db : c'.db = c.db
  parts : c'.stage.parts + 1 = c.stage.parts
  goes : c'.stage ≠ .exited
  paid : c'.printed.length + owed c'.stage = c.printed.length + 1

theorem Ready.current (ready : c.Ready) {q : ResourcePtr} {rest : List ResourcePtr}
    (left : c.stage.left = q :: rest) : ∃ x, c.db.resources.lookup q = some x :=
  Option.ne_none_iff_exists'.mp (ready.present q (by rw [left]; exact List.mem_cons_self))

theorem Ready.list_ok (ready : c.Ready) (begun : owed c.stage = 1) :
    ∃ c', c.step tokens .list = .ok c' ∧ Continues c c' := by
  cases there : c.stage with
  | reading | exited => simp [there, owed] at begun
  | listing rest =>
      cases rest with
      | nil =>
          refine ⟨{ c.print c.stream with stage := .reading, stream := [] }, ?_, rfl, ?_, ?_, ?_⟩
          · simp only [Console.step, list, there]
          · rw [there]
            rfl
          · simp
          · simp [print, owed]
      | cons q rest =>
          obtain ⟨x, found⟩ := ready.current (congrArg Stage.left there)
          refine ⟨{ c with
            stage := .walking q rest
            stream := c.stream ++ CLI.ascii " " ++ x.name }, ?_, rfl, ?_, ?_, rfl⟩
          · simp only [Console.step, list, there, found]
          · rw [there]
            rfl
          · simp
  | walking q rest =>
      obtain ⟨x, found⟩ := ready.current (congrArg Stage.left there)
      obtain ⟨h, host, -⟩ := Option.map_eq_some_iff.mp ready.valid.localhost
      refine ⟨{ c with
        stage := .marking q rest
        stream := c.stream ++ CLI.owned (decide (q ∈ h.possesedResources)) }, ?_, rfl, ?_, ?_, rfl⟩
      · simp only [Console.step, list, there, found, host, ready.valid.hasResource host found]
        rfl
      · rw [there]
        rfl
      · simp
  | marking q rest =>
      obtain ⟨x, found⟩ := ready.current (congrArg Stage.left there)
      refine ⟨{ c with
        stage := .listing rest
        stream := c.stream ++ CLI.revoked x.invalidated ++ CLI.ascii "\n" }, ?_, rfl, ?_, ?_, rfl⟩
      · simp only [Console.step, list, there, found]
      · rw [there]
        rfl
      · simp

theorem reading_of_parts {stage : Stage} (goes : stage ≠ .exited) (done : stage.parts = 0) :
    stage = .reading := by
  cases stage with
  | reading => rfl
  | listing rest | walking q rest | marking q rest => simp [Stage.parts] at done
  | exited => exact absurd rfl goes

theorem owed_of_parts {stage : Stage} {k : Nat} (more : stage.parts = k + 1) :
    owed stage = 1 := by
  cases stage with
  | reading | exited => simp [Stage.parts] at more
  | listing rest | walking q rest | marking q rest => rfl

theorem Ready.listing_ends {k : Nat} (ready : c.Ready) (goes : c.stage ≠ .exited)
    (left : c.stage.parts = k) : ∃ c' : Console,
      (List.replicate k Event.list).foldlM (Console.step tokens) c = .ok c' ∧
        c'.stage = .reading ∧ c'.db = c.db ∧
        c'.printed.length = c.printed.length + owed c.stage := by
  induction k generalizing c with
  | zero =>
      have reading := reading_of_parts goes left
      exact ⟨c, rfl, reading, rfl, by rw [reading]; rfl⟩
  | succ k ih =>
      have begun := owed_of_parts left
      obtain ⟨c₁, ok, same, parts, goes, paid⟩ := ready.list_ok begun
      obtain ⟨c', run, reading, same', printed⟩ := ih (ready.step ok) goes (by omega)
      refine ⟨c', ?_, reading, same'.trans same, by omega⟩
      rw [List.replicate_succ, List.foldlM_cons, ok]
      exact run

theorem reach_owed {p : Console × Nat}
    (run : Reach (observed (step tokens) (note tokens)) Anything (start me client, 0) p) :
    p.1.Ready ∧ p.2 = p.1.printed.length + owed p.1.stage := by
  induction run with
  | refl => exact ⟨ready_start me client, rfl⟩
  | tail _ _ ok ih =>
      obtain ⟨ready, paid⟩ := ih
      obtain ⟨moved, noted⟩ := observed_ok.mp ok
      exact ⟨ready.step moved, noted.trans ((step_move moved).owed paid)⟩

/-- At any time before the program is left, the answers due are given with no more than the end of the
listing, and there is exactly one for each command. -/
theorem reach_answered {p : Console × Nat}
    (run : Reach (observed (step tokens) (note tokens)) Anything (start me client, 0) p)
    (running : p.1.stage ≠ .exited) :
    ∃ (k : Nat) (c' : Console), (List.replicate k Event.list).foldlM (step tokens) p.1 = .ok c' ∧
      c'.stage = .reading ∧ c'.db = p.1.db ∧ c'.printed.length = p.2 := by
  obtain ⟨ready, paid⟩ := reach_owed run
  obtain ⟨c', ended, reading, same, printed⟩ := ready.listing_ends running rfl
  exact ⟨_, c', ended, reading, same, printed.trans paid.symm⟩

def words (line : Bytes) : List Bytes := (line.splitOn CLI.blank).filter (· ≠ [])

theorem listing_answered : ∃ c c' : Console, c.stage = .listing [] ∧ c'.db = c.db ∧
    c'.printed.length = 3 := by
  obtain ⟨p, run, ended⟩ := exists_reach_of_exec (observed (step words) (note words)) Anything
    (start ⟨[1]⟩ true, 0)
    [.line (CLI.ascii " add  a ") (.ok 3) true, .line (CLI.ascii "  ") (.ok 0) true,
      .line (CLI.ascii "upload a") (.ok 0) true, .line (CLI.ascii "global") (.ok 0) true, .list, .list,
      .list]
    (fun p => p.1.stage = .listing [] ∧ p.2 = 3) (by decide +kernel)
  obtain ⟨listing, commands⟩ := of_decide_eq_true ended
  obtain ⟨k, c', -, -, same, printed⟩ := reach_answered run (by simp [listing])
  exact ⟨p.1, c', listing, same, printed.trans commands⟩

/-! ## What `global` shows -/

def Waits (_ : Console) : Event → Prop
  | .line _ _ _ => False
  | .list | .other _ => True

instance (c : Console) : (e : Event) → Decidable (c.Waits e)
  | .line _ _ _ => .isFalse id
  | .list | .other _ => .isTrue trivial

/-- Between two databases of a run there was one that had the name and the owner of the line, and a later
one that had the mark of the revocation. -/
def Shows (before after : ResourceDatabase) (q : ResourcePtr) (line : Bytes) : Prop :=
  ∃ db₁ db₂ : ResourceDatabase, Reach ResourceDatabase.apply Anything before db₁ ∧
    Reach ResourceDatabase.apply Anything db₁ db₂ ∧ Reach ResourceDatabase.apply Anything db₂ after ∧
    ∃ x y h, db₁.resources.lookup q = some x ∧ db₁.hosts.lookup db₁.myHost = some h ∧
      db₂.resources.lookup q = some y ∧
      line = CLI.ascii " " ++ x.name ++ CLI.owned (decide (q ∈ h.possesedResources)) ++
        CLI.revoked y.invalidated ++ CLI.ascii "\n"

theorem Shows.later {before middle after : ResourceDatabase} {op : ResourceDatabase.Op}
    {q : ResourcePtr} {line : Bytes} (h : Shows before middle q line)
    (applied : middle.apply op = .ok after) : Shows before after q line := by
  obtain ⟨db₁, db₂, first, second, third, truth⟩ := h
  exact ⟨db₁, db₂, first, second, third.tail trivial applied, truth⟩

inductive Begun (before now : ResourceDatabase) : Stage → Bytes → Prop
  | listing {rest : List ResourcePtr} : Begun before now (.listing rest) []
  | walking {q : ResourcePtr} {rest : List ResourcePtr} {x : Resource} :
      now.resources.lookup q = some x →
      Begun before now (.walking q rest) (CLI.ascii " " ++ x.name)
  | marking {db : ResourceDatabase} {q : ResourcePtr} {rest : List ResourcePtr} {x : Resource}
      {h : Host} : Reach ResourceDatabase.apply Anything before db →
      Reach ResourceDatabase.apply Anything db now → db.resources.lookup q = some x →
      db.hosts.lookup db.myHost = some h →
      Begun before now (.marking q rest)
        (CLI.ascii " " ++ x.name ++ CLI.owned (decide (q ∈ h.possesedResources)))

theorem Begun.later {before middle after : ResourceDatabase} {op : ResourceDatabase.Op}
    {stage : Stage} {part : Bytes} (begun : Begun before middle stage part)
    (applied : middle.apply op = .ok after) : Begun before after stage part := by
  cases begun with
  | listing => exact .listing
  | walking found =>
      obtain ⟨y, there, same⟩ := name_apply applied found
      rw [← same]
      exact .walking there
  | marking first second found host => exact .marking first (second.tail trivial applied) found host

inductive Listed (c : Console) (rest : List ResourcePtr) (c' : Console) : Prop
  | running {done : List ResourcePtr} {lines : List Bytes} {part : Bytes} :
      rest = done ++ c'.stage.left → List.Forall₂ (Shows c.db c'.db) done lines →
      Begun c.db c'.db c'.stage part → c'.stream = c.stream ++ lines.flatten ++ part →
      c'.printed = c.printed → Listed c rest c'
  | finished {lines : List Bytes} : List.Forall₂ (Shows c.db c'.db) rest lines →
      c'.stage = .reading → c'.printed = c.printed ++ [c.stream ++ lines.flatten] → Listed c rest c'

theorem Listed.list {rest : List ResourcePtr} (listed : Listed c rest c₁) (ready : c₁.Ready)
    (run : Reach ResourceDatabase.apply Anything c.db c₁.db) (move : Move tokens c₁ .list c₂) :
    Listed c rest c₂ := by
  cases listed with
  | @running done lines part split shown begun stream printed =>
      cases move with
      | @named q left x there found =>
          rw [there] at split begun
          cases begun
          refine .running split shown (.walking found) ?_ printed
          simp [stream]
      | @walked q left x h owned there found host counted =>
          rw [there] at split begun
          cases begun with
          | walking named =>
              obtain rfl := Option.some.inj (found.symm.trans named)
              obtain rfl := Except.ok.inj ((ready.valid.hasResource host found).symm.trans counted)
              refine .running split shown (.marking run .refl found host) ?_ printed
              simp [stream]
      | @marked q left y there found =>
          rw [there] at split begun
          cases begun with
          | @marking db _ _ x h first second named host =>
              have line : Shows c.db c₁.db q _ :=
                ⟨db, c₁.db, first, second, .refl, x, y, h, named, host, found, rfl⟩
              refine .running (split.trans (List.append_cons done q left))
                (List.rel_append shown (.cons line .nil)) .listing ?_ printed
              simp [stream]
      | finished there =>
          rw [there] at split begun
          cases begun
          obtain rfl : rest = done := by simpa [Stage.left] using split
          refine .finished shown rfl ?_
          simp [print, printed, stream]
  | finished shown reading printed =>
      cases move with
      | named there | walked there | marked there | finished there =>
          rw [reading] at there
          contradiction

theorem Listed.step {rest : List ResourcePtr} {e : Event} (listed : Listed c rest c₁)
    (ready : c₁.Ready) (run : Reach (Console.step tokens) Waits c c₁) (waits : Waits c₁ e)
    (ok : c₁.step tokens e = .ok c₂) : Listed c rest c₂ := by
  have move := step_move ok
  cases e with
  | line => exact waits.elim
  | list => exact listed.list ready (reach_db run) move
  | other op =>
      cases move with
      | other running applied =>
          have later {q : ResourcePtr} {line : Bytes} (shows : Shows c.db c₁.db q line) :=
            shows.later applied
          cases listed with
          | running split shown begun stream printed =>
              exact .running split (shown.imp fun _ _ => later) (begun.later applied) stream printed
          | finished shown reading printed =>
              exact .finished (shown.imp fun _ _ => later) reading printed

theorem run_listed {rest : List ResourcePtr} (ready : c.Ready) (there : c.stage = .listing rest)
    (run : Reach (step tokens) Waits c c') : c'.Ready ∧ Listed c rest c' := by
  induction run with
  | refl =>
      have begun : Begun c.db c.db c.stage [] := by
        rw [there]
        exact .listing
      have nothing : rest = [] ++ c.stage.left := by rw [there]; rfl
      exact ⟨ready, .running nothing .nil begun (by simp) rfl⟩
  | tail before waits ok ih =>
      obtain ⟨ready, listed⟩ := ih
      exact ⟨ready.step ok, listed.step ready before waits ok⟩

theorem reach_listing (before : Reach (step tokens) Anything (start me client) c)
    (typed : CLI.parse tokens text = some (CLI.ascii "global", arg))
    (begun : c.step tokens (.line text size inTime) = .ok c₁) (run : Reach (step tokens) Waits c₁ c₂)
    (ended : c₂.stage = .reading) : ∃ lines : List Bytes, c₂.printed = c.printed ++ [lines.flatten] ∧
      List.Forall₂ (Shows c.db c₂.db) (c.db.resources.objects.map (·.ptr)) lines ∧
      (c.db.resources.objects.map (·.obj.key)).Nodup := by
  have ready := reach_ready before
  have distinct : (c.db.resources.objects.map (·.obj.key)).Nodup :=
    Store.nodup_map fun _ member _ member' => ready.valid.resource_ptr member member'
  by_cases reading : c.stage = .reading
  · have called := begun
    simp only [step, if_pos reading, typed] at called
    have listing : c.executeCommand (CLI.ascii "global") arg size inTime =
        .ok { c with stage := .listing (c.db.resources.objects.map (·.ptr)) } := rfl
    obtain rfl := Except.ok.inj (listing.symm.trans (mapError_ok.mp called))
    have begunReady : Ready { c with stage := .listing (c.db.resources.objects.map (·.ptr)) } :=
      ready.step begun
    cases (run_listed begunReady rfl run).2 with
    | running _ _ part =>
        rw [ended] at part
        contradiction
    | @finished lines shown _ printed =>
        have idle : c.stream = [] := ready.empty (by rw [reading]; rfl)
        refine ⟨lines, ?_, shown, distinct⟩
        rw [printed, idle, List.nil_append]
  · simp [step, reading] at begun

def adding : Console where
  db := (ResourceDatabase.start ⟨[1]⟩).addFileInternal { size := 3, name := [97], path := [97] } ⟨[1]⟩
  client := true
  printed := [CLI.fileSizeText 3]

/-- Another node revokes the file between the two marks of its line. -/
theorem revoked_listing : ∃ (c : Console) (lines : List Bytes),
    c.printed = [CLI.fileSizeText 3, lines.flatten] ∧
      lines.flatten = CLI.ascii " a [owned] [revoked]\n" ∧
      List.Forall₂ (Shows adding.db c.db) [0] lines := by
  have before : Reach (step words) Anything (start ⟨[1]⟩ true) adding :=
    .tail (e := .line (CLI.ascii "add a") (.ok 3) true) .refl trivial rfl
  have begun : adding.step words (.line (CLI.ascii "global") (.ok 0) true) =
      .ok { adding with stage := .listing [0] } := rfl
  obtain ⟨c, run, ended⟩ := exists_reach_of_exec (step words) Waits
    { adding with stage := .listing [0] }
    [.list, .list, .other (.revokeResource { size := 3, name := [97] }), .list, .list]
    (fun c => c.stage = .reading ∧
      c.printed = [CLI.fileSizeText 3, CLI.ascii " a [owned] [revoked]\n"]) (by decide +kernel)
  obtain ⟨reading, answer⟩ := of_decide_eq_true ended
  have typed : CLI.parse words (CLI.ascii "global") = some (CLI.ascii "global", []) := by
    decide +kernel
  obtain ⟨lines, printed, shown, -⟩ := reach_listing before typed begun run reading
  have same : lines.flatten = CLI.ascii " a [owned] [revoked]\n" := by
    simpa [adding] using printed.symm.trans answer
  exact ⟨c, lines, printed, same, shown⟩

/-! ## Where a command brings the program down -/

def RevokeFails (db : ResourceDatabase) (x : Resource) (f : Fault) : Prop :=
  if x.name.length ≤ fileNameLength + fileSizeLength then
    (∃ p ∈ x.hostsInPossession, db.hosts.lookup p = none) ∧ f = .expiredPointer
  else f = .outOfBounds

inductive Fails (tokens : Bytes → List Bytes) (c : Console) : Event → Fault → Prop
  | revoke {text name arg : Bytes} {size : Except CLI.FileError UInt64} {inTime : Bool}
      {r : Shared Resource} {f : Fault} : c.stage = .reading → CLI.parse tokens text = some (name, arg) →
      CLI.named name = some .revoke → c.client = true → CLI.firstNamed c.db arg = some r →
      RevokeFails c.db r.obj f → Fails tokens c (.line text size inTime) f
  | download {text name arg : Bytes} {size : Except CLI.FileError UInt64} {r : Shared Resource} :
      c.stage = .reading → CLI.parse tokens text = some (name, arg) → CLI.named name = some .download →
      CLI.firstNamed c.db arg = some r → r.obj.invalidated = false →
      Fails tokens c (.line text size false) .expiredPointer
  | other {op : ResourceDatabase.Op} {f : Fault} : c.stage ≠ .exited → c.db.apply op = .error f →
      Fails tokens c (.other op) f
  | torn {op : ResourceDatabase.Op} {db : ResourceDatabase} {q : ResourcePtr}
      {rest : List ResourcePtr} : c.stage = .walking q rest → c.db.apply op = .ok db →
      (db.hosts.lookup db.myHost).map (·.possesedResources) ≠
        (c.db.hosts.lookup c.db.myHost).map (·.possesedResources) →
      Fails tokens c (.other op) .dataRace

theorem revokeResource_fails {db : ResourceDatabase} (valid : db.Valid) {r : Shared Resource}
    {f : Fault} (found : CLI.firstNamed db name = some r) : db.revokeResource r.obj = .error f ↔
      (∃ p ∈ r.obj.hostsInPossession, db.hosts.lookup p = none) ∧ f = .expiredPointer := by
  obtain ⟨there, -⟩ := CLI.firstNamed_some found
  have located : db.findResource r.obj = some r :=
    valid.findResource_eq (Store.lookup_eq_some.mp there)
  cases cut : db.hosts.modifyAll Fault.expiredPointer (·.removeResource r.ptr)
      r.obj.hostsInPossession with
  | ok hosts =>
      have present := Store.modifyAll_ok_iff.mp ⟨hosts, cut⟩
      have ok := (ResourceDatabase.revokeResource_ok located).mpr ⟨hosts, cut, rfl⟩
      refine iff_of_false (by simp [ok]) ?_
      rintro ⟨⟨p, listed, gone⟩, -⟩
      exact present p listed gone
  | error e =>
      obtain ⟨rfl, gone⟩ := Store.modifyAll_error cut
      have failed : db.revokeResource r.obj = .error .expiredPointer := by
        simp only [ResourceDatabase.revokeResource, located, cut]
        rfl
      rw [failed, Except.error.injEq, eq_comm]
      exact (and_iff_right gone).symm

theorem revoke_fails {db : ResourceDatabase} (valid : db.Valid) {f : Fault} :
    CLI.revoke db client arg = .error f ↔
      client = true ∧ ∃ r, CLI.firstNamed db arg = some r ∧ RevokeFails db r.obj f := by
  cases found : CLI.firstNamed db arg with
  | none => simp [CLI.revoke, found]
  | some r =>
      cases client with
      | false => simp [CLI.revoke, found, UdpModule.revokeFile, bind, Except.bind, pure, Except.pure]
      | true =>
          have fails : RevokeFails db r.obj f ↔ CLI.revoke db true arg = .error f := by
            by_cases fits : r.obj.name.length ≤ fileNameLength + fileSizeLength
            · obtain ⟨bytes, sent⟩ := (CLI.revokeFile_ok_iff r.obj).mpr fits
              simp only [RevokeFails, if_pos fits, ← revokeResource_fails valid found, CLI.revoke, found,
                UdpModule.revokeFile, sent, if_true, bind, Except.bind]
              cases db.revokeResource r.obj <;> simp [pure, Except.pure]
            · have long : SimpleP2P.revokeFile r.obj = .error .outOfBounds := by
                rw [SimpleP2P.revokeFile, Resource.generateResourceHeader_eq, if_neg fits]
                rfl
              simp [RevokeFails, fits, CLI.revoke, found, UdpModule.revokeFile, long, bind, Except.bind,
                eq_comm]
          simp [fails]

theorem download_fails {db : ResourceDatabase} {f : Fault} : CLI.download db arg inTime = .error f ↔
    inTime = false ∧ f = .expiredPointer ∧
      ∃ r, CLI.firstNamed db arg = some r ∧ r.obj.invalidated = false := by
  cases found : CLI.firstNamed db arg with
  | none => simp [CLI.download, found]
  | some r =>
      cases revoked : r.obj.invalidated with
      | true => simp [CLI.download, found, revoked]
      | false =>
          cases inTime with
          | true => simp [CLI.download, found, revoked]
          | false =>
              have failed : CLI.download db arg false = .error .expiredPointer := by
                simp [CLI.download, found, revoked]
              rw [failed, Except.error.injEq]
              constructor
              · rintro rfl
                exact ⟨rfl, rfl, r, rfl, revoked⟩
              · rintro ⟨-, rfl, -⟩
                rfl

theorem Ready.list_faultless (ready : c.Ready) (f : Fault) :
    c.step tokens .list ≠ .error (.fault f) := by
  cases there : c.stage with
  | reading | exited => simp [Console.step, list, there]
  | listing rest | walking q rest | marking q rest =>
      have begun : owed c.stage = 1 := by rw [there]; rfl
      obtain ⟨c', ok, -⟩ : ∃ c', c.step tokens .list = .ok c' ∧ Continues c c' := ready.list_ok begun
      simp [ok]

theorem torn_iff {db : ResourceDatabase} : c.torn db = true ↔ ∃ q rest, c.stage = .walking q rest ∧
    (db.hosts.lookup db.myHost).map (·.possesedResources) ≠
      (c.db.hosts.lookup c.db.myHost).map (·.possesedResources) := by
  unfold torn
  cases c.stage <;> simp

theorem other_fails {op : ResourceDatabase.Op} {f : Fault} :
    c.step tokens (.other op) = .error (.fault f) ↔ Fails tokens c (.other op) f := by
  by_cases exited : c.stage = .exited
  · refine iff_of_false (by simp [step, exited]) fun fails => ?_
    cases fails with
    | other running => exact running exited
    | torn walking =>
        rw [exited] at walking
        contradiction
  cases applied : c.db.apply op with
  | error e =>
      have failed : c.step tokens (.other op) = .error (.fault e) := by
        simp only [step, if_neg exited, applied]
        rfl
      rw [failed]
      constructor
      · intro same
        obtain rfl := Halt.fault.inj (Except.error.inj same)
        exact .other exited applied
      · intro fails
        cases fails with
        | other _ applied' => rw [Except.error.inj (applied.symm.trans applied')]
        | torn _ applied' => simp [applied] at applied'
  | ok db =>
      have result : c.step tokens (.other op) =
          if c.torn db then .error (.fault .dataRace) else .ok { c with db } := by
        simp only [step, if_neg exited, applied]
        rfl
      constructor
      · intro failed
        rw [result] at failed
        split at failed
        · rename_i torn
          obtain rfl := Halt.fault.inj (Except.error.inj failed)
          obtain ⟨q, rest, walking, changed⟩ := torn_iff.mp torn
          exact .torn walking applied changed
        · contradiction
      · intro fails
        cases fails with
        | other _ applied' => simp [applied] at applied'
        | torn walking applied' changed =>
            obtain rfl := Except.ok.inj (applied.symm.trans applied')
            rw [result, if_pos (torn_iff.mpr ⟨_, _, walking, changed⟩)]

theorem Fails.of_call {f : Fault} {function : CLI.Function} (valid : c.db.Valid)
    (reading : c.stage = .reading) (parsed : CLI.parse tokens text = some (name, arg))
    (chosen : CLI.named name = some function) (failed : c.call arg size inTime function = .error f) :
    Fails tokens c (.line text size inTime) f := by
  cases function with
  | add =>
      cases size with
      | ok size => simp [call, CLI.add] at failed
      | error e => cases e <;> simp [call] at failed
  | revoke =>
      cases done : CLI.revoke c.db c.client arg with
      | ok result => simp [call, done, bind, Except.bind, pure, Except.pure] at failed
      | error e =>
          simp only [call, done, bind, Except.bind, Except.error.injEq] at failed
          obtain ⟨made, r, found, fails⟩ := (revoke_fails valid).mp (failed ▸ done)
          exact .revoke reading parsed chosen made found fails
  | download =>
      cases done : CLI.download c.db arg inTime with
      | ok result => simp [call, done, bind, Except.bind, pure, Except.pure] at failed
      | error e =>
          simp only [call, done, bind, Except.bind, Except.error.injEq] at failed
          obtain ⟨rfl, rfl, r, found, current⟩ := download_fails.mp (failed ▸ done)
          exact .download reading parsed chosen found current
  | global | help | quit => simp [call] at failed

end Console

end SimpleP2P
