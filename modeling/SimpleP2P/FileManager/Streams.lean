import SimpleP2P.FileManager.Exclusion
import SimpleP2P.Library.Blocks

namespace SimpleP2P
open Library

namespace IfStream

/-- `seekg` clears `eofbit` first and does not move a stream that has failed. -/
def seekg (s : IfStream) (position : Nat) : IfStream :=
  if s.failbit then { s with eofbit := false } else { s with eofbit := false, position }

/-- `none` is the position -1 of a stream that has failed. -/
def tellg (s : IfStream) : IfStream × Option Nat :=
  if s.eofbit || s.failbit then ({ s with failbit := true }, none) else (s, some s.position)

def read (s : IfStream) (count : Nat) : IfStream × Bytes :=
  if s.eofbit || s.failbit then ({ s with failbit := true }, [])
  else
    let bytes := (s.content.drop s.position).take count
    let short := decide (bytes.length < count)
    ({ s with position := s.position + bytes.length, eofbit := short, failbit := short }, bytes)

theorem read_length (s : IfStream) (count : Nat) : (s.read count).2.length ≤ count := by
  unfold read
  split
  · exact Nat.zero_le _
  · exact List.length_take_le _ _

def getSegment (s : IfStream) (segment : SegmentId) (result : Buffer segmentSize) (requested : Nat)
    (fits : requested ≤ segmentSize) : Bool × IfStream × Buffer segmentSize :=
  let start := segment.toNat * segmentSize
  let (s, position) := (s.seekg start).tellg
  if position ≠ some start then (false, s, result)
  else
    let result := result.receive (s.read requested).2 (Nat.le_trans (s.read_length requested) fits)
    let s := (s.read requested).1
    if s.failbit && !(s.eofbit && !s.failbit) then (false, s, result)
    else (true, s, if requested < segmentSize then result.clearFrom requested else result)

def serves (s : IfStream) (segment : SegmentId) (requested : Nat) : Bool :=
  !s.failbit && requested ≤ s.content.length - segment.toNat * segmentSize

structure Good (s : IfStream) : Prop where
  eofbit : s.eofbit = false
  failbit : s.failbit = false

variable {s : IfStream} {segment : SegmentId} {result : Buffer segmentSize} {requested : Nat}
  {fits : requested ≤ segmentSize}

theorem read_of_good (good : s.Good) {count : Nat} (inside : s.position + count ≤ s.content.length) :
    s.read count = ({ s with position := s.position + count },
      (s.content.drop s.position).take count) := by
  have length : ((s.content.drop s.position).take count).length = count := by
    rw [List.length_take, List.length_drop]
    omega
  simp [read, good.eofbit, good.failbit, length]

theorem getSegment_of_good (good : s.Good)
    (inside : segment.toNat * segmentSize + requested ≤ s.content.length) :
    (s.getSegment segment result requested fits).1 = true ∧
      (s.getSegment segment result requested fits).2.2.bytes =
        padded segmentSize ((s.content.drop (segment.toNat * segmentSize)).take requested) := by
  have told : (s.seekg (segment.toNat * segmentSize)).tellg =
      ({ s with position := segment.toNat * segmentSize }, some (segment.toNat * segmentSize)) := by
    simp [seekg, tellg, good.eofbit, good.failbit]
  have taken := read_of_good (s := { s with position := segment.toNat * segmentSize })
    ⟨good.eofbit, good.failbit⟩ inside
  have length : ((s.content.drop (segment.toNat * segmentSize)).take requested).length =
      requested := by
    rw [List.length_take, List.length_drop]
    omega
  have filled := result.receive_padded length (Nat.le_trans (Nat.le_of_eq length) fits)
  have succeeds : ¬(s.failbit && !(s.eofbit && !s.failbit)) = true := by simp [good.failbit]
  simp only [getSegment, told, taken, ne_eq, not_true, if_false, if_neg succeeds]
  exact ⟨trivial, filled⟩

theorem seek_content (s : IfStream) (position : Nat) :
    (s.seekg position).tellg.1.content = s.content := by
  unfold seekg
  split <;> (unfold tellg; split <;> rfl)

theorem read_content (s : IfStream) (count : Nat) : (s.read count).1.content = s.content := by
  unfold read
  split <;> rfl

theorem good_of_read {count : Nat} (h : (s.read count).1.failbit = false) :
    (s.read count).1.Good := by
  unfold read at h ⊢
  split at h
  · contradiction
  · rename_i ready
    rw [if_neg ready]
    exact ⟨h, h⟩

theorem getSegment_true {s' : IfStream} {result' : Buffer segmentSize}
    (h : s.getSegment segment result requested fits = (true, s', result')) :
    s'.Good ∧ s'.content = s.content := by
  have content := s.seek_content (segment.toNat * segmentSize)
  cases told : (s.seekg (segment.toNat * segmentSize)).tellg with
  | mk moved position =>
      rw [told] at content
      simp only [getSegment, told] at h
      split at h
      · simp at h
      · split at h
        · simp at h
        · rename_i succeeded
          simp only [Prod.mk.injEq, true_and] at h
          obtain ⟨rfl, -⟩ := h
          refine ⟨good_of_read ?_, (read_content _ _).trans content⟩
          cases failbit : (moved.read requested).1.failbit with
          | true => simp [failbit] at succeeded
          | false => rfl

theorem getSegment_fst :
    (s.getSegment segment result requested fits).1 = s.serves segment requested := by
  cases failbit : s.failbit with
  | true =>
      have told : (s.seekg (segment.toNat * segmentSize)).tellg =
          ({ s with eofbit := false, failbit := true }, none) := by
        simp [seekg, tellg, failbit]
      simp [getSegment, told, serves, failbit]
  | false =>
      have told : (s.seekg (segment.toNat * segmentSize)).tellg =
          ({ s with eofbit := false, position := segment.toNat * segmentSize },
            some (segment.toNat * segmentSize)) := by
        simp [seekg, tellg, failbit]
      have short : min requested (s.content.length - segment.toNat * segmentSize) < requested ↔
          ¬requested ≤ s.content.length - segment.toNat * segmentSize := by omega
      simp only [getSegment, told, ne_eq, not_true, if_false]
      by_cases enough : requested ≤ s.content.length - segment.toNat * segmentSize <;>
        simp [read, serves, failbit, short, enough]

end IfStream

namespace FileManager

/-- The loop of `get_segment`, and what it does with the first file of the name. -/
def getSegmentFrom (fileName : FileName) (segment : SegmentId) (result : Buffer segmentSize)
    (requested : Nat) (fits : requested ≤ segmentSize) :
    List OpenFile → Except Fault (Bool × List OpenFile × Buffer segmentSize)
  -- `file_ptr` is used without having been set.
  | [] => .error .expiredPointer
  | f :: rest =>
      if f.fileName = fileName then
        -- The stream is open: `read_unlock` alone closes one, and removes its entry.
        let (ok, stream, result) := f.stream.getSegment segment result requested fits
        .ok (ok, { f with stream } :: rest, result)
      else (getSegmentFrom fileName segment result requested fits rest).map
        fun (ok, files, result) => (ok, f :: files, result)

def getSegment (m : FileManager) (fileName : FileName) (segment : SegmentId)
    (result : Buffer segmentSize) (requested : Nat) :
    Except Fault (Bool × FileManager × Buffer segmentSize) :=
  -- `result` is not null: a worker without a buffer does not start.
  if fits : requested ≤ segmentSize then
    (getSegmentFrom fileName segment result requested fits m.rlockedFiles).map
      fun (ok, files, result) => (ok, { m with rlockedFiles := files }, result)
  else .ok (false, m, result)

def readable (m : FileManager) (fileName : FileName) (segment : SegmentId) (requested : Nat) : Bool :=
  requested ≤ segmentSize &&
    (m.rlockedFiles.find? (·.fileName = fileName)).any (·.stream.serves segment requested)

inductive Call
  | readLock (fileName : FileName) (disk : Option Bytes)
  | getSegment (fileName : FileName) (segment : SegmentId) (requested : Nat)
      (result : Buffer segmentSize)
  | readUnlock (fileName : FileName)

/-- A reader's call, where no writer makes `read_lock` wait. -/
def Call.run (m : FileManager) : Call → Except Fault (Bool × FileManager)
  | .readLock fileName disk => .ok (m.register fileName disk)
  | .getSegment fileName segment requested result =>
      (m.getSegment fileName segment result requested).map fun (ok, m, _) => (ok, m)
  | .readUnlock fileName => (m.readUnlock fileName).map fun m => (true, m)

def call (m : FileManager) (c : Call) : Except Fault FileManager := (c.run m).map Prod.snd

def ReadsWell (fileName : FileName) (content : Bytes) (m : FileManager) : Call → Prop
  | .readLock f disk => f = fileName → ∀ c ∈ disk, c = content
  | .getSegment f segment requested result => f = fileName →
      ∀ m', (Call.getSegment f segment requested result).run m ≠ .ok (false, m')
  | .readUnlock _ => True

variable {m m' : FileManager} {fileName : FileName} {content : Bytes} {segment : SegmentId}
  {result result' : Buffer segmentSize} {requested : Nat} {fits : requested ≤ segmentSize} {ok : Bool}

theorem getSegmentFrom_ok {files files' : List OpenFile}
    (h : getSegmentFrom fileName segment result requested fits files = .ok (ok, files', result')) :
    ∃ before f after stream', files = before ++ f :: after ∧ f.fileName = fileName ∧
      files.find? (·.fileName = fileName) = some f ∧
      f.stream.getSegment segment result requested fits = (ok, stream', result') ∧
      files' = before ++ { f with stream := stream' } :: after := by
  fun_induction getSegmentFrom fileName segment result requested fits files generalizing files' with
  | case1 => contradiction
  | case2 f rest same ok stream read found =>
      simp only [Except.ok.injEq, Prod.mk.injEq] at h
      obtain ⟨rfl, rfl, rfl⟩ := h
      have first : (f :: rest).find? (·.fileName = fileName) = some f :=
        List.find?_cons_of_pos (by simpa using same)
      exact ⟨[], f, rest, stream, rfl, same, first, found, rfl⟩
  | case3 f rest other ih =>
      obtain ⟨⟨ok', files, read⟩, found, eq⟩ := map_eq_ok.mp h
      simp only [Prod.mk.injEq] at eq
      obtain ⟨rfl, rfl, rfl⟩ := eq
      obtain ⟨before, g, after, stream, rfl, same, first, read, rfl⟩ := ih found
      refine ⟨f :: before, g, after, stream, rfl, same, ?_, read, rfl⟩
      exact (List.find?_cons_of_neg (by simpa using other)).trans first

theorem getSegment_ok (h : m.getSegment fileName segment result requested = .ok (ok, m', result')) :
    m' = m ∧ ok = false ∧ ¬requested ≤ segmentSize ∨
    ∃ fits before f after stream', m.rlockedFiles = before ++ f :: after ∧ f.fileName = fileName ∧
      m.rlockedFiles.find? (·.fileName = fileName) = some f ∧
      f.stream.getSegment segment result requested fits = (ok, stream', result') ∧
      m' = { m with rlockedFiles := before ++ { f with stream := stream' } :: after } := by
  unfold getSegment at h
  split at h
  · rename_i fits
    obtain ⟨⟨ok', files, read⟩, found, eq⟩ := map_eq_ok.mp h
    simp only [Prod.mk.injEq] at eq
    obtain ⟨rfl, rfl, rfl⟩ := eq
    obtain ⟨before, f, after, stream', parts, same, first, read, rfl⟩ := getSegmentFrom_ok found
    exact .inr ⟨fits, before, f, after, stream', parts, same, first, read, rfl⟩
  · rename_i large
    simp only [Except.ok.injEq, Prod.mk.injEq] at h
    exact .inl ⟨h.2.1.symm, h.1.symm, large⟩

theorem getSegment_fst
    (h : m.getSegment fileName segment result requested = .ok (ok, m', result')) :
    ok = m.readable fileName segment requested := by
  rcases getSegment_ok h with
    ⟨-, rfl, large⟩ | ⟨fits, before, f, after, stream', -, -, first, read, -⟩
  · simp [readable, large]
  · have served : (f.stream.getSegment segment result requested fits).1 = ok := by rw [read]
    simp [readable, fits, first, ← served, IfStream.getSegment_fst]

theorem getSegment_readNames
    (h : m.getSegment fileName segment result requested = .ok (ok, m', result')) :
    m'.readNames = m.readNames := by
  rcases getSegment_ok h with ⟨rfl, -⟩ | ⟨fits, before, f, after, stream', parts, -, -, -, rfl⟩
  · rfl
  · simp [readNames, parts]

theorem getSegmentFrom_of_mem (segment : SegmentId) (result : Buffer segmentSize)
    (fits : requested ≤ segmentSize) {files : List OpenFile} {f : OpenFile} (member : f ∈ files)
    (named : f.fileName = fileName) : ∃ ok files' result',
    getSegmentFrom fileName segment result requested fits files = .ok (ok, files', result') := by
  induction files with
  | nil => simp at member
  | cons g rest ih =>
      rw [getSegmentFrom]
      split
      · exact ⟨_, _, _, rfl⟩
      · rename_i other
        rcases List.mem_cons.mp member with rfl | later
        · contradiction
        · obtain ⟨ok, files', result', found⟩ := ih later
          exact ⟨ok, g :: files', result', by rw [found]; rfl⟩

def Intact (fileName : FileName) (content : Bytes) (m : FileManager) : Prop :=
  ∀ f ∈ m.rlockedFiles, f.fileName = fileName → f.stream.Good ∧ f.stream.content = content

theorem Intact.register (h : m.Intact fileName content) {f : FileName} {disk : Option Bytes}
    (same : f = fileName → ∀ c ∈ disk, c = content) :
    (m.register f disk).2.Intact fileName content := by
  unfold FileManager.register
  split
  · exact h
  · split
    · exact h
    · rename_i read
      intro g member named
      rcases List.mem_append.mp member with old | new
      · exact h g old named
      · obtain rfl := List.mem_singleton.mp new
        exact ⟨⟨rfl, rfl⟩, same named read rfl⟩

theorem Intact.call (h : m.Intact fileName content) {c : Call}
    (well : ReadsWell fileName content m c) (done : m.call c = .ok m') :
    m'.Intact fileName content := by
  cases c with
  | readLock f disk =>
      obtain rfl := Except.ok.inj done
      exact h.register well
  | getSegment f segment requested result =>
      obtain ⟨⟨ok, m''⟩, run, rfl⟩ := map_eq_ok.mp done
      obtain ⟨⟨ok', m₁, read⟩, found, eq⟩ := map_eq_ok.mp run
      simp only [Prod.mk.injEq] at eq
      obtain ⟨rfl, rfl⟩ := eq
      rcases getSegment_ok found with
        ⟨rfl, -⟩ | ⟨fits, before, own, after, stream', parts, same, -, moved, rfl⟩
      · exact h
      · intro g member named
        rw [Intact, parts] at h
        rcases List.mem_append.mp member with earlier | later
        · exact h g (List.mem_append_left _ earlier) named
        · rcases List.mem_cons.mp later with rfl | later
          · obtain ⟨-, content⟩ := h own (by simp) named
            cases ok' with
            | false => exact absurd run (well (same.symm.trans named) _)
            | true =>
                obtain ⟨good, kept⟩ := IfStream.getSegment_true moved
                exact ⟨good, kept.trans content⟩
          · exact h g (List.mem_append_right _ (List.mem_cons_of_mem _ later)) named
  | readUnlock f =>
      obtain ⟨⟨_, m''⟩, run, rfl⟩ := map_eq_ok.mp done
      obtain ⟨m'', unlocked, eq⟩ := map_eq_ok.mp run
      obtain ⟨files, erased, rfl⟩ := map_eq_ok.mp unlocked
      cases eq
      intro g member named
      exact h g (mem_eraseFrom erased member) named

theorem reach_intact (h : Reach call (ReadsWell fileName content) {} m) :
    m.Intact fileName content :=
  h.invariant (by simp [Intact]) fun _ _ _ intact well done => intact.call well done

theorem register_mem (m : FileManager) (fileName : FileName) (content : Bytes) :
    fileName ∈ (m.register fileName (some content)).2.readNames := by
  unfold register
  split
  · assumption
  · simp [readNames]

theorem Intact.getSegment (h : m.Intact fileName content) (locked : fileName ∈ m.readNames)
    (fits : requested ≤ segmentSize)
    (inside : segment.toNat * segmentSize + requested ≤ content.length) :
    ∃ m' result', m.getSegment fileName segment result requested = .ok (true, m', result') ∧
      result'.bytes =
        padded segmentSize ((content.drop (segment.toNat * segmentSize)).take requested) := by
  obtain ⟨f, member, named⟩ := List.mem_map.mp locked
  obtain ⟨ok, files, result', found⟩ := getSegmentFrom_of_mem segment result fits member named
  obtain ⟨before, own, after, stream', parts, same, -, read, -⟩ := getSegmentFrom_ok found
  obtain ⟨good, kept⟩ := h own (by simp [parts]) same
  subst kept
  obtain ⟨succeeded, bytes⟩ := IfStream.getSegment_of_good good inside
  rw [read] at succeeded bytes
  obtain rfl : ok = true := succeeded
  refine ⟨{ m with rlockedFiles := files }, result', ?_, bytes⟩
  rw [FileManager.getSegment, dif_pos fits, found]
  rfl

end FileManager

end SimpleP2P
