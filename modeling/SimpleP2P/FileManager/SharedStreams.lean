import SimpleP2P.FileManager.Streams

namespace SimpleP2P
open Library

namespace IfStream

def placed (s : IfStream) (position : Nat) : IfStream := { content := s.content, position }

variable {s : IfStream} {segment : SegmentId} {result : Buffer segmentSize} {requested : Nat}
  {fits : requested ≤ segmentSize}

theorem seekg_of_eof (s : IfStream) (position : Nat) :
    s.seekg position = { s with eofbit := false }.seekg position := by
  simp [seekg]

theorem getSegment_of_eof :
    s.getSegment segment result requested fits =
      { s with eofbit := false }.getSegment segment result requested fits := by
  rw [getSegment, seekg_of_eof]
  rfl

theorem seekg_tellg_failed (failed : s.failbit = true) (position : Nat) :
    (s.seekg position).tellg = ({ s with eofbit := false, failbit := true }, none) := by
  simp [seekg, tellg, failed]

theorem seekg_tellg (sound : s.failbit = false) (position : Nat) :
    (s.seekg position).tellg = (s.placed position, some position) := by
  simp [seekg, tellg, placed, sound]

theorem getSegment_bytes (result : Buffer segmentSize) (fits : requested ≤ segmentSize)
    (sound : s.failbit = false) (inside : segment.toNat * segmentSize + requested ≤ s.content.length) :
    (s.getSegment segment result requested fits).1 = true ∧
      (s.getSegment segment result requested fits).2.2.bytes =
        padded segmentSize ((s.content.drop (segment.toNat * segmentSize)).take requested) := by
  rw [getSegment_of_eof]
  exact getSegment_of_good ⟨rfl, sound⟩ inside

theorem getSegment_content :
    (s.getSegment segment result requested fits).2.1.content = s.content := by
  have content := s.seek_content (segment.toNat * segmentSize)
  cases told : (s.seekg (segment.toNat * segmentSize)).tellg with
  | mk moved position =>
      rw [told] at content
      simp only [getSegment, told]
      split
      · exact content
      · split <;> exact (read_content _ _).trans content

theorem placed_read_failbit (s : IfStream) (position requested : Nat) :
    ((s.placed position).read requested).1.failbit =
      !decide (requested ≤ s.content.length - position) := by
  have short : min requested (s.content.length - position) < requested ↔
      ¬requested ≤ s.content.length - position := by omega
  simp only [read, placed, Bool.or_self, Bool.false_eq_true, if_false, List.length_take,
    List.length_drop, short, decide_not]

theorem read_whole {count : Nat} (h : (s.read count).1.failbit = false) :
    (s.read count).2.length = count := by
  have most := s.read_length count
  unfold read at h
  split at h
  · contradiction
  · rename_i ready
    have least := of_decide_eq_false h
    simp only [read, if_neg ready] at most ⊢
    omega

theorem getSegment_failbit :
    (s.getSegment segment result requested fits).2.1.failbit = !s.serves segment requested := by
  cases failed : s.failbit with
  | true => simp [getSegment, seekg_tellg_failed failed, serves, failed]
  | false =>
      have read := s.placed_read_failbit (segment.toNat * segmentSize) requested
      simp only [getSegment, seekg_tellg failed, ne_eq, not_true, if_false, serves, failed,
        Bool.not_false, Bool.true_and]
      split <;> exact read

end IfStream

structure SegmentCall where
  segment : SegmentId
  requested : Nat
  fits : requested ≤ segmentSize
  result : Buffer segmentSize

namespace SegmentCall

def fresh (segment : SegmentId) (requested : Nat) (fits : requested ≤ segmentSize) : SegmentCall :=
  { segment, requested, fits, result := .zeros _ }

def Inside (c : SegmentCall) (content : Bytes) : Prop :=
  c.segment.toNat * segmentSize + c.requested ≤ content.length

instance (c : SegmentCall) (content : Bytes) : Decidable (c.Inside content) :=
  inferInstanceAs (Decidable (_ ≤ _))

def Satisfiable (c : SegmentCall) (content : Bytes) : Prop :=
  c.requested ≤ content.length - c.segment.toNat * segmentSize

instance (c : SegmentCall) (content : Bytes) : Decidable (c.Satisfiable content) :=
  inferInstanceAs (Decidable (_ ≤ _))

end SegmentCall

namespace FileManager

def streamOf (m : FileManager) (fileName : FileName) : Option IfStream :=
  (m.rlockedFiles.find? (·.fileName = fileName)).map (·.stream)

def readSegments (m : FileManager) (fileName : FileName) (calls : List SegmentCall) :
    Except Fault FileManager :=
  calls.foldlM (fun m c =>
    (m.getSegment fileName c.segment c.result c.requested).map fun (_, m, _) => m) m

def AnswersRightly (m : FileManager) (fileName : FileName) (content : Bytes) (c : SegmentCall) :
    Prop :=
  ∃ m' result', m.getSegment fileName c.segment c.result c.requested = .ok (true, m', result') ∧
    result'.bytes =
      padded segmentSize ((content.drop (c.segment.toNat * segmentSize)).take c.requested)

variable {m : FileManager} {fileName : FileName} {content : Bytes} {s : IfStream}

theorem streamOf_eq_none : m.streamOf fileName = none ↔ fileName ∉ m.readNames := by
  simp [streamOf, readNames]

theorem streamOf_register (closed : fileName ∉ m.readNames) :
    (m.register fileName (some content)).2.streamOf fileName = some { content } := by
  have missing := Option.map_eq_none_iff.mp (streamOf_eq_none.mpr closed)
  rw [register, if_neg closed, streamOf, List.find?_append, missing, Option.none_or,
    List.find?_cons_of_pos (by simp), Option.map_some]

theorem getSegmentFrom_of_closed (segment : SegmentId) (result : Buffer segmentSize)
    {requested : Nat} (fits : requested ≤ segmentSize) {files : List OpenFile}
    (closed : fileName ∉ files.map (·.fileName)) :
    getSegmentFrom fileName segment result requested fits files = .error .expiredPointer := by
  induction files with
  | nil => rfl
  | cons f rest ih =>
      obtain ⟨other, later⟩ := not_or.mp (List.mem_cons.not.mp closed)
      rw [getSegmentFrom, if_neg (Ne.symm other), ih later]
      rfl

theorem getSegmentFrom_of_find (segment : SegmentId) (result : Buffer segmentSize) {requested : Nat}
    (fits : requested ≤ segmentSize) {files : List OpenFile} {f : OpenFile}
    (found : files.find? (·.fileName = fileName) = some f) : ∃ files',
    getSegmentFrom fileName segment result requested fits files =
      .ok ((f.stream.getSegment segment result requested fits).1, files',
        (f.stream.getSegment segment result requested fits).2.2) ∧
    files'.find? (·.fileName = fileName) =
      some { f with stream := (f.stream.getSegment segment result requested fits).2.1 } := by
  induction files with
  | nil => simp at found
  | cons g rest ih =>
      rw [getSegmentFrom]
      by_cases same : g.fileName = fileName
      · rw [List.find?_cons_of_pos (by simpa using same)] at found
        obtain rfl := Option.some.inj found
        rw [if_pos same]
        exact ⟨_, rfl, List.find?_cons_of_pos (by simpa using same)⟩
      · rw [List.find?_cons_of_neg (by simpa using same)] at found
        obtain ⟨files', ran, later⟩ := ih found
        rw [if_neg same, ran]
        exact ⟨g :: files', rfl, by rwa [List.find?_cons_of_neg (by simpa using same)]⟩

theorem getSegment_streamOf (there : m.streamOf fileName = some s) (segment : SegmentId)
    (result : Buffer segmentSize) {requested : Nat} (fits : requested ≤ segmentSize) : ∃ m',
    m.getSegment fileName segment result requested =
      .ok ((s.getSegment segment result requested fits).1, m',
        (s.getSegment segment result requested fits).2.2) ∧
    m'.streamOf fileName = some (s.getSegment segment result requested fits).2.1 := by
  obtain ⟨f, found, rfl⟩ := Option.map_eq_some_iff.mp there
  obtain ⟨files', ran, later⟩ := getSegmentFrom_of_find segment result fits found
  refine ⟨{ m with rlockedFiles := files' }, ?_, ?_⟩
  · rw [getSegment, dif_pos fits, ran]
    rfl
  · rw [streamOf, later, Option.map_some]

theorem readSegments_streamOf (there : m.streamOf fileName = some s) (before : List SegmentCall) :
    ∃ m' s', m.readSegments fileName before = .ok m' ∧ m'.streamOf fileName = some s' ∧
      s'.content = s.content ∧
      (s'.failbit = false ↔ s.failbit = false ∧ ∀ b ∈ before, b.Satisfiable s.content) := by
  induction before generalizing m s with
  | nil => exact ⟨m, s, rfl, there, rfl, by simp⟩
  | cons b rest ih =>
      obtain ⟨next, first, stream⟩ := getSegment_streamOf there b.segment b.result b.fits
      obtain ⟨m', s', later, stream', content, failbit⟩ := ih stream
      refine ⟨m', s', ?_, stream', content.trans IfStream.getSegment_content, ?_⟩
      · rw [readSegments, List.foldlM_cons, first]
        exact later
      · rw [failbit, IfStream.getSegment_failbit, IfStream.getSegment_content, List.forall_mem_cons]
        simp [IfStream.serves, SegmentCall.Satisfiable, and_assoc]

theorem answersRightly_iff (there : m.streamOf fileName = some s) {c : SegmentCall}
    (inside : c.Inside s.content) :
    m.AnswersRightly fileName s.content c ↔ s.failbit = false := by
  obtain ⟨m', ran, -⟩ := getSegment_streamOf there c.segment c.result c.fits
  constructor
  · rintro ⟨m'', result', answered, -⟩
    rw [ran] at answered
    obtain ⟨succeeded, -⟩ := Prod.mk.inj (Except.ok.inj answered)
    rw [IfStream.getSegment_fst] at succeeded
    simpa using (Bool.and_eq_true_iff.mp succeeded).1
  · intro sound
    obtain ⟨succeeded, bytes⟩ := IfStream.getSegment_bytes c.result c.fits sound inside
    exact ⟨m', _, by rw [ran, succeeded], bytes⟩

theorem readSegments_answersRightly_iff (m : FileManager) (fileName : FileName) (content : Bytes)
    (before : List SegmentCall) (c : SegmentCall) (closed : fileName ∉ m.readNames)
    (inside : c.Inside content) : ∃ m',
    (m.register fileName (some content)).2.readSegments fileName before = .ok m' ∧
      (m'.AnswersRightly fileName content c ↔ ∀ b ∈ before, b.Satisfiable content) := by
  have opened : (m.register fileName (some content)).2.streamOf fileName = some { content } :=
    streamOf_register closed
  obtain ⟨m', s, ran, stream, rfl, failbit⟩ := readSegments_streamOf opened before
  exact ⟨m', ran, by rw [answersRightly_iff stream inside, failbit, and_iff_right rfl]⟩

theorem again_answersRightly : ∃ m',
    (({} : FileManager).register [97] (some [1, 2, 3])).2.readSegments [97]
        [.fresh 0 3 (by decide)] = .ok m' ∧
      m'.AnswersRightly [97] [1, 2, 3] (.fresh 0 2 (by decide)) := by
  obtain ⟨m', ran, iff⟩ := readSegments_answersRightly_iff {} [97] [1, 2, 3]
    [.fresh 0 3 (by decide)] (.fresh 0 2 (by decide)) (by decide) (by decide)
  exact ⟨m', ran, iff.mpr (by decide)⟩

/-- A request behind the end of a file of three bytes spoils the file for every later one. -/
theorem answersRightly_fails : ¬∀ (m : FileManager) (fileName : FileName) (content : Bytes)
    (before : List SegmentCall) (c : SegmentCall), fileName ∉ m.readNames → c.Inside content →
    ∃ m', (m.register fileName (some content)).2.readSegments fileName before = .ok m' ∧
      m'.AnswersRightly fileName content c := by
  intro claim
  obtain ⟨m', ran, m'', result', answered, -⟩ := claim {} [97] [1, 2, 3]
    [.fresh 1 1024 (by decide)] (.fresh 0 3 (by decide)) (by decide) (by decide)
  have refused : ((({} : FileManager).register [97] (some [1, 2, 3])).2.readSegments [97]
      [.fresh 1 1024 (by decide)] >>= fun m => (m.getSegment [97] 0 (.zeros _) 3).map Prod.fst) = .ok false := by
    decide +kernel
  obtain ⟨m₁, ran₁, refused⟩ := bind_eq_ok.mp refused
  obtain rfl : m' = m₁ := Except.ok.inj (ran.symm.trans ran₁)
  obtain ⟨answer, called, no⟩ := map_eq_ok.mp refused
  obtain rfl := Except.ok.inj (answered.symm.trans called)
  contradiction

end FileManager

end SimpleP2P
