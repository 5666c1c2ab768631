import SimpleP2P.Download.Steps

namespace SimpleP2P
open Library

def failureText : List Char := "Failed to download segment: ".toList

theorem failureText_length : failureText.length = failureTextLength := by
  decide

/-- The string that a pointer `id` characters into the text points to. -/
def failureTextFrom (id : SegmentId) : Except Fault (List Char) :=
  if id.toNat ≤ failureText.length then .ok (failureText.drop id.toNat) else .error .outOfBounds

structure Downloaded where
  worker : DownloadWorker
  complete : CompleteResource
  thrown : Bool
  log : List Char

namespace DownloadWorker

def own (w : DownloadWorker) (segment : Segment) : DownloadWorker :=
  { w with ownedSegmentId := segment.id }

/-- `requested` and `received` are whether `request_segment` and `receive_segment` return. -/
def download (w : DownloadWorker) (c : CompleteResource) (segment : Segment)
    (requested received : Bool) : Except Fault Downloaded :=
  if requested && received then do
    let complete ← c.setSegment segment.id
    return { worker := { w with timeouted := false }, complete, thrown := false, log := [] }
  else do
    let log ← failureTextFrom segment.id
    let complete ← c.unsetBusy w.ownedSegmentId
    return { worker := w, complete, thrown := true, log }

def FailsCleanly (w : DownloadWorker) (c : CompleteResource) (segment : Segment)
    (requested received : Bool) : Prop :=
  ∃ r busy, w.download c segment requested received = .ok r ∧ r.thrown = true ∧
    r.complete = { c with busySegments := busy } ∧ busy[segment.id.toNat]? = some false ∧
    ∀ j, j ≠ segment.id.toNat → busy[j]? = c.busySegments[j]?

variable {w : DownloadWorker} {c c₀ c₁ : CompleteResource} {segment : Segment}
  {requested received : Bool}

theorem failureTextFrom_ok {id : SegmentId} {text : List Char} :
    failureTextFrom id = .ok text ↔
      id.toNat ≤ failureText.length ∧ text = failureText.drop id.toNat := by
  unfold failureTextFrom
  split
  · rename_i inside
    simp [inside, eq_comm]
  · rename_i outside
    simp [outside]

theorem download_failed {r : Downloaded} (failed : (requested && received) = false) :
    w.download c segment requested received = .ok r ↔
      segment.id.toNat ≤ failureText.length ∧
      ∃ complete, c.unsetBusy w.ownedSegmentId = .ok complete ∧
        r = { worker := w, complete, thrown := true, log := failureText.drop segment.id.toNat } := by
  simp only [download, failed, Bool.false_eq_true, if_false, bind_eq_ok, failureTextFrom_ok]
  constructor
  · rintro ⟨text, ⟨inside, rfl⟩, complete, unset, eq⟩
    exact ⟨inside, complete, unset, (Except.ok.inj eq).symm⟩
  · rintro ⟨inside, complete, unset, rfl⟩
    exact ⟨_, ⟨inside, rfl⟩, complete, unset, rfl⟩

theorem taken_inside (taken : c₀.takeSegment = some (segment, c₁)) :
    segment.id.toNat < c₀.resource.calcSegmentsCount.toNat := by
  obtain ⟨id, inside, -, -, rfl, -⟩ := CompleteResource.takeSegment_some taken
  simpa [CompleteResource.takeSegment_id_toNat inside] using inside

/-- `c` is what the other workers have made of the resource since the segment was handed out. -/
theorem failsCleanly_iff (taken : c₀.takeSegment = some (segment, c₁))
    (same : c.resource = c₀.resource) (failed : (requested && received) = false)
    (w : DownloadWorker) :
    (w.own segment).FailsCleanly c segment requested received ↔
      segment.id.toNat ≤ failureText.length := by
  have inside : segment.id.toNat < c.resource.calcSegmentsCount.toNat :=
    same ▸ taken_inside taken
  constructor
  · rintro ⟨r, busy, ended, -⟩
    exact ((download_failed failed).mp ended).1
  · intro early
    have unset : c.unsetBusy segment.id =
        .ok { c with busySegments := c.busySegments.set segment.id.toNat false inside } :=
      CompleteResource.unsetBusy_ok.mpr ⟨inside, rfl⟩
    refine ⟨_, _, (download_failed failed).mpr ⟨early, _, unset, rfl⟩, rfl, rfl, ?_, ?_⟩
    · simp
    · intro j other
      rw [Vector.getElem?_set_ne _ (Ne.symm other)]

theorem first_failsCleanly : (own { host := 2 } ⟨0, some 0⟩).FailsCleanly
    (.ofResource { size := 2048, name := [97] }) ⟨0, some 0⟩ true false := by
  have taken : ∃ c, (CompleteResource.ofResource { size := 2048, name := [97] }).takeSegment =
      some (⟨0, some 0⟩, c) := ⟨_, rfl⟩
  obtain ⟨c, taken⟩ := taken
  exact (failsCleanly_iff taken rfl rfl _).mpr (by decide)

def thirtySegments : CompleteResource :=
  let resource : Resource := { size := 30 * 1024, name := [97] }
  { CompleteResource.ofResource resource with
    completedSegments := Vector.ofFn fun i => decide (i.val < 29)
    completedCounter := 29 }

theorem failsCleanly_fails : ¬∀ (w : DownloadWorker) (c₀ c₁ c : CompleteResource) (segment : Segment)
    (requested received : Bool), c₀.takeSegment = some (segment, c₁) → c.resource = c₀.resource →
      (requested && received) = false →
      (w.own segment).FailsCleanly c segment requested received := by
  intro claim
  have taken : ∃ c, thirtySegments.takeSegment = some (⟨29, some 29696⟩, c) := ⟨_, rfl⟩
  obtain ⟨c, taken⟩ := taken
  obtain ⟨r, -, ended, -⟩ := claim { host := 2 } _ _ thirtySegments _ false false taken rfl rfl
  exact absurd ((download_failed rfl).mp ended).1 (by decide)

end DownloadWorker

namespace Download

variable {d d₁ d₂ : Download} {i : Nat} {w : DownloadWorker} {segment : Segment}

/-- The handler as two steps of a running download. -/
theorem step_download {first second : Choice} (there : d.workers[i]? = some w)
    (failing : w.pc = .failing segment) (logged : d.step (.worker i first) = .ok d₁)
    (released : d₁.step (.worker i second) = .ok d₂) :
    ∃ r, w.download d.complete segment false false = .ok r ∧ d₂.complete = r.complete := by
  obtain ⟨inside, -⟩ := List.getElem?_eq_some_iff.mp there
  simp only [step, there, workerStep, failing] at logged
  obtain ⟨w', advanced, eq⟩ := bind_eq_ok.mp logged
  obtain rfl := Except.ok.inj eq
  simp only [DownloadWorker.advance, failing] at advanced
  split at advanced
  · rename_i early
    obtain rfl := Except.ok.inj advanced
    simp only [step, update_workers, List.getElem?_set_self inside, workerStep] at released
    obtain ⟨next, unset, eq⟩ := bind_eq_ok.mp released
    obtain rfl := Except.ok.inj eq
    have released := unsetBusy_complete unset
    rw [update_complete] at released
    exact ⟨_, (DownloadWorker.download_failed rfl).mpr ⟨failureText_length ▸ early, _, released, rfl⟩,
      rfl⟩
  · contradiction

end Download

end SimpleP2P
