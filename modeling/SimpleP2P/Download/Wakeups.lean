import SimpleP2P.Download.Steps
import SimpleP2P.Library.Threads
import Mathlib.Data.Finset.Card

namespace SimpleP2P
open Library

namespace CompleteResource

variable {c c' : CompleteResource}

def downloadableIds (c : CompleteResource) : Finset Nat :=
  (Finset.range c.resource.calcSegmentsCount.toNat).filter (c.downloadable · = true)

theorem downloadable_iff {id : Nat} : c.downloadable id = true ↔
    c.busySegments[id]? = some false ∧ c.completedSegments[id]? = some false := by
  simp [downloadable]

theorem mem_downloadableIds {id : Nat} : id ∈ c.downloadableIds ↔ c.downloadable id = true := by
  rw [downloadableIds, Finset.mem_filter, Finset.mem_range, and_iff_right_iff_imp, downloadable_iff]
  rintro ⟨free, -⟩
  exact (Vector.getElem?_eq_some_iff.mp free).1

theorem downloadableIds_takeSegment {segment : Segment} (h : c.takeSegment = some (segment, c')) :
    c'.downloadableIds.card + 1 = c.downloadableIds.card := by
  obtain ⟨id, inside, here, -, -, rfl⟩ := takeSegment_some h
  have taken : downloadableIds { c with busySegments := c.busySegments.setIfInBounds id true } =
      c.downloadableIds.erase id := by
    ext j
    rw [Finset.mem_erase, mem_downloadableIds, mem_downloadableIds, downloadable_iff,
      downloadable_iff, Vector.getElem?_setIfInBounds]
    by_cases same : id = j
    · simp [same]
    · simp [same, Ne.symm same]
  rw [taken, Finset.card_erase_add_one (mem_downloadableIds.mpr here)]

theorem downloadableIds_takeSegment_none (h : c.takeSegment = none) : c.downloadableIds = ∅ := by
  rw [downloadableIds, Finset.filter_eq_empty_iff]
  intro id inside
  simpa using takeSegment_none.mp h id (Finset.mem_range.mp inside)

theorem downloadableIds_setSegment {id : SegmentId} (h : c.setSegment id = .ok c') :
    c'.downloadableIds.card ≤ c.downloadableIds.card := by
  obtain ⟨inside, rfl⟩ := setSegment_ok.mp h
  refine Finset.card_le_card fun j member => ?_
  rw [mem_downloadableIds, downloadable_iff, Vector.getElem?_set, Vector.getElem?_set] at member
  rw [mem_downloadableIds, downloadable_iff]
  by_cases same : id.toNat = j
  · simp [same] at member
  · simpa [same] using member

theorem downloadableIds_unsetBusy {id : SegmentId} (h : c.unsetBusy id = .ok c') :
    c'.downloadableIds.card ≤ c.downloadableIds.card + 1 := by
  obtain ⟨inside, rfl⟩ := unsetBusy_ok.mp h
  refine (Finset.card_le_card fun j member => ?_).trans (Finset.card_insert_le id.toNat _)
  rw [mem_downloadableIds, downloadable_iff, Vector.getElem?_set] at member
  rw [Finset.mem_insert, mem_downloadableIds, downloadable_iff]
  by_cases same : id.toNat = j
  · exact .inl same.symm
  · exact .inr (by simpa [same] using member)

end CompleteResource

def DownloadWorker.notified (w : DownloadWorker) : Bool :=
  match w.pc with
  | .completionTest true | .scan true => true
  | _ => false

def DownloadWorker.searching (w : DownloadWorker) : Bool :=
  match w.pc with
  | .scan _ => true
  | _ => false

namespace Download

variable {d d' next : Download}

/-- A worker waits and nothing will wake it, although it has something to do: the resource is
completed, or the worker is closed, or a segment is downloadable and no notification is pending. -/
def Stuck (d : Download) : Prop :=
  ∃ w ∈ d.workers, w.pc = .parked ∧ (d.complete.isCompleted = true ∨ w.closed = true ∨
    (∃ id, d.complete.downloadable id = true) ∧ ∀ v ∈ d.workers, v.notified = false)

def WaitsInTime (d : Download) : Event → Prop
  | .worker i _ => ∀ w ∈ d.workers[i]?, w.searching = true → d.complete.takeSegment.isNone = true →
      d.complete.isCompleted = false ∧ w.closed = false
  | .close i => ∀ w ∈ d.workers[i]?, w.pc ≠ .parked
  | _ => True

instance (d : Download) : (e : Event) → Decidable (d.WaitsInTime e)
  | .worker i _ => inferInstanceAs (Decidable (∀ w ∈ d.workers[i]?, w.searching = true →
      d.complete.takeSegment.isNone = true → d.complete.isCompleted = false ∧ w.closed = false))
  | .close i => inferInstanceAs (Decidable (∀ w ∈ d.workers[i]?, w.pc ≠ .parked))
  | .wake _ => .isTrue trivial
  | .controller _ => .isTrue trivial

structure Awake (d : Download) : Prop where
  completed : d.complete.isCompleted = true → ∀ w ∈ d.workers, w.pc ≠ .parked
  closed : ∀ w ∈ d.workers, w.pc = .parked → w.closed = false
  carried : (∃ w ∈ d.workers, w.pc = .parked) →
    d.complete.downloadableIds.card ≤ d.workers.countP (·.notified)

theorem Awake.not_stuck (h : d.Awake) : ¬d.Stuck := by
  rintro ⟨w, member, parked, completed | closed | ⟨⟨id, here⟩, nobody⟩⟩
  · exact h.completed completed w member parked
  · simp [h.closed w member parked] at closed
  · have some : 0 < d.complete.downloadableIds.card :=
      Finset.card_pos.mpr ⟨id, CompleteResource.mem_downloadableIds.mpr here⟩
    have carried := h.carried ⟨w, member, parked⟩
    obtain ⟨v, other, notified⟩ := List.countP_pos_iff.mp (some.trans_le carried)
    simp [nobody v other] at notified

theorem advance_parked {w w' : DownloadWorker} {completed : Bool} {delays : HostDelays}
    {choice : Choice} (h : w.advance completed delays choice = .ok w') : w'.pc ≠ .parked := by
  intro parked
  unfold DownloadWorker.advance at h
  split at h
  all_goals try split at h
  all_goals first
    | contradiction
    | obtain rfl := Except.ok.inj h
      revert parked
      dsimp only
      try split
      all_goals simp

theorem advance_notified {w w' : DownloadWorker} {delays : HostDelays} {choice : Choice}
    (h : w.advance false delays choice = .ok w') (notified : w.notified = true) :
    w'.notified = true := by
  unfold DownloadWorker.notified at notified
  split at notified
  · rename_i pc
    simp only [DownloadWorker.advance, pc] at h
    exact Except.ok.inj h ▸ rfl
  · rename_i pc
    simp [DownloadWorker.advance, pc] at h
  · contradiction

theorem Awake.update (h : d.Awake) {i : Nat} {w w' : DownloadWorker} (there : d.workers[i]? = some w)
    (quiet : w'.pc = .parked → w.pc = .parked ∧ w'.closed = w.closed)
    (kept : d.complete.isCompleted = false → w.notified = true → w'.notified = true) :
    (d.update i w').Awake where
  completed complete := Threads.forall_step (h.completed complete) fun parked =>
    h.completed complete w (List.mem_of_getElem? there) (quiet parked).1
  closed := Threads.forall_step h.closed fun parked =>
    (quiet parked).2.trans (h.closed w (List.mem_of_getElem? there) (quiet parked).1)
  carried waiting := by
    have before := Threads.exists_step (fun v : DownloadWorker => v.pc = .parked) there
      (fun parked => (quiet parked).1) waiting
    have unfinished : d.complete.isCompleted = false := by
      by_contra complete
      obtain ⟨v, member, parked⟩ := before
      exact h.completed (by simpa using complete) v member parked
    have counted := Threads.countP_step (·.notified) w' there
    have carried := h.carried before
    have kept' := kept unfinished
    simp only [update_complete, update_workers]
    by_cases notified : w.notified = true
    · simp only [notified, kept' notified, if_true] at counted
      omega
    · simp only [notified, Bool.false_eq_true, if_false] at counted
      omega

theorem notifyAll_not_parked (d : Download) : ∀ w ∈ d.notifyAll.workers, w.pc ≠ .parked := by
  intro w member
  obtain ⟨v, -, rfl⟩ := List.mem_map.mp member
  by_cases parked : v.pc = .parked
  · simp [parked]
  · simp [parked]

theorem Awake.setSegment (h : d.Awake) {id : SegmentId} (ok : d.setSegment id = .ok next) :
    next.Awake := by
  obtain ⟨complete, set, rfl⟩ := setSegment_ok ok
  have fewer := CompleteResource.downloadableIds_setSegment set
  split
  · -- the last segment: nobody is left waiting
    have nobody := notifyAll_not_parked { d with complete }
    exact ⟨fun _ => nobody, fun w member parked => absurd parked (nobody w member),
      fun ⟨w, member, parked⟩ => absurd parked (nobody w member)⟩
  · rename_i unfinished
    exact ⟨fun complete => absurd complete unfinished, h.closed,
      fun waiting => fewer.trans (h.carried waiting)⟩

theorem Awake.unsetBusy (h : d.Awake) {id : SegmentId} {chosen : Nat}
    (ok : d.unsetBusy id chosen = .ok next) : next.Awake := by
  obtain ⟨complete, unset, notified⟩ := unsetBusy_ok ok
  have more := CompleteResource.downloadableIds_unsetBusy unset
  have same : complete.isCompleted = d.complete.isCompleted := by
    obtain ⟨inside, rfl⟩ := CompleteResource.unsetBusy_ok.mp unset
    rfl
  rcases notifyOne_ok notified with ⟨rfl, nobody⟩ | ⟨w, there, parked, rfl⟩
  · exact ⟨fun _ => nobody, fun w member parked => absurd parked (nobody w member),
      fun ⟨w, member, parked⟩ => absurd parked (nobody w member)⟩
  · -- the notification goes with the segment
    refine ⟨fun complete => ?_, ?_, fun waiting => ?_⟩
    · exact Threads.forall_step (h.completed (same ▸ complete)) (by simp)
    · exact Threads.forall_step h.closed (by simp)
    · have before := Threads.exists_step (fun v : DownloadWorker => v.pc = .parked) there
        (fun _ => parked) waiting
      have counted := Threads.countP_step (·.notified) { w with pc := .completionTest true } there
      have carried := h.carried before
      have before' : w.notified = false := by simp [DownloadWorker.notified, parked]
      have after : { w with pc := .completionTest true }.notified = true := rfl
      simp only [before', after, Bool.false_eq_true, if_false, if_true] at counted
      simp only [update_complete, update_workers]
      omega

theorem notified_of_pc {w : DownloadWorker} {segment : Segment}
    (pc : w.pc = .completing segment ∨ w.pc = .releasing segment) : w.notified = false := by
  rcases pc with pc | pc <;> simp [DownloadWorker.notified, pc]

theorem Awake.take (h : d.Awake) {i : Nat} {w : DownloadWorker} {segment : Segment}
    {complete : CompleteResource} (there : d.workers[i]? = some w)
    (taken : d.complete.takeSegment = some (segment, complete)) :
    ({ d with complete }.update i { w with pc := .returned segment }).Awake := by
  have fewer := CompleteResource.downloadableIds_takeSegment taken
  have same : complete.isCompleted = d.complete.isCompleted := by
    obtain ⟨id, -, -, -, -, rfl⟩ := CompleteResource.takeSegment_some taken
    rfl
  refine ⟨fun completed => ?_, ?_, fun waiting => ?_⟩
  · exact Threads.forall_step (h.completed (same ▸ completed)) (by simp)
  · exact Threads.forall_step h.closed (by simp)
  · have before := Threads.exists_step (fun v : DownloadWorker => v.pc = .parked) there (by simp) waiting
    have counted := Threads.countP_step (·.notified) { w with pc := .returned segment } there
    have carried := h.carried before
    simp only [update_complete, update_workers]
    split at counted <;> omega

theorem Awake.park (h : d.Awake) {i : Nat} {w : DownloadWorker}
    (inTime : d.complete.isCompleted = false ∧ w.closed = false)
    (missing : d.complete.takeSegment = none) : (d.update i { w with pc := .parked }).Awake := by
  refine ⟨fun completed => ?_, ?_, fun _ => ?_⟩
  · simp [inTime.1] at completed
  · exact Threads.forall_step h.closed fun _ => inTime.2
  · simp [CompleteResource.downloadableIds_takeSegment_none missing]

theorem Awake.step (h : d.Awake) {e : Event} (inTime : d.WaitsInTime e) (ok : d.step e = .ok d') :
    d'.Awake := by
  cases step_move ok with
  | advance there moved =>
      refine h.update there (fun parked => absurd parked (advance_parked moved)) fun unfinished notified => ?_
      exact advance_notified (unfinished ▸ moved) notified
  | take there pc taken => exact h.take there taken
  | @park i choice w notified there pc missing =>
      exact h.park (inTime w there (by simp [DownloadWorker.searching, pc]) (by simp [missing])) missing
  | complete there pc set =>
      have there' := setSegment_getElem? set there (by simp [pc])
      refine (h.setSegment set).update there' (by simp) fun _ notified => ?_
      simp [notified_of_pc (.inl pc)] at notified
  | fail there pc unset =>
      have there' := unsetBusy_getElem? unset there (by simp [pc])
      refine (h.unsetBusy unset).update there' (by simp) fun _ notified => ?_
      simp [notified_of_pc (.inr pc)] at notified
  | wake there parked =>
      refine h.update there (by simp) fun _ notified => ?_
      simp [DownloadWorker.notified, parked] at notified
  | @close i w there =>
      exact h.update there (fun parked => absurd parked (inTime w there)) fun _ notified => notified
  | control moved => exact ⟨h.completed, h.closed, h.carried⟩
  | increase pc there => exact ⟨h.completed, h.closed, h.carried⟩
  | release pc unset =>
      have woken := h.unsetBusy unset
      exact ⟨woken.completed, woken.closed, woken.carried⟩
  | @mark i _ w pc there =>
      have marked : (d.update i { w with timeouted := true }).Awake :=
        h.update there (fun parked => ⟨parked, rfl⟩) fun _ notified => notified
      exact ⟨marked.completed, marked.closed, marked.carried⟩

theorem reach_not_stuck {resource : Resource} {possessors : List HostPtr}
    {delays : HostPtr → HostDelays} (h : Reach step WaitsInTime (start resource possessors delays) d) :
    ¬d.Stuck := by
  have awake : (start resource possessors delays).Awake := by
    have nobody : ∀ w ∈ (start resource possessors delays).workers, w.pc ≠ .parked := by
      intro w member
      obtain ⟨host, -, rfl⟩ := List.mem_map.mp member
      simp
    exact ⟨fun _ => nobody, fun w member parked => absurd parked (nobody w member),
      fun ⟨w, member, parked⟩ => absurd parked (nobody w member)⟩
  exact (h.invariant awake fun _ _ _ awake inTime ok => awake.step inTime ok).not_stuck

theorem parked_not_stuck : ∃ d : Download, (∃ w ∈ d.workers, w.pc = .parked) ∧ ¬d.Stuck := by
  obtain ⟨d, run, parked⟩ := exists_reach_of_exec step WaitsInTime
    (start { size := 1024, name := [97] } [0, 1] fun _ => { banTime := 0 })
    (List.replicate 5 (.worker 0 {}) ++ List.replicate 5 (.worker 1 {}))
    (fun d => d.workers.any (·.pc = .parked)) (by decide)
  exact ⟨d, by simpa using parked, reach_not_stuck run⟩

/-- The last segment arrives after one worker's test of completion and before its wait. -/
theorem not_stuck_fails : ¬∀ (resource : Resource) (possessors : List HostPtr)
    (delays : HostPtr → HostDelays) (d : Download),
    Reach step Anything (start resource possessors delays) d → ¬d.Stuck := by
  intro claim
  obtain ⟨d, run, stuck⟩ := exists_reach_of_exec step Anything
    (start { size := 1024, name := [97] } [0, 1] fun _ => { banTime := 0 })
    (List.replicate 9 (.worker 0 {}) ++ List.replicate 4 (.worker 1 {}) ++
      [.worker 0 {}, .worker 1 {}])
    (fun d => d.complete.isCompleted && d.workers.any (·.pc = .parked)) (by decide)
  obtain ⟨completed, w, member, parked⟩ : d.complete.isCompleted = true ∧
      ∃ w ∈ d.workers, w.pc = .parked := by simpa using stuck
  exact claim _ _ _ d run ⟨w, member, parked, .inl completed⟩

end Download

end SimpleP2P
