import SimpleP2P.Download.Steps

namespace SimpleP2P
open Library

namespace CompleteResource

variable {c c' : CompleteResource}

def Counted (c : CompleteResource) : Prop :=
  c.completedCounter.toNat = c.completedSegments.count true

def AllSet (c : CompleteResource) : Prop :=
  ∀ id < c.resource.calcSegmentsCount.toNat, c.completedSegments[id]? = some true

theorem counted_ofResource (r : Resource) : (ofResource r).Counted := by
  simp [Counted, ofResource, Vector.count_replicate]

theorem count_eq_iff_allSet :
    c.completedSegments.count true = c.resource.calcSegmentsCount.toNat ↔ c.AllSet := by
  rw [Vector.count_eq_size]
  constructor
  · intro all id inside
    rw [Vector.getElem?_eq_getElem inside, ← all _ (Vector.getElem_mem inside)]
  · intro all b member
    obtain ⟨id, inside, rfl⟩ := Vector.getElem_of_mem member
    have here := all id inside
    rw [Vector.getElem?_eq_getElem inside] at here
    exact (Option.some.inj here).symm

theorem Counted.isCompleted_iff (h : c.Counted) : c.isCompleted = true ↔ c.AllSet := by
  rw [← count_eq_iff_allSet, ← h, UInt16.toNat_inj, isCompleted, beq_iff_eq]

theorem Counted.le (h : c.Counted) : c.completedCounter ≤ c.resource.calcSegmentsCount := by
  rw [UInt16.le_iff_toNat_le, h]
  exact Vector.count_le_size

theorem Counted.setSegment (h : c.Counted) {id : SegmentId}
    (first : c.completedSegments[id.toNat]? ≠ some true) (ok : c.setSegment id = .ok c') :
    c'.Counted := by
  obtain ⟨inside, rfl⟩ := setSegment_ok.mp ok
  have unset : c.completedSegments[id.toNat] = false := by
    rw [Vector.getElem?_eq_getElem inside] at first
    simpa using first
  have grown : (c.completedSegments.set id.toNat true inside).count true =
      c.completedSegments.count true + 1 := by
    rw [Vector.count_set inside, unset]
    simp
  -- one more bit is set, and there is a bit for each value the counter takes
  have bound : (c.completedSegments.set id.toNat true inside).count true ≤ _ := Vector.count_le_size
  have small := c.resource.calcSegmentsCount.toNat_lt
  have counted : c.completedCounter.toNat = c.completedSegments.count true := h
  unfold Counted
  simp only [UInt16.toNat_add, UInt16.reduceToNat, grown]
  omega

theorem Counted.unsetBusy (h : c.Counted) {id : SegmentId} (ok : c.unsetBusy id = .ok c') :
    c'.Counted := by
  obtain ⟨inside, rfl⟩ := unsetBusy_ok.mp ok
  exact h

theorem Counted.takeSegment (h : c.Counted) {segment : Segment}
    (taken : c.takeSegment = some (segment, c')) : c'.Counted := by
  obtain ⟨id, -, -, -, -, rfl⟩ := takeSegment_some taken
  exact h

theorem AllSet.setSegment (h : c.AllSet) {id : SegmentId} (ok : c.setSegment id = .ok c') :
    c'.AllSet := by
  obtain ⟨inside, rfl⟩ := setSegment_ok.mp ok
  intro j below
  simp only [Vector.getElem?_set]
  split
  · rfl
  · exact h j below

theorem AllSet.unsetBusy (h : c.AllSet) {id : SegmentId} (ok : c.unsetBusy id = .ok c') :
    c'.AllSet := by
  obtain ⟨inside, rfl⟩ := unsetBusy_ok.mp ok
  exact h

theorem AllSet.takeSegment (h : c.AllSet) {segment : Segment}
    (taken : c.takeSegment = some (segment, c')) : c'.AllSet := by
  obtain ⟨id, -, -, -, -, rfl⟩ := takeSegment_some taken
  exact h

end CompleteResource

def DownloadWorker.completing? (w : DownloadWorker) : Option Segment :=
  match w.pc with
  | .completing segment => some segment
  | _ => none

namespace Download

variable {d d' : Download}

structure CountsSegments (d : Download) : Prop where
  counter : d.complete.Counted
  completed : d.complete.isCompleted = true ↔ d.complete.AllSet
  bounded : d.complete.completedCounter ≤ d.complete.resource.calcSegmentsCount
  stored : d.controller = .storing → d.complete.AllSet

def CompletesOnce (d : Download) : Event → Prop
  | .worker i _ => ∀ w ∈ d.workers[i]?, ∀ segment ∈ w.completing?,
      d.complete.completedSegments[segment.id.toNat]? ≠ some true
  | _ => True

instance (d : Download) : (e : Event) → Decidable (d.CompletesOnce e)
  | .worker i _ => inferInstanceAs (Decidable (∀ w ∈ d.workers[i]?, ∀ segment ∈ w.completing?,
      d.complete.completedSegments[segment.id.toNat]? ≠ some true))
  | .wake _ => .isTrue trivial
  | .close _ => .isTrue trivial
  | .controller _ => .isTrue trivial

theorem CountsSegments.of_counted (counted : d.complete.Counted)
    (stored : d.controller = .storing → d.complete.AllSet) : d.CountsSegments :=
  ⟨counted, counted.isCompleted_iff, counted.le, stored⟩

theorem advance_storing {choice : Choice} (h : d.advance choice = .ok .storing) :
    d.complete.isCompleted = true := by
  unfold advance at h
  split at h
  · simpa using h
  all_goals try split at h
  all_goals try split at h
  all_goals simp at h

theorem CountsSegments.step (h : d.CountsSegments) {e : Event} (once : d.CompletesOnce e)
    (ok : d.step e = .ok d') : d'.CountsSegments := by
  cases step_move ok with
  | advance there moved => exact .of_counted h.counter h.stored
  | take there pc taken =>
      exact .of_counted (h.counter.takeSegment taken) fun storing => (h.stored storing).takeSegment taken
  | park there pc missing => exact .of_counted h.counter h.stored
  | @complete _ _ w segment _ there pc set =>
      have set' := setSegment_complete set
      have first := once w there segment (by simp [DownloadWorker.completing?, pc])
      refine .of_counted (h.counter.setSegment first set') fun storing => ?_
      exact (h.stored ((setSegment_controller set).symm.trans storing)).setSegment set'
  | fail there pc unset =>
      have unset' := unsetBusy_complete unset
      refine .of_counted (h.counter.unsetBusy unset') fun storing => ?_
      exact (h.stored ((unsetBusy_controller unset).symm.trans storing)).unsetBusy unset'
  | wake there parked => exact .of_counted h.counter h.stored
  | close there => exact .of_counted h.counter h.stored
  | control moved =>
      refine .of_counted h.counter fun storing => ?_
      obtain rfl : _ = ControllerPc.storing := storing
      exact h.completed.mp (advance_storing moved)
  | increase pc there => exact .of_counted h.counter nofun
  | release pc unset =>
      have counter := h.counter.unsetBusy (unsetBusy_complete unset)
      exact .of_counted counter nofun
  | mark pc there => exact .of_counted h.counter nofun

theorem reach_countsSegments {resource : Resource} {possessors : List HostPtr}
    {delays : HostPtr → HostDelays} (h : Reach step CompletesOnce (start resource possessors delays) d) :
    d.CountsSegments :=
  h.invariant (.of_counted (CompleteResource.counted_ofResource resource) nofun)
    fun _ _ _ counts once ok => counts.step once ok

theorem storing_countsSegments : ∃ d : Download, d.controller = .storing ∧ d.CountsSegments := by
  obtain ⟨d, run, storing⟩ := exists_reach_of_exec step CompletesOnce
    (start { size := 1500, name := [97] } [0, 1] fun _ => { banTime := 0 })
    (List.replicate 10 (.worker 0 {}) ++ List.replicate 10 (.worker 1 {}) ++ [.controller {}])
    (fun d => d.controller = .storing) (by decide)
  exact ⟨d, of_decide_eq_true storing, reach_countsSegments run⟩

/-- A segment is released because of a timeout, handed out again, and set by both workers: the file
is stored without the other one. -/
theorem countsSegments_fails : ¬∀ (resource : Resource) (possessors : List HostPtr)
    (delays : HostPtr → HostDelays) (d : Download),
    Reach step Anything (start resource possessors delays) d → d.CountsSegments := by
  intro claim
  let slow : Event := .worker 0 {}
  let other : Event := .worker 1 {}
  let service : Event := .controller {}
  obtain ⟨d, run, missing⟩ := exists_reach_of_exec step Anything
    (start { size := 2048, name := [97] } [0, 1] fun _ => { banTime := 0 })
    (List.replicate 6 slow ++ List.replicate 14 service ++ List.replicate 10 other ++
      List.replicate 4 slow ++ List.replicate 4 service)
    (fun d => d.controller = .storing ∧ 1 < d.complete.resource.calcSegmentsCount.toNat ∧
      d.complete.completedSegments[1]? ≠ some true) (by decide)
  obtain ⟨storing, inside, unset⟩ := of_decide_eq_true missing
  exact unset ((claim _ _ _ d run).stored storing 1 inside)

end Download

end SimpleP2P
