import SimpleP2P.Download.CompleteResource
import SimpleP2P.Library.Transition
import SimpleP2P.Library.Threads
import Mathlib.Data.Set.Lattice
import Mathlib.Order.CompletePartialOrder

namespace SimpleP2P
open Library

namespace CompleteResource

def Busy (c : CompleteResource) (id : SegmentId) : Prop := c.busySegments[id.toNat]? = some true

def Done (c : CompleteResource) (id : SegmentId) : Prop := c.completedSegments[id.toNat]? = some true

structure First (c : CompleteResource) (segment : Segment) : Prop where
  inside : segment.id < c.resource.calcSegmentsCount
  free : ¬c.Busy segment.id ∧ ¬c.Done segment.id
  smaller : ∀ id < segment.id, c.Busy id ∨ c.Done id
  data : segment.data = some (segment.id.toNat * segmentSize)
  fits : segment.id.toNat * segmentSize + segmentSize ≤ c.dataSize

variable {c c' : CompleteResource} {id : SegmentId}

theorem downloadable_iff_not (inside : id < c.resource.calcSegmentsCount) :
    c.downloadable id.toNat = true ↔ ¬c.Busy id ∧ ¬c.Done id := by
  have bound := UInt16.lt_iff_toNat_lt.mp inside
  simp [downloadable, Busy, Done, bound]

theorem takeSegment_first {segment : Segment} (h : c.takeSegment = some (segment, c')) :
    c.First segment := by
  obtain ⟨id, inside, here, first, rfl, -⟩ := takeSegment_some h
  have number := takeSegment_id_toNat inside
  have below : UInt16.ofNat id < c.resource.calcSegmentsCount := by
    rwa [UInt16.lt_iff_toNat_lt, number]
  refine ⟨below, (downloadable_iff_not below).mp (number.symm ▸ here), fun j smaller => ?_, by rw [number], ?_⟩
  · have smaller := UInt16.lt_iff_toNat_lt.mp smaller
    rw [number] at smaller
    have taken : ¬(¬c.Busy j ∧ ¬c.Done j) := by
      rw [← downloadable_iff_not (UInt16.lt_iff_toNat_lt.mpr (smaller.trans inside)), first j.toNat smaller]
      simp
    tauto
  · rw [number, dataSize]
    simp only [segmentSize]
    omega

theorem takeSegment_busy {segment : Segment} (h : c.takeSegment = some (segment, c')) :
    c'.resource = c.resource ∧ (∀ j, c'.Busy j ↔ c.Busy j ∨ j = segment.id) ∧
      ∀ j, c'.Done j ↔ c.Done j := by
  obtain ⟨id, inside, -, -, rfl, rfl⟩ := takeSegment_some h
  refine ⟨rfl, fun j => ?_, fun _ => Iff.rfl⟩
  have same : j = UInt16.ofNat id ↔ id = j.toNat := by
    rw [← UInt16.toNat_inj, takeSegment_id_toNat inside, eq_comm]
  simp only [Busy, Vector.getElem?_setIfInBounds, same]
  split <;> simp_all

theorem setSegment_done (h : c.setSegment id = .ok c') : c'.resource = c.resource ∧
    (∀ j, c'.Busy j ↔ c.Busy j ∧ j ≠ id) ∧ ∀ j, c'.Done j ↔ c.Done j ∨ j = id := by
  obtain ⟨inside, rfl⟩ := setSegment_ok.mp h
  refine ⟨rfl, fun j => ?_, fun j => ?_⟩
  · simp only [Busy, Vector.getElem?_set, UInt16.toNat_inj]
    split <;> simp_all [eq_comm]
  · simp only [Done, Vector.getElem?_set, UInt16.toNat_inj]
    split <;> simp_all [eq_comm]

theorem unsetBusy_busy (h : c.unsetBusy id = .ok c') : c'.resource = c.resource ∧
    (∀ j, c'.Busy j ↔ c.Busy j ∧ j ≠ id) ∧ ∀ j, c'.Done j ↔ c.Done j := by
  obtain ⟨inside, rfl⟩ := unsetBusy_ok.mp h
  refine ⟨rfl, fun j => ?_, fun _ => Iff.rfl⟩
  simp only [Busy, Vector.getElem?_set, UInt16.toNat_inj]
  split <;> simp_all [eq_comm]

end CompleteResource

inductive GetSegmentPc
  | idle
  | completionTest
  | scan
  | waiting
  deriving DecidableEq, Repr

inductive Happened
  | handedOut (thread : Nat) (segment : Segment)
  | completed (id : SegmentId)
  | released (id : SegmentId)
  deriving DecidableEq, Repr

def Happened.segment? : Happened → Option Segment
  | .handedOut _ segment => some segment
  | _ => none

structure Assignment where
  complete : CompleteResource
  threads : Nat → GetSegmentPc := fun _ => .idle
  history : List Happened := []

namespace Assignment

inductive Event
  | getSegment (thread : Nat)
  /-- The next critical section of a call, or the end of its wait, for whatever reason. -/
  | advance (thread : Nat)
  | setSegment (segment : Segment)
  | unsetBusy (id : SegmentId)
  deriving DecidableEq, Repr

def move (s : Assignment) (thread : Nat) (pc : GetSegmentPc) : Assignment :=
  { s with threads := fun t => if t = thread then pc else s.threads t }

def note (s : Assignment) (what : Happened) : Assignment :=
  { s with history := s.history ++ [what] }

/-- `get_segment` calls itself again after the wait. -/
def advance (s : Assignment) (thread : Nat) : Except Halt Assignment :=
  match s.threads thread with
  | .idle => .error .blocked
  | .completionTest => .ok (s.move thread (if s.complete.isCompleted then .idle else .scan))
  | .scan =>
      match s.complete.takeSegment with
      | some (segment, complete) =>
          .ok (({ s with complete }.note (.handedOut thread segment)).move thread .idle)
      | none => .ok (s.move thread .waiting)
  | .waiting => .ok (s.move thread .completionTest)

def step (s : Assignment) : Event → Except Halt Assignment
  | .getSegment thread =>
      if s.threads thread = .idle then .ok (s.move thread .completionTest) else .error .blocked
  | .advance thread => s.advance thread
  | .setSegment segment => do
      let complete ← (s.complete.setSegment segment.id).mapError .fault
      return { s with complete }.note (.completed segment.id)
  | .unsetBusy id => do
      let complete ← (s.complete.unsetBusy id).mapError .fault
      return { s with complete }.note (.released id)

def start (resource : Resource) : Assignment where
  complete := .ofResource resource

def ByContract (s : Assignment) : Event → Prop
  | .setSegment segment => segment ∈ s.history.filterMap Happened.segment?
  | .unsetBusy id => id < s.complete.resource.calcSegmentsCount
  | _ => True

instance (s : Assignment) : (e : Event) → Decidable (s.ByContract e)
  | .setSegment segment =>
      inferInstanceAs (Decidable (segment ∈ s.history.filterMap Happened.segment?))
  | .unsetBusy id => inferInstanceAs (Decidable (id < s.complete.resource.calcSegmentsCount))
  | .getSegment _ | .advance _ => .isTrue trivial

def slice (segment : Segment) : Set Nat :=
  { i | ∃ offset, segment.data = some offset ∧ offset ≤ i ∧ i < offset + segmentSize }

structure AssignedOnce (s : Assignment) : Prop where
  unfinished : ∀ before after thread segment,
    s.history = before ++ .handedOut thread segment :: after → .completed segment.id ∉ before
  released : ∀ before between after thread thread' segment segment',
    s.history = before ++ .handedOut thread segment :: (between ++ .handedOut thread' segment' :: after) →
    segment.id = segment'.id → .released segment.id ∈ between
  kept : ∀ e s', s.step e = .ok s' → ∀ id, s.complete.Done id → s'.complete.Done id
  first : ∀ e s' thread segment, s.step e = .ok s' →
    s'.history = s.history ++ [.handedOut thread segment] → s.complete.First segment
  inside : ∀ thread segment, .handedOut thread segment ∈ s.history →
    slice segment ⊆ { i | i < s.complete.dataSize }
  disjoint : ∀ thread thread' segment segment', .handedOut thread segment ∈ s.history →
    .handedOut thread' segment' ∈ s.history → segment.id ≠ segment'.id →
    Disjoint (slice segment) (slice segment')

variable {s s' : Assignment}

inductive Effect (s s' : Assignment) : Event → Prop
  | quiet {e : Event} : s'.complete = s.complete → s'.history = s.history → Effect s s' e
  | handOut {thread : Nat} {segment : Segment} :
      s.complete.takeSegment = some (segment, s'.complete) →
      s'.history = s.history ++ [.handedOut thread segment] → Effect s s' (.advance thread)
  | complete {segment : Segment} : s.complete.setSegment segment.id = .ok s'.complete →
      s'.history = s.history ++ [.completed segment.id] → Effect s s' (.setSegment segment)
  | release {id : SegmentId} : s.complete.unsetBusy id = .ok s'.complete →
      s'.history = s.history ++ [.released id] → Effect s s' (.unsetBusy id)

theorem step_effect {e : Event} (ok : s.step e = .ok s') : Effect s s' e := by
  cases e with
  | getSegment thread =>
      simp only [step] at ok
      split at ok
      · exact Except.ok.inj ok ▸ .quiet rfl rfl
      · contradiction
  | advance thread =>
      simp only [step, advance] at ok
      split at ok
      · contradiction
      · exact Except.ok.inj ok ▸ .quiet rfl rfl
      · split at ok
        · rename_i segment complete taken
          exact Except.ok.inj ok ▸ .handOut taken rfl
        · exact Except.ok.inj ok ▸ .quiet rfl rfl
      · exact Except.ok.inj ok ▸ .quiet rfl rfl
  | setSegment segment =>
      obtain ⟨complete, set, ok⟩ := bind_eq_ok.mp ok
      exact Except.ok.inj ok ▸ .complete (mapError_ok.mp set) rfl
  | unsetBusy id =>
      obtain ⟨complete, unset, ok⟩ := bind_eq_ok.mp ok
      exact Except.ok.inj ok ▸ .release (mapError_ok.mp unset) rfl

theorem concat_split {history before after : List Happened} {new what : Happened}
    (h : history ++ [new] = before ++ what :: after) :
    (after = [] ∧ history = before ∧ new = what) ∨
      ∃ earlier, after = earlier ++ [new] ∧ history = before ++ what :: earlier := by
  rcases List.eq_nil_or_concat after with rfl | ⟨earlier, last, rfl⟩
  · obtain ⟨same, last⟩ := List.append_inj' h rfl
    exact Or.inl ⟨rfl, same, List.cons.inj last |>.1⟩
  · rw [List.concat_eq_append, ← List.cons_append, ← List.append_assoc] at h
    obtain ⟨same, last⟩ := List.append_inj' h rfl
    obtain ⟨rfl, -⟩ := List.cons.inj last
    exact Or.inr ⟨earlier, by simp, same⟩

structure Tracked (s : Assignment) : Prop where
  done : ∀ id, s.complete.Done id ↔ .completed id ∈ s.history
  held : ∀ before after thread segment, s.history = before ++ .handedOut thread segment :: after →
    .released segment.id ∈ after ∨ s.complete.Busy segment.id ∨ s.complete.Done segment.id
  unfinished : ∀ before after thread segment,
    s.history = before ++ .handedOut thread segment :: after → .completed segment.id ∉ before
  released : ∀ before between after thread thread' segment segment',
    s.history = before ++ .handedOut thread segment :: (between ++ .handedOut thread' segment' :: after) →
    segment.id = segment'.id → .released segment.id ∈ between
  slices : ∀ thread segment, .handedOut thread segment ∈ s.history →
    segment.id < s.complete.resource.calcSegmentsCount ∧
      segment.data = some (segment.id.toNat * segmentSize)

theorem Tracked.handOut (h : s.Tracked) {thread : Nat} {segment : Segment}
    (taken : s.complete.takeSegment = some (segment, s'.complete))
    (noted : s'.history = s.history ++ [.handedOut thread segment]) : s'.Tracked := by
  have first := CompleteResource.takeSegment_first taken
  obtain ⟨resource, busy, done⟩ := CompleteResource.takeSegment_busy taken
  refine ⟨fun id => ?_, fun before after t seg here => ?_, fun before after t seg here => ?_, ?_, ?_⟩
  · rw [done, noted, h.done]
    simp
  · rw [noted] at here
    rcases concat_split here with ⟨rfl, -, same⟩ | ⟨earlier, rfl, old⟩
    · obtain ⟨-, rfl⟩ := Happened.handedOut.inj same
      exact Or.inr (Or.inl ((busy _).mpr (Or.inr rfl)))
    · rcases h.held before earlier t seg old with gone | held | finished
      · exact Or.inl (List.mem_append_left _ gone)
      · exact Or.inr (Or.inl ((busy _).mpr (Or.inl held)))
      · exact Or.inr (Or.inr ((done _).mpr finished))
  · rw [noted] at here
    rcases concat_split here with ⟨-, rfl, same⟩ | ⟨earlier, -, old⟩
    · obtain ⟨-, rfl⟩ := Happened.handedOut.inj same
      rw [← h.done]
      exact first.free.2
    · exact h.unfinished before earlier t seg old
  · intro before between after t t' seg seg' here same
    rw [noted, ← List.cons_append, ← List.append_assoc] at here
    rcases concat_split here with ⟨-, old, last⟩ | ⟨earlier, -, old⟩
    · obtain ⟨-, rfl⟩ := Happened.handedOut.inj last
      -- the second one is new, so the segment is free and the first one was released
      rcases h.held before between t seg old with gone | held | finished
      · exact gone
      · exact absurd (same ▸ held) first.free.1
      · exact absurd (same ▸ finished) first.free.2
    · rw [List.append_assoc, List.cons_append] at old
      exact h.released before between earlier t t' seg seg' old same
  · intro t seg member
    rw [noted] at member
    rw [resource]
    rcases List.mem_append.mp member with old | new
    · exact h.slices t seg old
    · obtain ⟨-, rfl⟩ := Happened.handedOut.inj (List.mem_singleton.mp new)
      exact ⟨first.inside, first.data⟩

theorem Tracked.noted (h : s.Tracked) {what : Happened} (other : ∀ t seg, what ≠ .handedOut t seg)
    (noted : s'.history = s.history ++ [what])
    (resource : s'.complete.resource = s.complete.resource)
    (done : ∀ id, s'.complete.Done id ↔ s.complete.Done id ∨ what = .completed id)
    (busy : ∀ id, s.complete.Busy id →
      s'.complete.Busy id ∨ s'.complete.Done id ∨ what = .released id) : s'.Tracked := by
  have split : ∀ {before after t seg}, s'.history = before ++ .handedOut t seg :: after →
      ∃ earlier, after = earlier ++ [what] ∧ s.history = before ++ .handedOut t seg :: earlier := by
    intro before after t seg here
    rw [noted] at here
    rcases concat_split here with ⟨-, -, same⟩ | old
    · exact absurd same (other t seg)
    · exact old
  refine ⟨fun id => ?_, fun before after t seg here => ?_, fun before after t seg here => ?_, ?_, ?_⟩
  · rw [done, noted, h.done, List.mem_append, List.mem_singleton, eq_comm]
  · obtain ⟨earlier, rfl, old⟩ := split here
    rcases h.held before earlier t seg old with gone | held | finished
    · exact Or.inl (List.mem_append_left _ gone)
    · rcases busy _ held with held | finished | rfl
      · exact Or.inr (Or.inl held)
      · exact Or.inr (Or.inr finished)
      · exact Or.inl (by simp)
    · exact Or.inr (Or.inr ((done _).mpr (Or.inl finished)))
  · obtain ⟨earlier, -, old⟩ := split here
    exact h.unfinished before earlier t seg old
  · intro before between after t t' seg seg' here same
    rw [← List.cons_append, ← List.append_assoc] at here
    obtain ⟨earlier, -, old⟩ := split here
    rw [List.append_assoc, List.cons_append] at old
    exact h.released before between earlier t t' seg seg' old same
  · intro t seg member
    rw [noted] at member
    rw [resource]
    rcases List.mem_append.mp member with old | new
    · exact h.slices t seg old
    · exact absurd (List.mem_singleton.mp new).symm (other t seg)

theorem Tracked.step (h : s.Tracked) {e : Event} (ok : s.step e = .ok s') : s'.Tracked := by
  cases step_effect ok with
  | quiet complete history =>
      exact ⟨complete ▸ history ▸ h.done, complete ▸ history ▸ h.held, history ▸ h.unfinished,
        history ▸ h.released, complete ▸ history ▸ h.slices⟩
  | handOut taken noted => exact h.handOut taken noted
  | @complete segment set noted =>
      obtain ⟨resource, busy, done⟩ := CompleteResource.setSegment_done set
      refine h.noted (by simp) noted resource (by simp [done, eq_comm]) fun id held => ?_
      by_cases same : id = segment.id
      · exact Or.inr (Or.inl ((done id).mpr (Or.inr same)))
      · exact Or.inl ((busy id).mpr ⟨held, same⟩)
  | @release id unset noted =>
      obtain ⟨resource, busy, done⟩ := CompleteResource.unsetBusy_busy unset
      refine h.noted (by simp) noted resource (by simp [done]) fun j held => ?_
      by_cases same : j = id
      · exact Or.inr (Or.inr (same ▸ rfl))
      · exact Or.inl ((busy j).mpr ⟨held, same⟩)

theorem tracked_start (resource : Resource) : (start resource).Tracked := by
  refine ⟨fun id => ?_, ?_, ?_, ?_, ?_⟩
  · have clear : ¬(CompleteResource.ofResource resource).Done id := by
      have bit : (Vector.replicate resource.calcSegmentsCount.toNat false)[id.toNat]? ≠ some true := by
        rw [Vector.getElem?_replicate]
        split <;> simp
      exact bit
    simp [start, clear]
  all_goals simp [start]

/-! ## Slices -/

theorem mem_slice {segment : Segment} (data : segment.data = some (segment.id.toNat * segmentSize))
    {i : Nat} : i ∈ slice segment ↔ i / segmentSize = segment.id.toNat := by
  simp only [slice, data, Set.mem_ofPred_eq, Option.some.injEq, exists_eq_left', segmentSize]
  omega

theorem Tracked.assignedOnce (h : s.Tracked) : s.AssignedOnce := by
  refine ⟨h.unfinished, h.released, ?_, ?_, ?_, ?_⟩
  · intro e s' ok id done
    cases step_effect ok with
    | quiet complete history => exact complete ▸ done
    | handOut taken noted => exact ((CompleteResource.takeSegment_busy taken).2.2 id).mpr done
    | complete set noted => exact ((CompleteResource.setSegment_done set).2.2 id).mpr (Or.inl done)
    | release unset noted => exact ((CompleteResource.unsetBusy_busy unset).2.2 id).mpr done
  · intro e s' thread segment ok noted
    cases step_effect ok with
    | quiet complete history => simp [history] at noted
    | handOut taken noted' =>
        obtain ⟨-, rfl⟩ : _ ∧ _ = segment := by simpa [noted'] using noted
        exact CompleteResource.takeSegment_first taken
    | complete set noted' => simp [noted'] at noted
    | release unset noted' => simp [noted'] at noted
  · intro thread segment member i inside
    obtain ⟨bound, data⟩ := h.slices thread segment member
    have number := (mem_slice data).mp inside
    have below := UInt16.lt_iff_toNat_lt.mp bound
    simp only [Set.mem_ofPred_eq, CompleteResource.dataSize, segmentSize] at number ⊢
    omega
  · intro thread thread' segment segment' member member' apart
    have data := (h.slices thread segment member).2
    have data' := (h.slices thread' segment' member').2
    refine Set.disjoint_left.mpr fun i inside inside' => apart ?_
    exact UInt16.toNat_inj.mp (((mem_slice data).mp inside).symm.trans ((mem_slice data').mp inside'))

theorem reach_assignedOnce {resource : Resource} (h : Reach step ByContract (start resource) s) :
    s.AssignedOnce := by
  have tracked : s.Tracked :=
    h.invariant (tracked_start resource) fun _ _ _ tracked _ ok => tracked.step ok
  exact tracked.assignedOnce

/-- A segment is handed to one thread, released, handed to another one, and completed by both. -/
theorem reassigned_assignedOnce : ∃ s : Assignment, s.history =
    [.handedOut 0 ⟨0, some 0⟩, .released 0, .handedOut 1 ⟨0, some 0⟩, .completed 0, .completed 0] ∧
      s.AssignedOnce := by
  let take (thread : Nat) : List Event := [.getSegment thread, .advance thread, .advance thread]
  obtain ⟨s, run, history⟩ := exists_reach_of_exec step ByContract (start { size := 2000, name := [97] })
    (take 0 ++ [.unsetBusy 0] ++ take 1 ++ [.setSegment ⟨0, some 0⟩, .setSegment ⟨0, some 0⟩])
    (fun s => s.history = [.handedOut 0 ⟨0, some 0⟩, .released 0, .handedOut 1 ⟨0, some 0⟩,
      .completed 0, .completed 0]) (by decide)
  exact ⟨s, of_decide_eq_true history, reach_assignedOnce run⟩

end Assignment

end SimpleP2P
