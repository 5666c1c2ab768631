import SimpleP2P.Resource
import Mathlib.Data.Vector.Basic

namespace SimpleP2P
open Library

def noSegmentId : SegmentId := 0xFFFF

structure Segment where
  id : SegmentId
  /-- The offset in the data of the complete resource; `none` is the null pointer. -/
  data : Option Nat
  deriving DecidableEq, Repr

def Segment.noSegmentLeft : Segment := ⟨noSegmentId, none⟩

/-- The bitsets have one bit for each segment, and the counter has the type of a segment id. -/
structure CompleteResource where
  resource : Resource
  busySegments : Vector Bool resource.calcSegmentsCount.toNat
  completedSegments : Vector Bool resource.calcSegmentsCount.toNat
  completedCounter : UInt16

namespace CompleteResource

def ofResource (resource : Resource) : CompleteResource where
  resource := resource
  busySegments := Vector.replicate _ false
  completedSegments := Vector.replicate _ false
  completedCounter := 0

def dataSize (c : CompleteResource) : Nat :=
  c.resource.calcSegmentsCount.toNat * segmentSize

def isCompleted (c : CompleteResource) : Bool :=
  c.completedCounter == c.resource.calcSegmentsCount

def downloadable (c : CompleteResource) (id : Nat) : Bool :=
  c.busySegments[id]? == some false && c.completedSegments[id]? == some false

def takeSegment (c : CompleteResource) : Option (Segment × CompleteResource) :=
  match (List.range c.resource.calcSegmentsCount.toNat).find? c.downloadable with
  | some id => some (⟨UInt16.ofNat id, some (id * segmentSize)⟩,
      { c with busySegments := c.busySegments.setIfInBounds id true })
  | none => none

/-- The update of `set_segment`; whether it then notifies is `isCompleted` of the result. -/
def setSegment (c : CompleteResource) (id : SegmentId) : Except Fault CompleteResource :=
  if h : id.toNat < c.resource.calcSegmentsCount.toNat then
    .ok { c with
      busySegments := c.busySegments.set id.toNat false h
      completedSegments := c.completedSegments.set id.toNat true h
      completedCounter := c.completedCounter + 1 }
  else .error .outOfBounds

def unsetBusy (c : CompleteResource) (id : SegmentId) : Except Fault CompleteResource :=
  if h : id.toNat < c.resource.calcSegmentsCount.toNat then
    .ok { c with busySegments := c.busySegments.set id.toNat false h }
  else .error .outOfBounds

@[simp] theorem dataSize_ofResource (r : Resource) :
    (ofResource r).dataSize = r.calcSegmentsCount.toNat * 1024 := by
  simp only [dataSize, ofResource, segmentSize]

variable {c c' : CompleteResource}

theorem setSegment_ok {id : SegmentId} : c.setSegment id = .ok c' ↔
    ∃ h : id.toNat < c.resource.calcSegmentsCount.toNat, c' = { c with
      busySegments := c.busySegments.set id.toNat false h
      completedSegments := c.completedSegments.set id.toNat true h
      completedCounter := c.completedCounter + 1 } := by
  unfold setSegment
  split
  · rename_i inside
    simp [inside, eq_comm]
  · rename_i outside
    simp [outside]

theorem unsetBusy_ok {id : SegmentId} : c.unsetBusy id = .ok c' ↔
    ∃ h : id.toNat < c.resource.calcSegmentsCount.toNat,
      c' = { c with busySegments := c.busySegments.set id.toNat false h } := by
  unfold unsetBusy
  split
  · rename_i inside
    simp [inside, eq_comm]
  · rename_i outside
    simp [outside]

theorem takeSegment_some {segment : Segment} (h : c.takeSegment = some (segment, c')) :
    ∃ id < c.resource.calcSegmentsCount.toNat, c.downloadable id = true ∧
      (∀ j < id, c.downloadable j = false) ∧
      segment = ⟨UInt16.ofNat id, some (id * segmentSize)⟩ ∧
      c' = { c with busySegments := c.busySegments.setIfInBounds id true } := by
  unfold takeSegment at h
  split at h
  · rename_i id found
    obtain ⟨here, inside, first⟩ := List.find?_range_eq_some.mp found
    simp only [Option.some.injEq, Prod.mk.injEq] at h
    refine ⟨id, List.mem_range.mp inside, here, ?_, h.1.symm, h.2.symm⟩
    intro j before
    simpa using first j before
  · contradiction

theorem takeSegment_none : c.takeSegment = none ↔
    ∀ id < c.resource.calcSegmentsCount.toNat, c.downloadable id = false := by
  unfold takeSegment
  split
  · rename_i id found
    obtain ⟨here, inside, -⟩ := List.find?_range_eq_some.mp found
    simp only [reduceCtorEq, false_iff, not_forall]
    exact ⟨id, List.mem_range.mp inside, by simp [here]⟩
  · rename_i missing
    simpa using missing

theorem takeSegment_id_toNat {id : Nat} (h : id < c.resource.calcSegmentsCount.toNat) :
    (UInt16.ofNat id).toNat = id := by
  have bound := c.resource.calcSegmentsCount.toNat_lt
  rw [UInt16.toNat_ofNat', Nat.mod_eq_of_lt (by omega)]

theorem takeSegment_address {segment : Segment} (taken : c.takeSegment = some (segment, c')) :
    segment.id < c.resource.calcSegmentsCount ∧
      segment.data = some (segment.id.toNat * segmentSize) := by
  obtain ⟨id, below, -, -, rfl, -⟩ := takeSegment_some taken
  have same := takeSegment_id_toNat below
  exact ⟨UInt16.lt_iff_toNat_lt.mpr (by rwa [same]), by rw [same]⟩

end CompleteResource

end SimpleP2P
