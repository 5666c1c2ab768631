import SimpleP2P.Download.CompleteResource
import Mathlib.Algebra.BigOperators.Group.List.Basic

namespace SimpleP2P

/-- `static_cast<double>` of a 64-bit integer: 53 significant bits, ties to even. -/
def toDouble (n : Nat) : Nat :=
  let ulp := 2 ^ (n.log2 - 52)
  let q := n / ulp
  let r := n % ulp
  (if ulp < 2 * r ∨ (2 * r = ulp ∧ q % 2 = 1) then q + 1 else q) * ulp

/-- `static_cast<Uint16>(nsegments)`: the quotient by 1024 is exact. The language leaves an integral part
that does not fit undefined; it is taken modulo 2^16, and a compiled program may give another number. -/
def lastSegmentIndex (fileSize : UInt64) : UInt16 :=
  UInt16.ofNat (toDouble fileSize.toNat / segmentSize)

/-- Above 65535 segments it depends on what `lastSegmentIndex` is there. -/
def requestedSegmentSize (fileSize : UInt64) (segment : SegmentId) : UInt32 :=
  if segment = lastSegmentIndex fileSize then
    (fileSize - (lastSegmentIndex fileSize).toUInt64 * 1024).toUInt32
  else 1024

structure SegmentsCover (r : Resource) : Prop where
  buffer : r.size.toNat ≤ (CompleteResource.ofResource r).dataSize
  ids : ∀ id < r.calcSegmentsCount, id ≠ noSegmentId
  sizes : ∀ id < r.calcSegmentsCount, (requestedSegmentSize r.size id).toNat ≤ segmentSize
  total : ((List.range r.calcSegmentsCount.toNat).map fun i =>
    (requestedSegmentSize r.size (UInt16.ofNat i)).toNat).sum = r.size.toNat

theorem toDouble_of_lt {n : Nat} (h : n < 2 ^ 53) : toDouble n = n := by
  have exact : n.log2 - 52 = 0 := by
    by_cases zero : n = 0
    · simp [zero]
    · have := (Nat.log2_lt zero).mpr h
      omega
  simp [toDouble, exact, Nat.mod_one]

theorem calcSegmentsCount_toNat (r : Resource) :
    r.calcSegmentsCount.toNat = (r.size.toNat + 1023) / 1024 % 2 ^ 16 := by
  have bound := r.size.toNat_lt
  unfold Resource.calcSegmentsCount
  split
  · rename_i partly
    have partly' : r.size.toNat % 1024 ≠ 0 := by
      simpa [← UInt64.toNat_inj] using partly
    simp only [UInt64.toNat_toUInt16, UInt64.toNat_add, UInt64.toNat_div, UInt64.reduceToNat]
    omega
  · rename_i full
    have full' : r.size.toNat % 1024 = 0 := by
      simpa [← UInt64.toNat_inj] using full
    simp only [UInt64.toNat_toUInt16, UInt64.toNat_div, UInt64.reduceToNat]
    omega

theorem id_ne_noSegmentId {r : Resource} {id : SegmentId} (h : id < r.calcSegmentsCount) :
    id ≠ noSegmentId := by
  rintro rfl
  have bound := r.calcSegmentsCount.toNat_lt
  have below : noSegmentId.toNat < r.calcSegmentsCount.toNat := UInt16.lt_iff_toNat_lt.mp h
  have top : noSegmentId.toNat = 65535 := rfl
  omega

section Fitting

variable {r : Resource} (fits : r.size.toNat ≤ 67107840)
include fits

theorem calcSegmentsCount_of_le : r.calcSegmentsCount.toNat = (r.size.toNat + 1023) / 1024 := by
  rw [calcSegmentsCount_toNat]
  omega

theorem lastSegmentIndex_of_le : (lastSegmentIndex r.size).toNat = r.size.toNat / 1024 := by
  rw [lastSegmentIndex, toDouble_of_lt (by omega), segmentSize, UInt16.toNat_ofNat']
  omega

theorem requestedSegmentSize_of_le (id : SegmentId) :
    (requestedSegmentSize r.size id).toNat =
      if id.toNat = r.size.toNat / 1024 then r.size.toNat % 1024 else 1024 := by
  have last := lastSegmentIndex_of_le fits
  have same : id = lastSegmentIndex r.size ↔ id.toNat = r.size.toNat / 1024 := by
    rw [← UInt16.toNat_inj, last]
  unfold requestedSegmentSize
  simp only [same]
  split
  · have below : (lastSegmentIndex r.size).toUInt64 * 1024 ≤ r.size := by
      rw [UInt64.le_iff_toNat_le, UInt64.toNat_mul, UInt16.toNat_toUInt64, last]
      simp only [UInt64.reduceToNat]
      omega
    rw [UInt64.toNat_toUInt32, UInt64.toNat_sub_of_le _ _ below, UInt64.toNat_mul,
      UInt16.toNat_toUInt64, last]
    simp only [UInt64.reduceToNat]
    omega
  · rfl

theorem total_of_le : ((List.range r.calcSegmentsCount.toNat).map fun i =>
    (requestedSegmentSize r.size (UInt16.ofNat i)).toNat).sum = r.size.toNat := by
  have count := calcSegmentsCount_of_le fits
  have sizeAt : ∀ i < r.calcSegmentsCount.toNat,
      (requestedSegmentSize r.size (UInt16.ofNat i)).toNat =
        if i = r.size.toNat / 1024 then r.size.toNat % 1024 else 1024 := by
    intro i inside
    rw [requestedSegmentSize_of_le fits, UInt16.toNat_ofNat', Nat.mod_eq_of_lt (by omega)]
  have fullRange : ∀ n ≤ r.size.toNat / 1024, n ≤ r.calcSegmentsCount.toNat →
      ((List.range n).map fun i =>
        (requestedSegmentSize r.size (UInt16.ofNat i)).toNat).sum = n * 1024 := by
    intro n full inside
    induction n with
    | zero => rfl
    | succ n ih =>
        rw [List.range_succ, List.map_append, List.sum_append, ih (by omega) (by omega)]
        simp only [List.map_cons, List.map_nil, List.sum_singleton]
        rw [sizeAt n (by omega), if_neg (by omega)]
        ring
  by_cases whole : r.size.toNat % 1024 = 0
  · rw [fullRange _ (by omega) le_rfl]
    omega
  · have next : r.calcSegmentsCount.toNat = r.size.toNat / 1024 + 1 := by omega
    rw [next, List.range_succ, List.map_append, List.sum_append, fullRange _ le_rfl (by omega)]
    simp only [List.map_cons, List.map_nil, List.sum_singleton]
    rw [sizeAt _ (by omega), if_pos rfl]
    omega

end Fitting

theorem segmentsCover_iff (r : Resource) : SegmentsCover r ↔ r.size.toNat ≤ 67107840 := by
  constructor
  · intro cover
    have buffer := cover.buffer
    rw [CompleteResource.dataSize_ofResource] at buffer
    have bound := r.calcSegmentsCount.toNat_lt
    omega
  · intro fits
    refine ⟨?_, fun id below => id_ne_noSegmentId below, ?_, total_of_le fits⟩
    · have count := calcSegmentsCount_of_le fits
      rw [CompleteResource.dataSize_ofResource]
      omega
    · intro id below
      rw [requestedSegmentSize_of_le fits]
      split
      · exact (Nat.mod_lt _ (by decide)).le
      · exact le_rfl

/-- One byte more than 65535 segments hold: the count wraps to zero and no buffer is allocated. -/
theorem segmentsCover_fails : ¬ ∀ r : Resource, SegmentsCover r := by
  intro covers
  have buffer := (covers { name := [120], size := 67107841 }).buffer
  revert buffer
  decide

end SimpleP2P
