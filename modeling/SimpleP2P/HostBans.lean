import SimpleP2P.Host
import Mathlib.Data.List.Induction

namespace SimpleP2P.HostDelays

/-- The constructor leaves `ban_time` as it is. -/
def constructed (banTime : Int) : HostDelays := { banTime }

def afterTimeouts (banTime : Int) (times : List Int) : HostDelays :=
  times.foldl increaseTimeoutCounter (constructed banTime)

def Counted (k : Nat) : Prop := 20 ≤ k % 256 ∧ k % 256 ≤ 127

instance (k : Nat) : Decidable (Counted k) :=
  inferInstanceAs (Decidable (20 ≤ k % 256 ∧ k % 256 ≤ 127))

/-- The host is banned if and only if it is so since a timeout from the limit on. The pairs are the
times of the timeouts with their numbers. -/
def BannedRightly (banTime : Int) (times : List Int) (t : Int) : Prop :=
  (afterTimeouts banTime times).isRetarded t = true ↔
    ∃ p ∈ times.zipIdx 1, timeoutCounterLimit ≤ p.2 ∧ t < p.1 + 1

def StillBanned (times : List Int) (t : Int) : Prop :=
  ∃ p ∈ times.zipIdx 1, Counted p.2 ∧ t < p.1 + 1

instance (times : List Int) (t : Int) : Decidable (StillBanned times t) :=
  inferInstanceAs (Decidable (∃ p ∈ times.zipIdx 1, Counted p.2 ∧ t < p.1 + 1))

variable {banTime t : Int} {times : List Int}

@[simp] theorem afterTimeouts_concat (banTime : Int) (times : List Int) (now : Int) :
    afterTimeouts banTime (times ++ [now]) =
      (afterTimeouts banTime times).increaseTimeoutCounter now := by
  simp [afterTimeouts]

theorem timeoutCounter_increase (h : HostDelays) (now : Int) :
    (h.increaseTimeoutCounter now).timeoutCounter = h.timeoutCounter + 1 := by
  unfold increaseTimeoutCounter
  dsimp only
  split <;> rfl

theorem timeoutCounter_afterTimeouts (banTime : Int) (times : List Int) :
    (afterTimeouts banTime times).timeoutCounter = Int8.ofNat times.length := by
  induction times using List.reverseRecOn with
  | nil => rfl
  | append_singleton times now ih =>
      rw [afterTimeouts_concat, timeoutCounter_increase, ih, List.length_append]
      simp

theorem limit_le_iff (k : Nat) : timeoutCounterLimit ≤ (Int8.ofNat k).toInt ↔ Counted k := by
  rw [Int8.toInt_ofNat', timeoutCounterLimit, Counted, Int.bmod]
  simp only [Int8.size]
  split <;> omega

theorem banTime_concat (banTime : Int) (times : List Int) (now : Int) :
    (afterTimeouts banTime (times ++ [now])).banTime =
      if Counted (times.length + 1) then now + 1 else (afterTimeouts banTime times).banTime := by
  have counter : (afterTimeouts banTime times).timeoutCounter + 1 = Int8.ofNat (times.length + 1) := by
    rw [timeoutCounter_afterTimeouts]
    simp
  rw [afterTimeouts_concat]
  unfold increaseTimeoutCounter
  simp only [counter, limit_le_iff]
  split <;> rfl

theorem stillBanned_concat {now : Int} : StillBanned (times ++ [now]) t ↔
    StillBanned times t ∨ Counted (times.length + 1) ∧ t < now + 1 := by
  simp [StillBanned, List.zipIdx_append, or_and_right, exists_or, Nat.add_comm]

theorem Counted.limit {k : Nat} (counted : Counted k) : 20 ≤ k :=
  Nat.le_trans counted.1 (Nat.mod_le k 256)

theorem isRetarded_iff (ordered : times.Pairwise (· ≤ ·)) :
    (afterTimeouts banTime times).isRetarded t = true ↔
      StillBanned times t ∨ times.length < 20 ∧ t < banTime := by
  induction times using List.reverseRecOn with
  | nil =>
      show decide (t < banTime) = true ↔ _
      rw [decide_eq_true_iff]
      simp [StillBanned]
  | append_singleton times now ih =>
      obtain ⟨ordered, -, earlier⟩ := List.pairwise_append.mp ordered
      have before : t < (afterTimeouts banTime times).banTime ↔
          StillBanned times t ∨ times.length < 20 ∧ t < banTime := by
        simpa [isRetarded] using ih ordered
      have here : (afterTimeouts banTime (times ++ [now])).isRetarded t = true ↔
          t < if Counted (times.length + 1) then now + 1 else (afterTimeouts banTime times).banTime := by
        rw [isRetarded, banTime_concat, decide_eq_true_iff]
      rw [here, stillBanned_concat, List.length_append, List.length_singleton]
      by_cases counted : Counted (times.length + 1)
      · have late := counted.limit
        have older : StillBanned times t → t < now + 1 := by
          rintro ⟨p, member, -, ends⟩
          have sooner := earlier p.1 (List.fst_mem_of_mem_zipIdx member) now (List.mem_singleton_self _)
          omega
        rw [if_pos counted, and_iff_right counted, or_iff_left (by omega)]
        exact ⟨.inr, fun banned => banned.elim older id⟩
      · have limit : times.length < 20 ↔ times.length + 1 < 20 := by
          unfold Counted at counted
          omega
        rw [if_neg counted, before, limit]
        simp [counted]

theorem banned_since_limit_iff (ordered : times.Pairwise (· ≤ ·)) (enough : 20 ≤ times.length) :
    (∃ p ∈ times.zipIdx 1, timeoutCounterLimit ≤ p.2 ∧ t < p.1 + 1) ↔ ∃ now ∈ times, t < now + 1 := by
  constructor
  · rintro ⟨p, member, -, ends⟩
    exact ⟨p.1, List.fst_mem_of_mem_zipIdx member, ends⟩
  · rintro ⟨now, member, ends⟩
    -- the last timeout has a number from the limit on, and no other is later
    rcases List.eq_nil_or_concat' times with rfl | ⟨before, last, rfl⟩
    · simp at member
    · have latest : now ≤ last := by
        obtain ⟨-, -, earlier⟩ := List.pairwise_append.mp ordered
        rcases List.mem_append.mp member with old | new
        · exact earlier now old last (List.mem_singleton_self _)
        · exact (List.mem_singleton.mp new).le
      have number : timeoutCounterLimit ≤ ((1 + before.length : Nat) : Int) := by
        rw [List.length_append, List.length_singleton] at enough
        rw [timeoutCounterLimit]
        omega
      refine ⟨(last, 1 + before.length), ?_, number, by omega⟩
      rw [List.zipIdx_append]
      exact List.mem_append_right _ (List.mem_singleton_self _)

theorem banned_before_limit (few : times.length < 20) :
    ¬∃ p ∈ times.zipIdx 1, timeoutCounterLimit ≤ p.2 ∧ t < p.1 + 1 := by
  rintro ⟨⟨now, k⟩, member, limit, -⟩
  have number := (List.mem_zipIdx member).2.1
  rw [timeoutCounterLimit] at limit
  omega

theorem StillBanned.since (h : StillBanned times t) : ∃ now ∈ times, t < now + 1 := by
  obtain ⟨p, member, -, ends⟩ := h
  exact ⟨p.1, List.fst_mem_of_mem_zipIdx member, ends⟩

theorem bannedRightly_iff (ordered : times.Pairwise (· ≤ ·)) :
    BannedRightly banTime times t ↔ times.length < 20 ∧ banTime ≤ t ∨
      20 ≤ times.length ∧ ((∀ now ∈ times, now < t) ∨ StillBanned times t) := by
  rw [BannedRightly, isRetarded_iff ordered]
  by_cases few : times.length < 20
  · have unset : ¬StillBanned times t := by
      rintro ⟨⟨now, k⟩, member, counted, -⟩
      have number := (List.mem_zipIdx member).2.1
      have limit := counted.limit
      omega
    simp only [banned_before_limit few, unset, few, true_and, false_or, iff_false, Int.not_lt]
    omega
  · have past : (∀ now ∈ times, now < t) ↔ ¬∃ now ∈ times, t < now + 1 := by
      simp only [not_exists, not_and, not_lt, Int.add_one_le_iff]
    have enough : 20 ≤ times.length := Nat.le_of_not_lt few
    rw [banned_since_limit_iff ordered enough, past, or_iff_left (fun early => few early.1),
      or_iff_right (fun early => few early.1), and_iff_right enough]
    constructor
    · intro same
      by_cases banned : StillBanned times t
      · exact .inr banned
      · exact .inl fun since => banned (same.mpr since)
    · rintro (past | banned)
      · exact ⟨StillBanned.since, fun since => absurd since past⟩
      · exact iff_of_true banned banned.since

/-- Twenty timeouts in one second, of which the last starts a ban. -/
theorem twenty_bannedRightly : BannedRightly 0 (List.replicate 20 7) 7 :=
  (bannedRightly_iff (by decide)).mpr (.inr ⟨by decide, .inr (by decide)⟩)

def everySecond (n : Nat) : List Int := (List.range n).map fun i => Int.ofNat (i + 1)

/-- One timeout a second: at the 128th the counter is negative, and the host is not banned. -/
theorem bannedRightly_fails : ¬∀ (banTime : Int) (times : List Int) (t : Int),
    times.Pairwise (· ≤ ·) → (∀ now ∈ times, now ≤ t) → BannedRightly banTime times t := by
  intro claim
  have same := claim 0 (everySecond 128) 128 (by decide +kernel) (by decide +kernel)
  have banned := same.mpr ⟨(128, 128), by decide +kernel, by decide, by decide⟩
  have free : (afterTimeouts 0 (everySecond 128)).isRetarded 128 = false := by decide +kernel
  exact absurd (banned.symm.trans free) (by decide)

end SimpleP2P.HostDelays
