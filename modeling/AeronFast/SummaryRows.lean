import AeronFast.ConfigParser
import AeronFast.RecorderAgreement

/-!
The distribution in the summary of the subscriber, against its labels. A row
is labelled "≤ L μs" and counts the latencies whose whole microseconds are at
most L, so a latency of L microseconds and a part of the next one is shown
one row too early. The rows are true exactly when no sample is of this kind
and none of them has more samples than a word can count.
-/
namespace AeronFast.SummaryRows

open CommonTypes WordArithmetic Recorders AtomicRecorders SampleSummary LatencyHistogram
open RecorderAgreement ConfigParser

/-- The latencies that the label of a row speaks of, in nanoseconds. -/
def AtMostRow (limits : Fin 10 → UInt64) (i : Fin 10) (latency : UInt64) : Prop :=
  (i ≠ 0 → 1000 * (limits (i - 1)).toNat < latency.toNat) ∧
    (i ≠ 9 → latency.toNat ≤ 1000 * (limits i).toNat)

/-- The latencies that truncation moves from the next row into this one. -/
def Truncated (limits : Fin 10 → UInt64) (i : Fin 10) (latency : UInt64) : Prop :=
  i ≠ 9 ∧ 1000 * (limits i).toNat < latency.toNat ∧
    latency.toNat < 1000 * ((limits i).toNat + 1)

instance (limits : Fin 10 → UInt64) (i : Fin 10) (latency : UInt64) :
    Decidable (AtMostRow limits i latency) :=
  inferInstanceAs (Decidable (_ ∧ _))

instance (limits : Fin 10 → UInt64) (i : Fin 10) (latency : UInt64) :
    Decidable (Truncated limits i latency) :=
  inferInstanceAs (Decidable (_ ∧ _ ∧ _))

/-- The calls of `record_message_latency` one after another, as pairs of times. -/
def recordMessages (s : PerformanceStats) (times : List (TimestampNs × TimestampNs)) :
    PerformanceStats :=
  times.foldl (fun s time => recordMessageLatency s time.1 time.2) s

def messageLatencies (times : List (TimestampNs × TimestampNs)) : List UInt64 :=
  times.map (fun time => time.2 - time.1)

/-- The rows that the summary prints for the role of the subscriber. -/
def summaryRows (s : PerformanceStats) (config : Config) : Option (Fin 10 → DistributionRow) :=
  match (printPerformanceSummary s config "Subscriber").details with
  | .latencies _ _ _ _ rows => some rows
  | .sending _ _ => none

/-- Every row is labelled by its limit and counts the samples its label speaks of. -/
structure TrueRows (limits : Fin 10 → UInt64) (latencies : List UInt64)
    (rows : Fin 10 → DistributionRow) : Prop where
  label : ∀ i, (rows i).label = summaryLabel limits i
  count : ∀ i, (rows i).count.toNat = latencies.countP (fun l => AtMostRow limits i l)

theorem micros_le_iff (latency limit : UInt64) :
    latency / 1000 ≤ limit ↔ latency.toNat < 1000 * (limit.toNat + 1) := by
  rw [UInt64.le_iff_toNat_le, UInt64.toNat_div]
  change latency.toNat / 1000 ≤ limit.toNat ↔ _
  omega

theorem next_ne_zero (i : Fin 10) (h : i ≠ 9) : i + 1 ≠ 0 := by
  revert i
  decide

theorem previous_succ (i : Fin 9) : i.succ - 1 = i.castSucc := by
  revert i
  decide

section Rows

variable (limits : Fin 10 → UInt64) (hmono : StrictMono (fun i => (limits i).toNat))
include hmono

theorem limit_lt_next (i : Fin 10) (h : i ≠ 0) :
    (limits (i - 1)).toNat < (limits i).toNat := by
  apply hmono
  have hval := Fin.val_sub_one_of_ne_zero h
  have hpos : i.val ≠ 0 := fun hzero => h (Fin.ext hzero)
  exact Fin.lt_def.mpr (by omega)

/-- The bucket a latency is counted in begins and ends a microsecond late. -/
theorem messageLatencyBucket_eq_some_iff (hlast : limits 9 = uint64Max) (latency : UInt64)
    (i : Fin 10) :
    messageLatencyBucket limits latency = some i ↔
      (i ≠ 0 → 1000 * ((limits (i - 1)).toNat + 1) ≤ latency.toNat) ∧
        (i ≠ 9 → latency.toNat < 1000 * ((limits i).toNat + 1)) := by
  have hbound : Monotone (fun i => 1000 * ((limits i).toNat + 1)) :=
    fun _ _ h => Nat.mul_le_mul_left 1000 (Nat.succ_le_succ (hmono.monotone h))
  rw [messageLatencyBucket, findBucket_between _ limits _ hbound latency.toNat]
  · intro j
    exact decide_eq_decide.mpr (micros_le_iff latency (limits j))
  · rw [hlast, ← micros_le_iff]
    exact UInt64.le_of_lt (micros_lt latency)

/-- Sample by sample, what a bucket has too much moved in and what it has too little moved out. -/
theorem bucket_moved (hlast : limits 9 = uint64Max) (i : Fin 10) (latency : UInt64) :
    (if messageLatencyBucket limits latency = some i then 1 else 0) +
        (if i ≠ 0 ∧ Truncated limits (i - 1) latency then 1 else 0) =
      (if AtMostRow limits i latency then 1 else 0) +
        if Truncated limits i latency then 1 else 0 := by
  simp only [messageLatencyBucket_eq_some_iff limits hmono hlast, AtMostRow, Truncated]
  by_cases hfirst : i = 0
  · subst hfirst
    simp only [ne_eq, not_true_eq_false, false_implies, true_and, false_and, if_false,
      show (0 : Fin 10) ≠ 9 by decide, not_false_eq_true, true_implies]
    split_ifs <;> omega
  · have hprevious : i - 1 ≠ 9 := by
      intro hwrap
      have hval := Fin.val_sub_one_of_ne_zero hfirst
      rw [hwrap] at hval
      have hlt := i.isLt
      change 9 = i.val - 1 at hval
      omega
    have hstep := limit_lt_next limits hmono i hfirst
    by_cases hend : i = 9
    · subst hend
      simp only [ne_eq, hprevious, hfirst, not_false_eq_true, not_true_eq_false, true_implies,
        false_implies, and_true, true_and, false_and, if_false]
      split_ifs <;> omega
    · simp only [ne_eq, hprevious, hfirst, hend, not_false_eq_true, true_implies, true_and]
      split_ifs <;> omega

/-- Over all the samples. -/
theorem countP_moved (hlast : limits 9 = uint64Max) (i : Fin 10) (latencies : List UInt64) :
    latencies.countP (fun l => messageLatencyBucket limits l = some i) +
        latencies.countP (fun l => i ≠ 0 ∧ Truncated limits (i - 1) l) =
      latencies.countP (fun l => AtMostRow limits i l) +
        latencies.countP (fun l => Truncated limits i l) := by
  induction latencies with
  | nil => rfl
  | cons l rest ih =>
    have hone := bucket_moved limits hmono hlast i l
    simp only [List.countP_cons, decide_eq_true_eq]
    omega

/-- What is moved out of a row belongs to it. -/
theorem truncated_atMost (i : Fin 10) (latency : UInt64) (h : Truncated limits i latency) :
    AtMostRow limits (i + 1) latency := by
  obtain ⟨hne, hlow, hhigh⟩ := h
  refine ⟨?_, ?_⟩
  · intro _
    rwa [add_sub_cancel_right]
  · intro hnext
    have hstep := limit_lt_next limits hmono (i + 1) (next_ne_zero i hne)
    rw [add_sub_cancel_right] at hstep
    omega

/-- If every counter shows the true number, then row by row nothing was moved: a word cannot hide
more samples than the next row has. -/
theorem not_truncated_of_counts (hlast : limits 9 = uint64Max) (latencies : List UInt64)
    (h : ∀ i, latencies.countP (fun l => messageLatencyBucket limits l = some i) % 2 ^ 64 =
      latencies.countP (fun l => AtMostRow limits i l)) (i : Fin 10) :
    latencies.countP (fun l => Truncated limits i l) = 0 := by
  have hfits (j : Fin 10) : latencies.countP (fun l => AtMostRow limits j l) < 2 ^ 64 := by
    rw [← h j]
    exact Nat.mod_lt _ (by decide)
  have hmoved (j : Fin 10) : latencies.countP (fun l => Truncated limits j l) < 2 ^ 64 := by
    refine Nat.lt_of_le_of_lt (List.countP_mono_left ?_) (hfits (j + 1))
    intro l _ hl
    exact decide_eq_true (truncated_atMost limits hmono j l (of_decide_eq_true hl))
  have hrow (j : Fin 10)
      (hprevious : latencies.countP (fun l => j ≠ 0 ∧ Truncated limits (j - 1) l) = 0) :
      latencies.countP (fun l => Truncated limits j l) = 0 := by
    have hcount := countP_moved limits hmono hlast j latencies
    have hshown := h j
    have hj := hmoved j
    have hj' := hfits j
    omega
  induction i using Fin.induction with
  | zero =>
    apply hrow
    simp
  | succ i ih =>
    apply hrow
    rw [List.countP_eq_zero] at ih ⊢
    intro l hl
    have hold := ih l hl
    simp only [decide_eq_true_eq] at hold ⊢
    rw [previous_succ]
    exact fun htruncated => hold htruncated.2

end Rows

section Runs

variable (limits : Fin 10 → UInt64) (times : List (TimestampNs × TimestampNs))

theorem recordMessages_eq (s : PerformanceStats) : recordMessages s times =
    (times.map (fun time => StatsCall.sample (.recordMessageLatency time.1 time.2))).foldl
      applyCall s := by
  rw [List.foldl_map]
  rfl

theorem recorderCalls_messages :
    recorderCalls
        (times.map (fun time => StatsCall.sample (.recordMessageLatency time.1 time.2))) =
      times.map (fun time => Call.recordMessageLatency time.1 time.2) := by
  rw [recorderCalls, List.filterMap_map]
  exact congrFun List.filterMap_eq_map times

theorem recorded_rows (config : Config) :
    ∃ rows, summaryRows (recordMessages (freshStats limits) times) config = some rows ∧
      (∀ i, (rows i).label = summaryLabel limits i) ∧
      ∀ i, (rows i).count.toNat =
        (messageLatencies times).countP (fun l => messageLatencyBucket limits l = some i) %
          2 ^ 64 := by
  have hcounted := counted_run (counted_fresh limits)
    (times.map (fun time => StatsCall.sample (.recordMessageLatency time.1 time.2)))
  rw [← recordMessages_eq] at hcounted
  refine ⟨_, rfl, ?_, ?_⟩
  · intro i
    change summaryLabel (recordMessages (freshStats limits) times).latencyBucketLimits i = _
    rw [hcounted.latencyBucketLimits]
  · intro i
    refine (hcounted.latencyBuckets i).trans ?_
    rw [recorderCalls_messages, messageLatencies, List.countP_map, List.countP_map]
    rfl

end Runs

/-- A fresh object of either kind after any sequence of `record_message_latency` calls. The rows
of the summary are true of the samples if and only if no latency lies strictly between a limit
and the next whole microsecond, and the samples of each row can be counted in a word. -/
theorem trueRows_iff (initial : PerformanceStats)
    (hinitial : initial = createPerformanceStats ∨ initial = initPerformanceStats)
    (times : List (TimestampNs × TimestampNs)) (config : Config) :
    (∃ rows, summaryRows (recordMessages initial times) config = some rows ∧
        TrueRows initial.latencyBucketLimits (messageLatencies times) rows) ↔
      (∀ l ∈ messageLatencies times, ∀ i, ¬ Truncated initial.latencyBucketLimits i l) ∧
        ∀ i, (messageLatencies times).countP
          (fun l => AtMostRow initial.latencyBucketLimits i l) < 2 ^ 64 := by
  obtain ⟨limits, hmono, hlast, rfl⟩ := exists_limits initial hinitial
  obtain ⟨rows, hrows, hlabel, hcount⟩ := recorded_rows limits times config
  change _ ↔ (∀ l ∈ _, ∀ i, ¬ Truncated limits i l) ∧ ∀ i, List.countP (fun l =>
    AtMostRow limits i l) _ < 2 ^ 64
  constructor
  · rintro ⟨rows', hrows', htrue⟩
    rw [hrows] at hrows'
    obtain rfl := Option.some.inj hrows'
    have hshown : ∀ i, (messageLatencies times).countP
          (fun l => messageLatencyBucket limits l = some i) % 2 ^ 64 =
        (messageLatencies times).countP (fun l => AtMostRow limits i l) := by
      intro i
      rw [← hcount i]
      exact htrue.count i
    constructor
    · intro l hl i htruncated
      have hnone := not_truncated_of_counts limits hmono hlast _ hshown i
      exact List.countP_eq_zero.mp hnone l hl (decide_eq_true htruncated)
    · intro i
      rw [← hshown i]
      exact Nat.mod_lt _ (by decide)
  · rintro ⟨hnone, hfits⟩
    refine ⟨rows, hrows, hlabel, ?_⟩
    intro i
    have hzero (j : Fin 10) :
        (messageLatencies times).countP (fun l => Truncated limits j l) = 0 := by
      rw [List.countP_eq_zero]
      intro l hl
      exact fun h => hnone l hl j (of_decide_eq_true h)
    have hprevious : (messageLatencies times).countP
        (fun l => i ≠ 0 ∧ Truncated limits (i - 1) l) = 0 := by
      rw [List.countP_eq_zero]
      intro l hl h
      exact hnone l hl (i - 1) (of_decide_eq_true h).2
    have hmoved := countP_moved limits hmono hlast i (messageLatencies times)
    rw [hzero i, hprevious, Nat.add_zero, Nat.add_zero] at hmoved
    rw [hcount i, hmoved]
    exact Nat.mod_eq_of_lt (hfits i)

/-- Latencies at the limits and just above the next microsecond. -/
theorem limits_trueRows :
    ∃ rows, summaryRows (recordMessages initPerformanceStats [(0, 1000), (7, 2007), (1, 0)])
        (sizedConfig 16 2 defaultTargetMessageCount) = some rows ∧
      TrueRows initPerformanceStats.latencyBucketLimits
        (messageLatencies [(0, 1000), (7, 2007), (1, 0)]) rows := by
  refine (trueRows_iff initPerformanceStats (Or.inr rfl) _ _).mpr ⟨?_, by decide⟩
  intro l hl
  have hcases : l = 1000 ∨ l = 2000 ∨ l = -1 := by
    simpa [messageLatencies] using hl
  rcases hcases with rfl | rfl | rfl
  · decide
  · decide
  · decide

/-- A latency of one and a half microseconds is shown in the row of at most one microsecond. -/
theorem truncated_not_trueRows :
    (∃ rows, summaryRows (recordMessages initPerformanceStats [(0, 1500)])
          (sizedConfig 16 2 defaultTargetMessageCount) = some rows ∧
        (rows 0).label = "≤ 1 μs" ∧ (rows 0).count = 1) ∧
      ¬ ∃ rows, summaryRows (recordMessages initPerformanceStats [(0, 1500)])
          (sizedConfig 16 2 defaultTargetMessageCount) = some rows ∧
        TrueRows initPerformanceStats.latencyBucketLimits (messageLatencies [(0, 1500)]) rows := by
  refine ⟨⟨_, rfl, rfl, rfl⟩, ?_⟩
  rintro ⟨rows, hrows, htrue⟩
  obtain rfl := Option.some.inj hrows
  exact absurd (htrue.count 0) (by decide)

end AeronFast.SummaryRows
