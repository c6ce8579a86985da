import AeronFast.SampleSummary

/-!
The distribution the subscriber prints, in nanoseconds. A latency is divided
down to microseconds and compared with limits given in microseconds, so the
rows begin and end at whole multiples of a thousand nanoseconds, and the
labels written out in another function name exactly these bounds. The counts
are words: beyond 2^64 calls a row shows the rest modulo the word size.
-/
namespace AeronFast.LatencyHistogram

open CommonTypes WordArithmetic Recorders AtomicRecorders SampleSummary

/-- The first latency of a row, in nanoseconds. -/
def lowerBound (limits : Fin 10 → UInt64) (i : Fin 10) : ℕ :=
  if i = 0 then 0 else 1000 * (limits (i - 1)).toNat

/-- The latencies that belong to a row; the last row has no upper bound. -/
def InRow (limits : Fin 10 → UInt64) (i : Fin 10) (latency : UInt64) : Prop :=
  lowerBound limits i ≤ latency.toNat ∧ (i ≠ 9 → latency.toNat < 1000 * (limits i).toNat)

instance (limits : Fin 10 → UInt64) (i : Fin 10) (latency : UInt64) :
    Decidable (InRow limits i latency) :=
  inferInstanceAs (Decidable (_ ∧ _))

/-- A number of microseconds as the labels write it. -/
def inUnit (micros : ℕ) : String :=
  if micros % 1000 = 0 then toString (micros / 1000) ++ "ms" else toString micros ++ "μs"

/-- The label that names a row's bounds. -/
def boundLabel (limits : Fin 10 → UInt64) (i : Fin 10) : String :=
  if i = 9 then ">= " ++ inUnit (limits 8).toNat else "< " ++ inUnit (limits i).toNat

theorem findBucket_eq_some_iff (test : UInt64 → Bool) (limits : Fin 10 → UInt64) (i : Fin 10) :
    findBucket test limits = some i ↔
      test (limits i) = true ∧ ∀ j < i, test (limits j) = false := by
  rw [findBucket, List.find?_eq_some_iff_getElem]
  constructor
  · rintro ⟨hi, k, hk, rfl, hbefore⟩
    refine ⟨hi, ?_⟩
    intro j hj
    have hlt : j.val < k := by simpa [Fin.lt_def] using hj
    simpa using hbefore j.val hlt
  · rintro ⟨hi, hbefore⟩
    refine ⟨hi, i.val, by simp, by simp, ?_⟩
    intro j hj
    have hlt : (⟨j, hj.trans i.isLt⟩ : Fin 10) < i := hj
    simpa using hbefore _ hlt

/-- Truncation to microseconds does not move a bound. -/
theorem micros_lt_iff (latency limit : UInt64) :
    latency / 1000 < limit ↔ latency.toNat < 1000 * limit.toNat := by
  rw [UInt64.lt_iff_toNat_lt, UInt64.toNat_div]
  change latency.toNat / 1000 < limit.toNat ↔ _
  omega

/-- A test that cuts at increasing bounds finds the row between two of them. -/
theorem findBucket_between (test : UInt64 → Bool) (limits : Fin 10 → UInt64) (bound : Fin 10 → ℕ)
    (hbound : Monotone bound) (latency : ℕ)
    (htest : ∀ i, test (limits i) = decide (latency < bound i)) (hlast : latency < bound 9)
    (i : Fin 10) :
    findBucket test limits = some i ↔
      (i ≠ 0 → bound (i - 1) ≤ latency) ∧ (i ≠ 9 → latency < bound i) := by
  rw [findBucket_eq_some_iff]
  simp only [htest, decide_eq_true_eq, decide_eq_false_iff_not, Nat.not_lt]
  constructor
  · rintro ⟨hupper, hlower⟩
    refine ⟨?_, fun _ => hupper⟩
    intro hne
    have hval := Fin.val_sub_one_of_ne_zero hne
    have hpos : i.val ≠ 0 := fun hzero => hne (Fin.ext hzero)
    exact hlower (i - 1) (Fin.lt_def.mpr (by omega))
  · rintro ⟨hlower, hupper⟩
    refine ⟨?_, ?_⟩
    · by_cases hi : i = 9
      · rw [hi]
        exact hlast
      · exact hupper hi
    · -- the bounds before the last one passed follow from it
      intro j hj
      have hne : i ≠ 0 := Fin.ne_zero_of_lt hj
      have hval := Fin.val_sub_one_of_ne_zero hne
      have hle : j ≤ i - 1 := by
        rw [Fin.le_def, hval]
        exact Nat.le_sub_one_of_lt hj
      exact Nat.le_trans (hbound hle) (hlower hne)

section Rows

variable (limits : Fin 10 → UInt64) (hmono : StrictMono (fun i => (limits i).toNat))
variable (hlast : limits 9 = uint64Max)
include hmono hlast

/-- The bucket of a latency is its row. -/
theorem latencyBucket_eq_some_iff (latency : UInt64) (i : Fin 10) :
    latencyBucket limits latency = some i ↔ InRow limits i latency := by
  have hbound : Monotone (fun i => 1000 * (limits i).toNat) :=
    fun _ _ h => Nat.mul_le_mul_left 1000 (hmono.monotone h)
  rw [latencyBucket, findBucket_between _ limits _ hbound latency.toNat]
  · unfold InRow lowerBound
    by_cases hi : i = 0
    · simp [hi]
    · simp [hi]
  · intro j
    exact decide_eq_decide.mpr (micros_lt_iff latency (limits j))
  · rw [hlast, ← micros_lt_iff]
    exact micros_lt latency

/-- The rows are disjoint and cover every latency. -/
theorem existsUnique_row (latency : UInt64) : ∃! i, InRow limits i latency := by
  obtain ⟨i, hi⟩ := exists_latencyBucket limits hlast latency
  have hrow := latencyBucket_eq_some_iff limits hmono hlast latency
  refine ⟨i, (hrow i).mp hi, ?_⟩
  intro j hj
  have hbucket := (hrow j).mpr hj
  rw [hi] at hbucket
  exact (Option.some.inj hbucket).symm

end Rows

theorem foldl_recordLatency (s : PerformanceStats) (latencies : List UInt64) :
    latencies.foldl recordLatency s =
      (latencies.map (fun l => StatsCall.sample (.recordLatency l))).foldl applyCall s := by
  rw [List.foldl_map]
  rfl

theorem recorderCalls_latencies (latencies : List UInt64) :
    recorderCalls (latencies.map (fun l => StatsCall.sample (.recordLatency l))) =
      latencies.map Call.recordLatency := by
  rw [recorderCalls, List.filterMap_map]
  exact congrFun List.filterMap_eq_map latencies

/-- The limits of a created object, in microseconds. -/
abbrev limits : Fin 10 → UInt64 := createPerformanceStats.latencyBucketLimits

theorem limits_strictMono : StrictMono (fun i => (limits i).toNat) := by
  intro i j
  revert i j
  decide

theorem rangeLabels_eq (i : Fin 10) : rangeLabels i = boundLabel limits i := by
  revert i
  decide

section Runs

variable (latencies : List UInt64)

theorem counted_latencies :
    Counted limits (latencies.map (fun l => StatsCall.sample (.recordLatency l)))
      (latencies.foldl recordLatency createPerformanceStats) := by
  rw [foldl_recordLatency]
  exact counted_run (counted_fresh _) _

theorem recorded_messageCount :
    (latencies.foldl recordLatency createPerformanceStats).messageCount.toNat =
      latencies.length % 2 ^ 64 := by
  rw [(counted_latencies latencies).messageCount, recorderCalls_latencies, List.length_map]

theorem recorded_buckets (i : Fin 10) :
    ((latencies.foldl recordLatency createPerformanceStats).latencyBuckets i).toNat =
      latencies.countP (fun l => InRow limits i l) % 2 ^ 64 := by
  rw [(counted_latencies latencies).latencyBuckets i, recorderCalls_latencies, List.countP_map]
  congr 2
  funext l
  exact decide_eq_decide.mpr (latencyBucket_eq_some_iff limits limits_strictMono rfl l i)

/-- Each latency is counted in one row. -/
theorem sum_inRow : ∑ i, latencies.countP (fun l => InRow limits i l) = latencies.length := by
  rw [← sum_countP (latencyBucket limits) latencies (fun l _ => exists_latencyBucket _ rfl l)]
  apply Finset.sum_congr rfl
  intro i _
  congr 1
  funext l
  exact decide_eq_decide.mpr (latencyBucket_eq_some_iff limits limits_strictMono rfl l i).symm

end Runs

/-- The rows as their labels read them: each counts the latencies within its bounds, and together
they make up the message count. -/
structure ExactRows (latencies : List UInt64) (messageCount : UInt64)
    (rows : Fin 10 → DistributionRow) : Prop where
  label : ∀ i, (rows i).label = boundLabel limits i
  count : ∀ i, (rows i).count.toNat = latencies.countP (fun l => InRow limits i l)
  total : ∑ i, (rows i).count.toNat = messageCount.toNat

/-- The same with every count modulo the word size. -/
structure WordRows (latencies : List UInt64) (messageCount : UInt64)
    (rows : Fin 10 → DistributionRow) : Prop where
  label : ∀ i, (rows i).label = boundLabel limits i
  count : ∀ i, (rows i).count.toNat = latencies.countP (fun l => InRow limits i l) % 2 ^ 64
  total : (∑ i, (rows i).count.toNat) % 2 ^ 64 = messageCount.toNat

section Printed

variable {latencies : List UInt64} {rows : Fin 10 → DistributionRow}

theorem printed_eq_none_iff :
    printLatencyDistribution (latencies.foldl recordLatency createPerformanceStats) = none ↔
      latencies.length % 2 ^ 64 = 0 := by
  rw [← recorded_messageCount]
  unfold printLatencyDistribution
  split
  · rename_i hzero
    simp [hzero]
  · rename_i hne
    simp only [reduceCtorEq, false_iff]
    exact fun hzero => hne (UInt64.toNat_inj.mp hzero)

theorem wordRows_of_printed
    (h : printLatencyDistribution (latencies.foldl recordLatency createPerformanceStats) =
      some rows) :
    WordRows latencies (latencies.foldl recordLatency createPerformanceStats).messageCount
      rows := by
  unfold printLatencyDistribution at h
  split at h
  · simp at h
  · obtain rfl := Option.some.inj h
    refine ⟨rangeLabels_eq, recorded_buckets latencies, ?_⟩
    rw [Finset.sum_congr rfl (fun i _ => recorded_buckets latencies i), ← Finset.sum_nat_mod,
      sum_inRow, recorded_messageCount]

theorem exactRows_of_wordRows {messageCount : UInt64}
    (hcount : messageCount.toNat = latencies.length % 2 ^ 64)
    (hlength : latencies.length < 2 ^ 64) (h : WordRows latencies messageCount rows) :
    ExactRows latencies messageCount rows := by
  have hexact : ∀ i, (rows i).count.toNat = latencies.countP (fun l => InRow limits i l) := by
    intro i
    rw [h.count i]
    exact Nat.mod_eq_of_lt (Nat.lt_of_le_of_lt List.countP_le_length hlength)
  refine ⟨h.label, hexact, ?_⟩
  rw [Finset.sum_congr rfl (fun i _ => hexact i), sum_inRow, hcount, Nat.mod_eq_of_lt hlength]

end Printed

/-- The distribution after any run of `record_latency` on a created object. The rows cut the
latencies at the limits their labels name, one row a latency. Rows are printed unless the
message count is zero, and show the number of latencies within their bounds modulo 2^64, which
is the number itself for fewer than 2^64 calls. -/
theorem rows_count_latencies (latencies : List UInt64) :
    (∀ l, ∃! i, InRow limits i l) ∧
      (printLatencyDistribution (latencies.foldl recordLatency createPerformanceStats) = none ↔
        latencies.length % 2 ^ 64 = 0) ∧
      ∀ rows,
        printLatencyDistribution (latencies.foldl recordLatency createPerformanceStats) =
          some rows →
        WordRows latencies (latencies.foldl recordLatency createPerformanceStats).messageCount
            rows ∧
          (latencies.length < 2 ^ 64 → ExactRows latencies
            (latencies.foldl recordLatency createPerformanceStats).messageCount rows) := by
  refine ⟨existsUnique_row limits limits_strictMono rfl, printed_eq_none_iff, ?_⟩
  intro rows hrows
  have hword := wordRows_of_printed hrows
  exact ⟨hword, fun hlength =>
    exactRows_of_wordRows (recorded_messageCount latencies) hlength hword⟩

theorem rows_at_bounds :
    printLatencyDistribution
        ([999, 1000, 10000000].foldl recordLatency createPerformanceStats) ≠ none ∧
      ∀ rows,
        printLatencyDistribution
            ([999, 1000, 10000000].foldl recordLatency createPerformanceStats) = some rows →
          ExactRows [999, 1000, 10000000]
            ([999, 1000, 10000000].foldl recordLatency createPerformanceStats).messageCount
            rows := by
  obtain ⟨_, hnone, hsome⟩ := rows_count_latencies [999, 1000, 10000000]
  refine ⟨fun h => absurd (hnone.mp h) (by decide), ?_⟩
  intro rows hrows
  exact (hsome rows hrows).2 (by decide)

/-- A row that counts more calls than a word can hold is not the number of its latencies. -/
theorem zeros_not_exact (n : ℕ) (hlarge : 2 ^ 64 ≤ n) (hprinted : n % 2 ^ 64 ≠ 0) :
    ∃ rows,
      printLatencyDistribution
          ((List.replicate n 0).foldl recordLatency createPerformanceStats) = some rows ∧
        ¬ ExactRows (List.replicate n 0)
          ((List.replicate n 0).foldl recordLatency createPerformanceStats).messageCount
          rows := by
  have hne : printLatencyDistribution
      ((List.replicate n 0).foldl recordLatency createPerformanceStats) ≠ none := by
    rw [Ne, printed_eq_none_iff, List.length_replicate]
    exact hprinted
  obtain ⟨rows, hrows⟩ := Option.ne_none_iff_exists'.mp hne
  refine ⟨rows, hrows, ?_⟩
  intro hexact
  have hfirst := hexact.count 0
  rw [List.countP_replicate, if_pos (by decide)] at hfirst
  have hword := word_lt (rows 0).count
  omega

/-- More calls than a word can count: the first of the printed rows shows one. -/
theorem wrapped_rows_not_exact :
    ∃ rows,
      printLatencyDistribution ((List.replicate 18446744073709551617 0).foldl recordLatency
          createPerformanceStats) = some rows ∧
        ¬ ExactRows (List.replicate 18446744073709551617 0)
          ((List.replicate 18446744073709551617 0).foldl recordLatency
            createPerformanceStats).messageCount rows :=
  zeros_not_exact 18446744073709551617 (by decide) (by decide)

end AeronFast.LatencyHistogram
