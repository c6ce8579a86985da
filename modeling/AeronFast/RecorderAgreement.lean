import AeronFast.LatencyHistogram

/-!
How far the two recorders of `performance_stats.c` agree. Their counters are
the same on every latency. The rows of the two histograms end at the same
limits, one includes the limit and the other does not, so a latency whose
whole microseconds are a limit is one row further down in `record_latency`.
The slots agree as long as the message counter has not wrapped, since one
recorder takes the message index and the other the next free slot.
-/
namespace AeronFast.RecorderAgreement

open CommonTypes WordArithmetic Recorders AtomicRecorders SampleSummary LatencyHistogram

/-- The whole microseconds of a latency are one of the limits. -/
def OnLimit (limits : Fin 10 → UInt64) (latency : UInt64) : Prop := ∃ i, latency / 1000 = limits i

/-- The counters of both recorders. -/
structure SameCounters (s t : PerformanceStats) : Prop where
  messageCount : s.messageCount = t.messageCount
  totalLatency : s.totalLatency = t.totalLatency
  minLatency : s.minLatency = t.minLatency
  maxLatency : s.maxLatency = t.maxLatency

/-- The detail array of both recorders. -/
structure SameDetails (s t : PerformanceStats) : Prop where
  recordedCount : s.recordedCount = t.recordedCount
  latencies : s.latencies = t.latencies

theorem SameCounters.trans {s t u : PerformanceStats} (h : SameCounters s t)
    (h' : SameCounters t u) : SameCounters s u :=
  ⟨h.messageCount.trans h'.messageCount, h.totalLatency.trans h'.totalLatency,
    h.minLatency.trans h'.minLatency, h.maxLatency.trans h'.maxLatency⟩

theorem SameCounters.symm {s t : PerformanceStats} (h : SameCounters s t) : SameCounters t s :=
  ⟨h.messageCount.symm, h.totalLatency.symm, h.minLatency.symm, h.maxLatency.symm⟩

theorem SameDetails.trans {s t u : PerformanceStats} (h : SameDetails s t)
    (h' : SameDetails t u) : SameDetails s u :=
  ⟨h.recordedCount.trans h'.recordedCount, h.latencies.trans h'.latencies⟩

theorem SameDetails.symm {s t : PerformanceStats} (h : SameDetails s t) : SameDetails t s :=
  ⟨h.recordedCount.symm, h.latencies.symm⟩

section Buckets

theorem findBucket_congr (test test' : UInt64 → Bool) (limits : Fin 10 → UInt64)
    (h : ∀ i, test (limits i) = test' (limits i)) :
    findBucket test limits = findBucket test' limits := by
  unfold findBucket
  congr 1
  funext i
  exact h i

variable (limits : Fin 10 → UInt64) (hmono : StrictMono (fun i => (limits i).toNat))
include hmono

/-- A latency on a limit stays in the row of that limit. -/
theorem messageLatencyBucket_onLimit (latency : UInt64) (i : Fin 10)
    (h : latency / 1000 = limits i) : messageLatencyBucket limits latency = some i := by
  rw [messageLatencyBucket, findBucket_eq_some_iff, h]
  refine ⟨decide_eq_true (UInt64.le_refl _), ?_⟩
  intro j hj
  apply decide_eq_false
  rw [UInt64.not_le, UInt64.lt_iff_toNat_lt]
  exact hmono hj

omit hmono in
theorem latencyBucket_onLimit (latency : UInt64) (i : Fin 10) (h : latency / 1000 = limits i) :
    latencyBucket limits latency ≠ some i := by
  intro hbucket
  rw [latencyBucket, findBucket_eq_some_iff, h] at hbucket
  exact UInt64.lt_irrefl _ (of_decide_eq_true hbucket.1)

/-- The recorders choose the same bucket exactly off the limits. -/
theorem bucket_eq_iff (latency : UInt64) :
    messageLatencyBucket limits latency = latencyBucket limits latency ↔
      ¬ OnLimit limits latency := by
  constructor
  · rintro hsame ⟨i, hi⟩
    apply latencyBucket_onLimit limits latency i hi
    rw [← hsame]
    exact messageLatencyBucket_onLimit limits hmono latency i hi
  · intro hoff
    apply findBucket_congr
    intro i
    apply decide_eq_decide.mpr
    rw [UInt64.lt_iff_le_and_ne]
    exact ⟨fun hle => ⟨hle, fun heq => hoff ⟨i, heq⟩⟩, fun h => h.1⟩

end Buckets

/-- A bucket that goes up is different from before, so it tells which one was chosen. -/
theorem bumpBucket_inj (buckets : Fin 10 → UInt64) (i j : Fin 10)
    (h : bumpBucket buckets (some i) = bumpBucket buckets (some j)) : i = j := by
  by_contra hne
  have hcell := congrFun h i
  simp only [bumpBucket, bump, Function.update_self, Function.update_of_ne hne] at hcell
  have hword := word_lt (buckets i)
  have hnat := congrArg UInt64.toNat hcell
  rw [toNat_add_one_mod] at hnat
  omega

/-- A fresh object of either kind has increasing limits that end in the sentinel. -/
theorem exists_limits (initial : PerformanceStats)
    (h : initial = createPerformanceStats ∨ initial = initPerformanceStats) :
    ∃ limits : Fin 10 → UInt64, StrictMono (fun i => (limits i).toNat) ∧
      limits 9 = uint64Max ∧ initial = freshStats limits := by
  rcases h with rfl | rfl
  · exact ⟨_, limits_strictMono, rfl, rfl⟩
  · refine ⟨_, ?_, rfl, rfl⟩
    intro i j
    revert i j
    decide

section Steps

variable {s t : PerformanceStats}

theorem sameCounters_sample (h : SameCounters s t) (call call' : Call)
    (hlatency : call.latency = call'.latency) :
    SameCounters (recordCall s call) (recordCall t call') := by
  have hs := counts_recordCall s call
  have ht := counts_recordCall t call'
  refine ⟨?_, ?_, ?_, ?_⟩
  · rw [hs.messageCount, ht.messageCount, h.messageCount]
  · rw [hs.totalLatency, ht.totalLatency, h.totalLatency, hlatency]
  · rw [hs.minLatency, ht.minLatency, h.minLatency, hlatency]
  · rw [hs.maxLatency, ht.maxLatency, h.maxLatency, hlatency]

/-- In lockstep both recorders fill the slot of the message index. -/
theorem sameDetails_sample (hc : SameCounters s t) (h : SameDetails s t) (hlock : Lockstep s)
    (call call' : Call) (hlatency : call.latency = call'.latency) :
    SameDetails (recordCall s call) (recordCall t call') := by
  have hlock' : Lockstep t := by
    unfold Lockstep at hlock ⊢
    rwa [← h.recordedCount, ← hc.messageCount]
  have hs := fillsSlot_recordCall s hlock call
  have ht := fillsSlot_recordCall t hlock' call'
  by_cases hfree : s.messageCount.toNat < detailedRecordCount
  · obtain ⟨hcount, hslots⟩ := hs.filled hfree
    rw [hc.messageCount] at hfree
    obtain ⟨hcount', hslots'⟩ := ht.filled hfree
    exact ⟨by rw [hcount, hcount', hc.messageCount],
      by rw [hslots, hslots', hc.messageCount, h.latencies, hlatency]⟩
  · obtain ⟨hcount, hslots⟩ := hs.full (Nat.not_lt.mp hfree)
    rw [hc.messageCount] at hfree
    obtain ⟨hcount', hslots'⟩ := ht.full (Nat.not_lt.mp hfree)
    exact ⟨by rw [hcount, hcount', h.recordedCount], by rw [hslots, hslots', h.latencies]⟩

end Steps

section Runs

variable (limits : Fin 10 → UInt64)

/-- In memory that is zero everywhere a fresh object is just itself. -/
theorem placed_fresh : placed (freshStats limits) (fun _ => 0) = freshStats limits := by
  simp [placed, freshStats]

theorem lockstep_run (calls : List StatsCall) (hcalls : (recorderCalls calls).length < 2 ^ 64) :
    Lockstep (calls.foldl applyCall (freshStats limits)) := by
  have h := detailed_run limits (fun _ => 0) calls hcalls
  rw [placed_fresh] at h
  exact h.lockstep

/-- Every run has the counters of the run that passes the same latencies to `record_latency`. -/
theorem sameCounters_run (calls : List StatsCall) :
    SameCounters (calls.foldl applyCall (freshStats limits))
      ((samples calls).foldl recordLatency (freshStats limits)) := by
  induction calls using List.reverseRecOn with
  | nil => exact ⟨rfl, rfl, rfl, rfl⟩
  | append_singleton earlier call ih =>
    rw [List.foldl_append]
    cases call with
    | sample call =>
      rw [samples_sample, List.foldl_append]
      exact sameCounters_sample ih call (.recordLatency call.latency) rfl
    | backPressure =>
      rw [samples_other _ _ rfl]
      exact ⟨ih.messageCount, ih.totalLatency, ih.minLatency, ih.maxLatency⟩
    | retry =>
      rw [samples_other _ _ rfl]
      exact ⟨ih.messageCount, ih.totalLatency, ih.minLatency, ih.maxLatency⟩

theorem sameDetails_run (calls : List StatsCall) (hcalls : (samples calls).length ≤ 2 ^ 64) :
    SameDetails (calls.foldl applyCall (freshStats limits))
      ((samples calls).foldl recordLatency (freshStats limits)) := by
  induction calls using List.reverseRecOn with
  | nil => exact ⟨rfl, rfl⟩
  | append_singleton earlier call ih =>
    rw [List.foldl_append]
    cases call with
    | sample call =>
      rw [samples_sample, List.length_append, List.length_singleton] at hcalls
      rw [samples_sample, List.foldl_append]
      have hearlier : (recorderCalls earlier).length < 2 ^ 64 := by
        rw [← length_samples]
        omega
      exact sameDetails_sample (sameCounters_run limits earlier) (ih (by omega))
        (lockstep_run limits earlier hearlier) call (.recordLatency call.latency) rfl
    | backPressure =>
      rw [samples_other _ _ rfl] at hcalls ⊢
      exact ⟨(ih hcalls).recordedCount, (ih hcalls).latencies⟩
    | retry =>
      rw [samples_other _ _ rfl] at hcalls ⊢
      exact ⟨(ih hcalls).recordedCount, (ih hcalls).latencies⟩

theorem call_bucket_eq (hmono : StrictMono (fun i => (limits i).toNat)) (call : Call)
    (hoff : ¬ OnLimit limits call.latency) :
    call.bucket limits = latencyBucket limits call.latency := by
  cases call with
  | recordLatency l => rfl
  | recordMessageLatency sendTime receiveTime => exact (bucket_eq_iff limits hmono _).mpr hoff

/-- Off the limits the histogram is that of `record_latency` too: each bucket counts the same
calls. -/
theorem sameBuckets_run (hmono : StrictMono (fun i => (limits i).toNat)) (calls : List StatsCall)
    (hoff : ∀ l ∈ samples calls, ¬ OnLimit limits l) :
    (calls.foldl applyCall (freshStats limits)).latencyBuckets =
      ((samples calls).foldl recordLatency (freshStats limits)).latencyBuckets := by
  funext i
  apply UInt64.toNat_inj.mp
  rw [foldl_recordLatency, (counted_run (counted_fresh limits) calls).latencyBuckets,
    (counted_run (counted_fresh limits) _).latencyBuckets, recorderCalls_latencies, samples,
    List.map_map, List.countP_map]
  congr 1
  apply List.countP_congr
  intro call hcall
  have hbucket := call_bucket_eq limits hmono call (hoff _ (List.mem_map_of_mem hcall))
  rw [hbucket]
  exact Iff.rfl

end Runs

/-- Two runs with the same latencies, whichever recorder took each of them. -/
theorem same_of_samples (limits : Fin 10 → UInt64)
    (hmono : StrictMono (fun i => (limits i).toNat)) (calls calls' : List StatsCall)
    (h : samples calls' = samples calls) :
    SameCounters (calls'.foldl applyCall (freshStats limits))
        (calls.foldl applyCall (freshStats limits)) ∧
      ((∀ l ∈ samples calls, ¬ OnLimit limits l) →
        (calls'.foldl applyCall (freshStats limits)).latencyBuckets =
          (calls.foldl applyCall (freshStats limits)).latencyBuckets) ∧
      ((samples calls).length ≤ 2 ^ 64 →
        SameDetails (calls'.foldl applyCall (freshStats limits))
          (calls.foldl applyCall (freshStats limits))) := by
  refine ⟨?_, ?_, ?_⟩
  · have hleft := sameCounters_run limits calls'
    rw [h] at hleft
    exact hleft.trans (sameCounters_run limits calls).symm
  · intro hoff
    have hleft := sameBuckets_run limits hmono calls' (by rwa [h])
    rw [h] at hleft
    exact hleft.trans (sameBuckets_run limits hmono calls hoff).symm
  · intro hcalls
    have hleft := sameDetails_run limits calls' (by rwa [h])
    rw [h] at hleft
    exact hleft.trans (sameDetails_run limits calls hcalls).symm

/-- One sample passed to each recorder, in any state that calls have led to. -/
theorem same_of_sample (limits : Fin 10 → UInt64)
    (hmono : StrictMono (fun i => (limits i).toNat)) (hlast : limits 9 = uint64Max)
    (calls : List StatsCall) (sendTime receiveTime : TimestampNs) (s : PerformanceStats)
    (hs : s = calls.foldl applyCall (freshStats limits)) :
    SameCounters (recordMessageLatency s sendTime receiveTime)
        (recordLatency s (receiveTime - sendTime)) ∧
      ((recordMessageLatency s sendTime receiveTime).latencyBuckets =
          (recordLatency s (receiveTime - sendTime)).latencyBuckets ↔
        ¬ OnLimit limits (receiveTime - sendTime)) ∧
      ((recorderCalls calls).length < 2 ^ 64 →
        SameDetails (recordMessageLatency s sendTime receiveTime)
          (recordLatency s (receiveTime - sendTime))) := by
  have hmessage : recordMessageLatency s sendTime receiveTime =
      recordCall s (.recordMessageLatency sendTime receiveTime) := rfl
  have hlatency : recordLatency s (receiveTime - sendTime) =
      recordCall s (.recordLatency (receiveTime - sendTime)) := rfl
  rw [hmessage, hlatency]
  refine ⟨sameCounters_sample ⟨rfl, rfl, rfl, rfl⟩ _ _ rfl, ?_, ?_⟩
  · have hlimits : s.latencyBucketLimits = limits := by
      rw [hs]
      exact (counted_run (counted_fresh limits) calls).latencyBucketLimits
    rw [(counts_recordCall s _).latencyBuckets, (counts_recordCall s _).latencyBuckets, hlimits,
      ← bucket_eq_iff limits hmono]
    obtain ⟨i, hi⟩ := exists_messageLatencyBucket limits hlast (receiveTime - sendTime)
    obtain ⟨j, hj⟩ := exists_latencyBucket limits hlast (receiveTime - sendTime)
    simp only [Call.bucket, hi, hj]
    exact ⟨fun h => congrArg some (bumpBucket_inj _ i j h), fun h => by rw [h]⟩
  · intro hcalls
    have hlock : Lockstep s := hs ▸ lockstep_run limits calls hcalls
    exact sameDetails_sample ⟨rfl, rfl, rfl, rfl⟩ ⟨rfl, rfl⟩ hlock _ _ rfl

/-- The recorders on a state that any calls have led to from either initialiser. They always
agree on the counters; on the buckets exactly when the whole microseconds of the latency are
none of the limits; on the slots while fewer than 2^64 samples were recorded. So do two runs
with the same latencies, whichever recorder took each of them. -/
theorem recorders_agree (initial : PerformanceStats)
    (hinitial : initial = createPerformanceStats ∨ initial = initPerformanceStats)
    (calls : List StatsCall) (s : PerformanceStats) (hs : s = calls.foldl applyCall initial) :
    (∀ sendTime receiveTime,
        SameCounters (recordMessageLatency s sendTime receiveTime)
            (recordLatency s (receiveTime - sendTime)) ∧
          ((recordMessageLatency s sendTime receiveTime).latencyBuckets =
              (recordLatency s (receiveTime - sendTime)).latencyBuckets ↔
            ¬ OnLimit initial.latencyBucketLimits (receiveTime - sendTime)) ∧
          ((recorderCalls calls).length < 2 ^ 64 →
            SameDetails (recordMessageLatency s sendTime receiveTime)
              (recordLatency s (receiveTime - sendTime)))) ∧
      ∀ calls', samples calls' = samples calls →
        SameCounters (calls'.foldl applyCall initial) s ∧
          ((∀ l ∈ samples calls, ¬ OnLimit initial.latencyBucketLimits l) →
            (calls'.foldl applyCall initial).latencyBuckets = s.latencyBuckets) ∧
          ((samples calls).length ≤ 2 ^ 64 →
            SameDetails (calls'.foldl applyCall initial) s) := by
  obtain ⟨limits, hmono, hlast, rfl⟩ := exists_limits initial hinitial
  constructor
  · intro sendTime receiveTime
    exact same_of_sample limits hmono hlast calls sendTime receiveTime s hs
  · intro calls' hsamples
    rw [hs]
    exact same_of_samples limits hmono calls calls' hsamples

/-- Latencies next to a limit, where the recorders agree on the buckets too. -/
theorem recorders_agree_off_limits :
    (recordMessageLatency initPerformanceStats 1 1000).latencyBuckets =
        (recordLatency initPerformanceStats 999).latencyBuckets ∧
      (recordMessageLatency initPerformanceStats 0 2000).latencyBuckets =
        (recordLatency initPerformanceStats 2000).latencyBuckets := by
  have h := (recorders_agree initPerformanceStats (Or.inr rfl) [] initPerformanceStats rfl).1
  constructor
  · exact (h 1 1000).2.1.mpr (by unfold OnLimit; decide)
  · exact (h 0 2000).2.1.mpr (by unfold OnLimit; decide)

/-- The slots of `record_latency` fill up once and for all. -/
theorem recordedCount_latencies (limits : Fin 10 → UInt64) (latencies : List UInt64) :
    (latencies.foldl recordLatency (freshStats limits)).recordedCount.toNat =
      min latencies.length detailedRecordCount := by
  induction latencies using List.reverseRecOn with
  | nil => rfl
  | append_singleton earlier l ih =>
    rw [List.foldl_append, List.foldl_cons, List.foldl_nil, recordLatency_recordedCount,
      List.length_append, List.length_singleton]
    split
    · rename_i hfree
      rw [toNat_add_one _ (Nat.lt_trans (Nat.succ_lt_succ hfree) (by decide)), ih]
      omega
    · omega

/-- After as many samples as wrap the message counter the recorders choose different slots. -/
theorem details_differ (limits : Fin 10 → UInt64) (n : ℕ) (hfull : detailedRecordCount ≤ n)
    (hwrapped : n % 2 ^ 64 = 0) (s : PerformanceStats)
    (hs : s = (List.replicate n 0).foldl recordLatency (freshStats limits)) :
    (recordMessageLatency s 0 0).recordedCount ≠ (recordLatency s 0).recordedCount := by
  have hcount : s.messageCount.toNat = 0 := by
    rw [hs, foldl_recordLatency, (counted_run (counted_fresh limits) _).messageCount,
      recorderCalls_latencies, List.length_map, List.length_replicate, hwrapped]
  have hrecorded : s.recordedCount.toNat = detailedRecordCount := by
    rw [hs, recordedCount_latencies, List.length_replicate]
    omega
  have hmessage := ((fillsSlot_recordMessageLatency s 0 0).filled
    (by rw [hcount]; decide)).1
  rw [hmessage, recordLatency_recordedCount, if_neg (by omega)]
  intro hsame
  have hnat := congrArg UInt64.toNat hsame
  rw [toNat_add_one_mod, hcount, hrecorded] at hnat
  exact absurd hnat (by decide)

/-- A latency of one microsecond is in the first row of one histogram and in the second row of
the other; after 2^64 samples the next one has a slot in one recorder only. -/
theorem recorders_differ :
    (recordMessageLatency createPerformanceStats 0 1000).latencyBuckets ≠
        (recordLatency createPerformanceStats 1000).latencyBuckets ∧
      (recordMessageLatency ((List.replicate 18446744073709551616 0).foldl recordLatency
          createPerformanceStats) 0 0).recordedCount ≠
        (recordLatency ((List.replicate 18446744073709551616 0).foldl recordLatency
          createPerformanceStats) 0).recordedCount := by
  constructor
  · intro hsame
    exact absurd (congrFun hsame 0) (by decide)
  · exact details_differ _ 18446744073709551616 (by decide) (by decide) _ rfl

end AeronFast.RecorderAgreement
