import AeronFast.LockFreeAggregates
import Mathlib.Data.List.Induction

/-!
The statistics object as a summary of the samples recorded one after another.
The two recorders find the slot of a sample in different ways, one reserves
the next free slot and the other takes the message index; that a mixed run
stays correct rests on the two counters going up together until the slots are
used up. The memory behind the arrays is arbitrary and stays as it was.
-/
namespace AeronFast.SampleSummary

open CommonTypes WordArithmetic Recorders AtomicRecorders LockFreeAggregates

inductive StatsCall
  | sample (call : Call)
  | backPressure
  | retry
  deriving DecidableEq, Repr

/-- The recorder of a sample, run to its end. -/
def recordCall (s : PerformanceStats) : Call → PerformanceStats
  | .recordLatency latencyNs => recordLatency s latencyNs
  | .recordMessageLatency sendTime receiveTime => recordMessageLatency s sendTime receiveTime

/-- Undisturbed, the atomic steps of a call compute its recorder. -/
theorem solo_recordCall (s : PerformanceStats) (call : Call) :
    Interleaving.Solo advance call s .addMessageCount (recordCall s call) := by
  cases call with
  | recordLatency l => exact solo_recordLatency s l
  | recordMessageLatency sendTime receiveTime =>
    exact solo_recordMessageLatency s sendTime receiveTime

/-- Samples recorded one after another are one of the runs of the threads. -/
theorem sequential_run {T : Type*} [DecidableEq T] (s : PerformanceStats) (calls : List Call)
    (t : T) :
    ∃ actions : List (Interleaving.Action T Call), Interleaving.callsOf actions = calls ∧
      LabelledRuns.Run (RecorderStep T) (Interleaving.idle s) actions
        (Interleaving.idle (calls.foldl recordCall s)) := by
  induction calls generalizing s with
  | nil => exact ⟨[], rfl, .nil _⟩
  | cons call rest ih =>
    obtain ⟨first, hfirst, hrun⟩ := Interleaving.solo_run (solo_recordCall s call) t
    obtain ⟨later, hlater, hrest⟩ := ih (recordCall s call)
    refine ⟨first ++ later, ?_, hrun.append hrest⟩
    rw [Interleaving.callsOf, List.filterMap_append, ← Interleaving.callsOf,
      ← Interleaving.callsOf, hfirst, hlater, List.singleton_append]

def applyCall (s : PerformanceStats) : StatsCall → PerformanceStats
  | .sample call => recordCall s call
  | .backPressure => recordBackPressure s
  | .retry => recordRetry s

def callOf : StatsCall → Option Call
  | .sample call => some call
  | _ => none

/-- The recorder calls of a sequence, oldest first. -/
def recorderCalls (calls : List StatsCall) : List Call := calls.filterMap callOf

/-- The recorded latencies, oldest first. -/
def samples (calls : List StatsCall) : List UInt64 := (recorderCalls calls).map Call.latency

/-- The object in memory: behind its three arrays stands whatever stands there. -/
def placed (s : PerformanceStats) (memory : ℕ → TimestampNs) : PerformanceStats :=
  { s with
    sendTimes := fun k => if k < detailedRecordCount then s.sendTimes k else memory k
    receiveTimes := fun k => if k < detailedRecordCount then s.receiveTimes k else memory k
    latencies := fun k => if k < detailedRecordCount then s.latencies k else memory k }

/-- The two counters go up together until the slots are used up. -/
def Lockstep (s : PerformanceStats) : Prop :=
  s.recordedCount.toNat = min s.messageCount.toNat detailedRecordCount

/-- What a recorder does to the aggregates with one sample. -/
structure Counts (s : PerformanceStats) (call : Call) (t : PerformanceStats) : Prop where
  messageCount : t.messageCount = s.messageCount + 1
  totalLatency : t.totalLatency = s.totalLatency + call.latency
  minLatency : t.minLatency = if call.latency < s.minLatency then call.latency else s.minLatency
  maxLatency : t.maxLatency = if s.maxLatency < call.latency then call.latency else s.maxLatency
  latencyBuckets : t.latencyBuckets =
    bumpBucket s.latencyBuckets (call.bucket s.latencyBucketLimits)
  latencyBucketLimits : t.latencyBucketLimits = s.latencyBucketLimits
  backPressureCount : t.backPressureCount = s.backPressureCount
  retryCount : t.retryCount = s.retryCount

theorem counts_recordCall (s : PerformanceStats) (call : Call) :
    Counts s call (recordCall s call) := by
  cases call with
  | recordLatency l => exact ⟨rfl, rfl, rfl, rfl, rfl, rfl, rfl, rfl⟩
  | recordMessageLatency sendTime receiveTime =>
    simp only [recordCall, recordMessageLatency, PerformanceStats.lowerMessageMin_eq,
      PerformanceStats.recordMessageDetail]
    split
    · exact ⟨rfl, rfl, rfl, rfl, rfl, rfl, rfl, rfl⟩
    · exact ⟨rfl, rfl, rfl, rfl, rfl, rfl, rfl, rfl⟩

/-- The next free slot is filled, while there is one; nothing behind the arrays is written. -/
structure FillsSlot (s : PerformanceStats) (l : UInt64) (t : PerformanceStats) : Prop where
  filled : s.messageCount.toNat < detailedRecordCount → t.recordedCount = s.messageCount + 1 ∧
    t.latencies = Function.update s.latencies s.messageCount.toNat l
  full : detailedRecordCount ≤ s.messageCount.toNat → t.recordedCount = s.recordedCount ∧
    t.latencies = s.latencies
  behind : ∀ k, detailedRecordCount ≤ k →
    t.sendTimes k = s.sendTimes k ∧ t.receiveTimes k = s.receiveTimes k

/-- In lockstep the slot that is reserved is the one of the message index. -/
theorem fillsSlot_recordLatency (s : PerformanceStats) (hlock : Lockstep s) (l : UInt64) :
    FillsSlot s l (recordLatency s l) := by
  unfold Lockstep at hlock
  refine ⟨?_, ?_, fun _ _ => ⟨rfl, rfl⟩⟩
  · intro hfree
    have hsame : s.recordedCount = s.messageCount := by
      apply UInt64.toNat_inj.mp
      omega
    rw [recordLatency_recordedCount, recordLatency_latencies, hsame, if_pos hfree, if_pos hfree]
    exact ⟨rfl, rfl⟩
  · intro hfull
    have hnot : ¬ s.recordedCount.toNat < detailedRecordCount := by omega
    rw [recordLatency_recordedCount, recordLatency_latencies, if_neg hnot, if_neg hnot]
    exact ⟨rfl, rfl⟩

theorem fillsSlot_recordMessageLatency (s : PerformanceStats)
    (sendTime receiveTime : TimestampNs) :
    FillsSlot s (receiveTime - sendTime) (recordMessageLatency s sendTime receiveTime) := by
  simp only [recordMessageLatency, PerformanceStats.lowerMessageMin_eq,
    PerformanceStats.recordMessageDetail]
  split
  · rename_i hfree
    refine ⟨fun _ => ⟨rfl, rfl⟩, fun hfull => absurd hfree (Nat.not_lt.mpr hfull), ?_⟩
    intro k hk
    have hne : k ≠ s.messageCount.toNat := by
      change s.messageCount.toNat < detailedRecordCount at hfree
      omega
    exact ⟨Function.update_of_ne hne _ _, Function.update_of_ne hne _ _⟩
  · rename_i hnot
    exact ⟨fun hfree => absurd hfree hnot, fun _ => ⟨rfl, rfl⟩, fun _ _ => ⟨rfl, rfl⟩⟩

theorem fillsSlot_recordCall (s : PerformanceStats) (hlock : Lockstep s) (call : Call) :
    FillsSlot s call.latency (recordCall s call) := by
  cases call with
  | recordLatency l => exact fillsSlot_recordLatency s hlock l
  | recordMessageLatency sendTime receiveTime =>
    exact fillsSlot_recordMessageLatency s sendTime receiveTime

section Aggregates

/-- The aggregates of a run of any length, each counter modulo the word size. -/
structure Counted (limits : Fin 10 → UInt64) (calls : List StatsCall) (s : PerformanceStats) :
    Prop where
  messageCount : s.messageCount.toNat = (recorderCalls calls).length % 2 ^ 64
  totalLatency : s.totalLatency.toNat = wordSum (samples calls) % 2 ^ 64
  extremes : Extremes s.minLatency s.maxLatency (samples calls)
  latencyBucketLimits : s.latencyBucketLimits = limits
  latencyBuckets : ∀ i, (s.latencyBuckets i).toNat =
    (recorderCalls calls).countP (fun call => call.bucket limits = some i) % 2 ^ 64
  backPressureCount : s.backPressureCount.toNat = calls.count .backPressure % 2 ^ 64
  retryCount : s.retryCount.toNat = calls.count .retry % 2 ^ 64

theorem recorderCalls_sample (calls : List StatsCall) (call : Call) :
    recorderCalls (calls ++ [.sample call]) = recorderCalls calls ++ [call] := by
  simp [recorderCalls, callOf]

theorem recorderCalls_other (calls : List StatsCall) (other : StatsCall)
    (h : callOf other = none) : recorderCalls (calls ++ [other]) = recorderCalls calls := by
  simp [recorderCalls, h]

theorem samples_sample (calls : List StatsCall) (call : Call) :
    samples (calls ++ [.sample call]) = samples calls ++ [call.latency] := by
  simp [samples, recorderCalls_sample]

theorem samples_other (calls : List StatsCall) (other : StatsCall)
    (h : callOf other = none) : samples (calls ++ [other]) = samples calls := by
  rw [samples, recorderCalls_other calls other h, samples]

/-- Only the bucket of the call goes up. -/
theorem bumpBucket_count (buckets : Fin 10 → UInt64) (chosen : Option (Fin 10)) (i : Fin 10)
    (n : ℕ) (h : (buckets i).toNat = n % 2 ^ 64) :
    (bumpBucket buckets chosen i).toNat = (n + if chosen = some i then 1 else 0) % 2 ^ 64 := by
  cases chosen with
  | none => simpa [bumpBucket] using h
  | some j =>
    by_cases hj : i = j
    · subst hj
      simp only [bumpBucket, bump, Function.update_self, if_true]
      exact total_add _ 1 n h
    · have hne : some j ≠ some i := by
        intro heq
        exact hj (Option.some.inj heq).symm
      simp only [bumpBucket, bump, Function.update_of_ne hj, if_neg hne]
      exact h

theorem counted_fresh (limits : Fin 10 → UInt64) : Counted limits [] (freshStats limits) :=
  ⟨rfl, rfl, extremes_nil, rfl, fun _ => rfl, rfl, rfl⟩

theorem counted_placed {limits : Fin 10 → UInt64} {calls : List StatsCall} {s : PerformanceStats}
    (h : Counted limits calls s) (memory : ℕ → TimestampNs) :
    Counted limits calls (placed s memory) := by
  obtain ⟨hcount, htotal, hextremes, hlimits, hbuckets, hbackPressure, hretry⟩ := h
  exact ⟨hcount, htotal, hextremes, hlimits, hbuckets, hbackPressure, hretry⟩

theorem counted_sample {limits : Fin 10 → UInt64} {calls : List StatsCall} {s : PerformanceStats}
    (h : Counted limits calls s) (call : Call) :
    Counted limits (calls ++ [.sample call]) (recordCall s call) := by
  have hc := counts_recordCall s call
  refine ⟨?_, ?_, ?_, ?_, ?_, ?_, ?_⟩
  · rw [hc.messageCount, recorderCalls_sample, List.length_append]
    exact total_add _ 1 _ h.messageCount
  · rw [hc.totalLatency, samples_sample, wordSum_append, wordSum_singleton]
    exact total_add _ _ _ h.totalLatency
  · rw [hc.minLatency, hc.maxLatency, samples_sample]
    exact extremes_snoc call.latency h.extremes
  · rw [hc.latencyBucketLimits, h.latencyBucketLimits]
  · intro i
    rw [hc.latencyBuckets, bumpBucket_count _ _ i _ (h.latencyBuckets i), recorderCalls_sample,
      List.countP_append, h.latencyBucketLimits]
    simp [List.countP_singleton]
  · rw [hc.backPressureCount, List.count_append, h.backPressureCount]
    simp
  · rw [hc.retryCount, List.count_append, h.retryCount]
    simp

/-- The other two calls have a counter each and leave the samples alone. -/
theorem counted_other {limits : Fin 10 → UInt64} {calls : List StatsCall} {s : PerformanceStats}
    (h : Counted limits calls s) (other : StatsCall) (hother : callOf other = none)
    (backPressures retries : UInt64)
    (hb : backPressures.toNat = (calls ++ [other]).count .backPressure % 2 ^ 64)
    (hr : retries.toNat = (calls ++ [other]).count .retry % 2 ^ 64) :
    Counted limits (calls ++ [other])
      { s with backPressureCount := backPressures, retryCount := retries } := by
  refine ⟨?_, ?_, ?_, h.latencyBucketLimits, ?_, hb, hr⟩
  · rw [recorderCalls_other calls other hother]
    exact h.messageCount
  · rw [samples_other calls other hother]
    exact h.totalLatency
  · rw [samples_other calls other hother]
    exact h.extremes
  · rw [recorderCalls_other calls other hother]
    exact h.latencyBuckets

theorem counted_applyCall {limits : Fin 10 → UInt64} {calls : List StatsCall}
    {s : PerformanceStats} (h : Counted limits calls s) (call : StatsCall) :
    Counted limits (calls ++ [call]) (applyCall s call) := by
  cases call with
  | sample call => exact counted_sample h call
  | backPressure =>
    apply counted_other h .backPressure rfl
    · rw [List.count_append]
      exact total_add _ 1 _ h.backPressureCount
    · rw [List.count_append]
      exact h.retryCount
  | retry =>
    apply counted_other h .retry rfl
    · rw [List.count_append]
      exact h.backPressureCount
    · rw [List.count_append]
      exact total_add _ 1 _ h.retryCount

theorem counted_run {limits : Fin 10 → UInt64} {initial : PerformanceStats}
    (h : Counted limits [] initial) (calls : List StatsCall) :
    Counted limits calls (calls.foldl applyCall initial) := by
  induction calls using List.reverseRecOn with
  | nil => exact h
  | append_singleton earlier call ih =>
    rw [List.foldl_append]
    exact counted_applyCall ih call

end Aggregates

section Details

/-- The slots hold the samples in order, and the memory behind the arrays is untouched. -/
structure Detailed (memory : ℕ → TimestampNs) (calls : List StatsCall) (s : PerformanceStats) :
    Prop where
  lockstep : Lockstep s
  slots : ∀ k < detailedRecordCount, k < (samples calls).length →
    (samples calls)[k]? = some (s.latencies k)
  behind : ∀ k, detailedRecordCount ≤ k →
    s.sendTimes k = memory k ∧ s.receiveTimes k = memory k ∧ s.latencies k = memory k

theorem length_recorderCalls_le (calls : List StatsCall) :
    (recorderCalls calls).length ≤ calls.length := List.length_filterMap_le _ _

theorem length_samples (calls : List StatsCall) :
    (samples calls).length = (recorderCalls calls).length := List.length_map _

theorem detailed_fresh (limits : Fin 10 → UInt64) (memory : ℕ → TimestampNs) :
    Detailed memory [] (placed (freshStats limits) memory) := by
  refine ⟨rfl, ?_, ?_⟩
  · intro k _ hk
    exact absurd hk (Nat.not_lt_zero k)
  · intro k hk
    have hnot : ¬ k < detailedRecordCount := Nat.not_lt.mpr hk
    exact ⟨if_neg hnot, if_neg hnot, if_neg hnot⟩

theorem lockstep_sample {s : PerformanceStats} (hlock : Lockstep s) (call : Call)
    (hfits : s.messageCount.toNat + 1 < 2 ^ 64) : Lockstep (recordCall s call) := by
  have hfill := fillsSlot_recordCall s hlock call
  have hcount : (recordCall s call).messageCount.toNat = s.messageCount.toNat + 1 := by
    rw [(counts_recordCall s call).messageCount]
    exact toNat_add_one _ hfits
  unfold Lockstep at hlock ⊢
  rw [hcount]
  by_cases hfree : s.messageCount.toNat < detailedRecordCount
  · rw [(hfill.filled hfree).1, toNat_add_one _ hfits]
    omega
  · rw [(hfill.full (Nat.not_lt.mp hfree)).1, hlock]
    omega

/-- The sample goes to the slot of its number, which is behind the samples before it. -/
theorem detailed_sample {memory : ℕ → TimestampNs} {calls : List StatsCall}
    {s : PerformanceStats} (h : Detailed memory calls s) (call : Call)
    (hcount : s.messageCount.toNat = (samples calls).length)
    (hfits : s.messageCount.toNat + 1 < 2 ^ 64) :
    Detailed memory (calls ++ [.sample call]) (recordCall s call) := by
  have hfill := fillsSlot_recordCall s h.lockstep call
  refine ⟨lockstep_sample h.lockstep call hfits, ?_, ?_⟩
  · intro k hk hlen
    rw [samples_sample] at hlen ⊢
    rw [List.length_append, List.length_singleton] at hlen
    by_cases hlast : k = (samples calls).length
    · have hslot := (hfill.filled (by omega)).2
      rw [hslot, hlast, hcount, Function.update_self, List.getElem?_concat_length]
    · have hold : k < (samples calls).length := by omega
      rw [List.getElem?_append_left hold, h.slots k hk hold]
      by_cases hfree : s.messageCount.toNat < detailedRecordCount
      · rw [(hfill.filled hfree).2, hcount, Function.update_of_ne hlast]
      · rw [(hfill.full (Nat.not_lt.mp hfree)).2]
  · intro k hk
    obtain ⟨hsend, hreceive, hlatency⟩ := h.behind k hk
    obtain ⟨hsend', hreceive'⟩ := hfill.behind k hk
    refine ⟨hsend'.trans hsend, hreceive'.trans hreceive, ?_⟩
    by_cases hfree : s.messageCount.toNat < detailedRecordCount
    · rw [(hfill.filled hfree).2, Function.update_of_ne (by omega)]
      exact hlatency
    · rw [(hfill.full (Nat.not_lt.mp hfree)).2]
      exact hlatency

theorem detailed_other {memory : ℕ → TimestampNs} {calls : List StatsCall}
    {s : PerformanceStats} (h : Detailed memory calls s) (other : StatsCall)
    (hother : callOf other = none) (backPressures retries : UInt64) :
    Detailed memory (calls ++ [other])
      { s with backPressureCount := backPressures, retryCount := retries } := by
  refine ⟨h.lockstep, ?_, h.behind⟩
  rw [samples_other calls other hother]
  exact h.slots

theorem detailed_run (limits : Fin 10 → UInt64) (memory : ℕ → TimestampNs)
    (calls : List StatsCall) (hcalls : (recorderCalls calls).length < 2 ^ 64) :
    Detailed memory calls (calls.foldl applyCall (placed (freshStats limits) memory)) := by
  induction calls using List.reverseRecOn with
  | nil => exact detailed_fresh limits memory
  | append_singleton earlier call ih =>
    rw [List.foldl_append]
    cases call with
    | sample call =>
      rw [recorderCalls_sample, List.length_append, List.length_singleton] at hcalls
      have hcount := (counted_run (counted_placed (counted_fresh limits) memory)
        earlier).messageCount
      rw [Nat.mod_eq_of_lt (by omega)] at hcount
      apply detailed_sample (ih (by omega)) call
      · rw [hcount, length_samples]
      · omega
    | backPressure =>
      rw [recorderCalls_other _ _ rfl] at hcalls
      exact detailed_other (ih hcalls) .backPressure rfl _ _
    | retry =>
      rw [recorderCalls_other _ _ rfl] at hcalls
      exact detailed_other (ih hcalls) .retry rfl _ _

end Details

/-- The object says of the samples what its fields are named after. -/
structure Summary (limits : Fin 10 → UInt64) (memory : ℕ → TimestampNs)
    (calls : List StatsCall) (s : PerformanceStats) : Prop where
  aggregates : AggregatesExact (recorderCalls calls) s
  oneBucket : ∀ call ∈ recorderCalls calls, ∃ i, call.bucket limits = some i
  latencyBuckets : ∀ i, (s.latencyBuckets i).toNat =
    (recorderCalls calls).countP (fun call => call.bucket limits = some i)
  recordedCount : s.recordedCount.toNat = min (samples calls).length detailedRecordCount
  latencies : ∀ k < s.recordedCount.toNat, (samples calls)[k]? = some (s.latencies k)
  behind : ∀ k, detailedRecordCount ≤ k →
    s.sendTimes k = memory k ∧ s.receiveTimes k = memory k ∧ s.latencies k = memory k
  backPressureCount : s.backPressureCount.toNat = calls.count .backPressure
  retryCount : s.retryCount.toNat = calls.count .retry

theorem aggregates_of_counted {limits : Fin 10 → UInt64} {calls : List StatsCall}
    {s : PerformanceStats} (hlimit : limits 9 = uint64Max) (h : Counted limits calls s)
    (hcalls : (recorderCalls calls).length < 2 ^ 64)
    (hbuckets : ∀ i, (s.latencyBuckets i).toNat =
      (recorderCalls calls).countP (fun call => call.bucket limits = some i)) :
    AggregatesExact (recorderCalls calls) s := by
  apply exact_of_extremes _ h.totalLatency h.extremes
  · rw [Finset.sum_congr rfl (fun i _ => hbuckets i)]
    exact sum_countP (fun call => call.bucket limits) (recorderCalls calls)
      (fun call _ => exists_bucket limits hlimit call)
  · rw [h.messageCount, Nat.mod_eq_of_lt hcalls]

theorem summary_of_fresh (limits : Fin 10 → UInt64) (hlimit : limits 9 = uint64Max)
    (memory : ℕ → TimestampNs) (calls : List StatsCall) (hcalls : calls.length < 2 ^ 64) :
    Summary limits memory calls
      (calls.foldl applyCall (placed (freshStats limits) memory)) := by
  have hcounted := counted_run (counted_placed (counted_fresh limits) memory) calls
  have hrecorder : (recorderCalls calls).length < 2 ^ 64 :=
    Nat.lt_of_le_of_lt (length_recorderCalls_le calls) hcalls
  have hdetailed := detailed_run limits memory calls hrecorder
  -- fewer calls than the word size: no counter has wrapped
  have hbuckets : ∀ i,
      ((calls.foldl applyCall (placed (freshStats limits) memory)).latencyBuckets i).toNat =
        (recorderCalls calls).countP (fun call => call.bucket limits = some i) := by
    intro i
    rw [hcounted.latencyBuckets i]
    exact Nat.mod_eq_of_lt (Nat.lt_of_le_of_lt List.countP_le_length hrecorder)
  have haggregates := aggregates_of_counted hlimit hcounted hrecorder hbuckets
  have hrecorded := hdetailed.lockstep
  rw [Lockstep, haggregates.messageCount, ← length_samples] at hrecorded
  refine ⟨haggregates, fun call _ => exists_bucket limits hlimit call, hbuckets, hrecorded, ?_,
    hdetailed.behind, ?_, ?_⟩
  · intro k hk
    exact hdetailed.slots k (by omega) (by omega)
  · rw [hcounted.backPressureCount]
    exact Nat.mod_eq_of_lt (Nat.lt_of_le_of_lt List.count_le_length hcalls)
  · rw [hcounted.retryCount]
    exact Nat.mod_eq_of_lt (Nat.lt_of_le_of_lt List.count_le_length hcalls)

/-- A fresh object of either kind, wherever it lies in memory, after any mix of fewer than 2^64
calls: the aggregates are those of the samples, each sample is in one bucket, the first thousand
stand in their slots in order, nothing outside the arrays is written, and back pressure and
retries are counted by themselves. -/
theorem summary_of_calls (initial : PerformanceStats)
    (hinitial : initial = createPerformanceStats ∨ initial = initPerformanceStats)
    (memory : ℕ → TimestampNs) (calls : List StatsCall) (hcalls : calls.length < 2 ^ 64) :
    Summary initial.latencyBucketLimits memory calls
      (calls.foldl applyCall (placed initial memory)) := by
  rcases hinitial with rfl | rfl
  · exact summary_of_fresh _ rfl memory calls hcalls
  · exact summary_of_fresh _ rfl memory calls hcalls

/-- A mixed run; the second sample is received before it was sent. -/
def mixedCalls : List StatsCall :=
  [.sample (.recordLatency 1500), .backPressure, .sample (.recordMessageLatency 10 3), .retry,
    .retry]

theorem mixedCalls_summary :
    samples mixedCalls = [1500, 18446744073709551609] ∧
      Summary createPerformanceStats.latencyBucketLimits UInt64.ofNat mixedCalls
        (mixedCalls.foldl applyCall (placed createPerformanceStats UInt64.ofNat)) :=
  ⟨by decide, summary_of_calls createPerformanceStats (Or.inl rfl) UInt64.ofNat mixedCalls
    (by decide)⟩

end AeronFast.SampleSummary
