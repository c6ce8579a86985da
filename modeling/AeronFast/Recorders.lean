import AeronFast.CommonTypes
import AeronFast.WordArithmetic
import Mathlib.Data.Fin.VecNotation

/-!
The statistics object of `performance_stats.c` and its two recorders, run
without interference. The counters, the detail arrays and the ten latency
buckets are kept as the source keeps them; slot `k` of a detail array is the
value of its function at `k`. Undisturbed, the first compare-and-swap of each
retry loop succeeds, so a loop is one conditional update here.
-/
namespace AeronFast.Recorders

open CommonTypes WordArithmetic

def detailedRecordCount : ℕ := 1000

structure PerformanceStats where
  messageCount : UInt64
  totalLatency : UInt64
  minLatency : UInt64
  maxLatency : UInt64
  backPressureCount : UInt64
  retryCount : UInt64
  sendTimes : ℕ → TimestampNs
  receiveTimes : ℕ → TimestampNs
  latencies : ℕ → TimestampNs
  recordedCount : UInt64
  firstMessageTime : TimestampNs
  lastMessageTime : TimestampNs
  minLatencyMessageIndex : UInt64
  minLatencySendTime : TimestampNs
  minLatencyReceiveTime : TimestampNs
  latencyBuckets : Fin 10 → UInt64
  latencyBucketLimits : Fin 10 → UInt64

/-- All zero but the minimum, with the given bucket limits in microseconds. -/
def freshStats (limits : Fin 10 → UInt64) : PerformanceStats where
  messageCount := 0
  totalLatency := 0
  minLatency := uint64Max
  maxLatency := 0
  backPressureCount := 0
  retryCount := 0
  sendTimes := fun _ => 0
  receiveTimes := fun _ => 0
  latencies := fun _ => 0
  recordedCount := 0
  firstMessageTime := 0
  lastMessageTime := 0
  minLatencyMessageIndex := 0
  minLatencySendTime := 0
  minLatencyReceiveTime := 0
  latencyBuckets := fun _ => 0
  latencyBucketLimits := limits

def initPerformanceStats : PerformanceStats :=
  freshStats ![1, 5, 10, 20, 50, 100, 500, 1000, 10000, uint64Max]

def createPerformanceStats : PerformanceStats :=
  freshStats ![1, 5, 10, 50, 100, 500, 1000, 5000, 10000, uint64Max]

/-- The first bucket whose limit passes the recorder's test. -/
def findBucket (test : UInt64 → Bool) (limits : Fin 10 → UInt64) : Option (Fin 10) :=
  (List.finRange 10).find? (fun i => test (limits i))

/-- `record_latency` compares strictly. -/
def latencyBucket (limits : Fin 10 → UInt64) (latency : UInt64) : Option (Fin 10) :=
  findBucket (fun limit => latency / 1000 < limit) limits

/-- `record_message_latency` compares with equality allowed. -/
def messageLatencyBucket (limits : Fin 10 → UInt64) (latency : UInt64) : Option (Fin 10) :=
  findBucket (fun limit => latency / 1000 ≤ limit) limits

def bumpBucket (buckets : Fin 10 → UInt64) : Option (Fin 10) → Fin 10 → UInt64
  | some i => bump buckets i
  | none => buckets

namespace PerformanceStats

def countMessage (s : PerformanceStats) : PerformanceStats :=
  { s with messageCount := s.messageCount + 1 }

def addLatency (s : PerformanceStats) (latency : UInt64) : PerformanceStats :=
  { s with totalLatency := s.totalLatency + latency }

def lowerMin (s : PerformanceStats) (latency : UInt64) : PerformanceStats :=
  { s with minLatency := if latency < s.minLatency then latency else s.minLatency }

def raiseMax (s : PerformanceStats) (latency : UInt64) : PerformanceStats :=
  { s with maxLatency := if s.maxLatency < latency then latency else s.maxLatency }

def addToBucket (s : PerformanceStats) (bucket : Option (Fin 10)) : PerformanceStats :=
  { s with latencyBuckets := bumpBucket s.latencyBuckets bucket }

/-- Reserve the next slot of the detail array, while there is one, and fill it. -/
def recordDetail (s : PerformanceStats) (latency : UInt64) : PerformanceStats :=
  { s with
    recordedCount :=
      if s.recordedCount.toNat < detailedRecordCount then s.recordedCount + 1
      else s.recordedCount
    latencies :=
      if s.recordedCount.toNat < detailedRecordCount then
        Function.update s.latencies s.recordedCount.toNat latency
      else s.latencies }

end PerformanceStats

def recordLatency (s : PerformanceStats) (latency : UInt64) : PerformanceStats :=
  let s := s.countMessage
  let s := s.addLatency latency
  let s := s.lowerMin latency
  let s := s.raiseMax latency
  let s := s.addToBucket (latencyBucket s.latencyBucketLimits latency)
  s.recordDetail latency

/-- The details of a message: its times and latency, while there is a slot for its index. -/
def PerformanceStats.recordMessageDetail (s : PerformanceStats) (messageIndex : UInt64)
    (sendTime receiveTime : TimestampNs) : PerformanceStats :=
  if messageIndex.toNat < detailedRecordCount then
    { s with
      sendTimes := Function.update s.sendTimes messageIndex.toNat sendTime
      receiveTimes := Function.update s.receiveTimes messageIndex.toNat receiveTime
      latencies := Function.update s.latencies messageIndex.toNat (receiveTime - sendTime)
      recordedCount := messageIndex + 1 }
  else s

/-- A new minimum brings the details of its message with it. -/
def PerformanceStats.lowerMessageMin (s : PerformanceStats) (messageIndex : UInt64)
    (sendTime receiveTime : TimestampNs) : PerformanceStats :=
  if receiveTime - sendTime < s.minLatency then
    { s with
      minLatency := receiveTime - sendTime
      minLatencyMessageIndex := messageIndex + 1
      minLatencySendTime := sendTime
      minLatencyReceiveTime := receiveTime }
  else s

def recordMessageLatency (s : PerformanceStats) (sendTime receiveTime : TimestampNs) :
    PerformanceStats :=
  let latency := receiveTime - sendTime
  let messageIndex := s.messageCount
  let s := s.countMessage
  let s := { s with
    firstMessageTime := if messageIndex = 0 then receiveTime else s.firstMessageTime
    lastMessageTime := receiveTime }
  let s := s.addLatency latency
  let s := s.lowerMessageMin messageIndex sendTime receiveTime
  let s := s.raiseMax latency
  let s := s.recordMessageDetail messageIndex sendTime receiveTime
  s.addToBucket (messageLatencyBucket s.latencyBucketLimits latency)

def recordBackPressure (s : PerformanceStats) : PerformanceStats :=
  { s with backPressureCount := s.backPressureCount + 1 }

def recordRetry (s : PerformanceStats) : PerformanceStats :=
  { s with retryCount := s.retryCount + 1 }

def rangeLabels : Fin 10 → String :=
  ![ "< 1μs", "< 5μs", "< 10μs", "< 50μs", "< 100μs", "< 500μs", "< 1ms", "< 5ms", "< 10ms",
    ">= 10ms"]

/-- A printed line of the distribution, without its percentage. -/
structure DistributionRow where
  label : String
  count : UInt64
  deriving DecidableEq, Repr

/-- The rows from top to bottom, none when the object has no samples to show. -/
def printLatencyDistribution (s : PerformanceStats) : Option (Fin 10 → DistributionRow) :=
  if s.messageCount = 0 then none
  else some (fun i => ⟨rangeLabels i, s.latencyBuckets i⟩)

/-- The rows can be named by numerals. -/
instance neZero_rows : NeZero (10 : ℕ) := ⟨by decide⟩

/-- The label of a row of the summary, which names the limits of the object itself. -/
def summaryLabel (limits : Fin 10 → UInt64) (i : Fin 10) : String :=
  if i = 9 then "> " ++ toString (limits 8).toNat ++ " μs"
  else "≤ " ++ toString (limits i).toNat ++ " μs"

/-- The part of the summary that depends on the role. -/
inductive RoleSummary
  | latencies (totalLatency minLatency minLatencyMessageIndex maxLatency : UInt64)
      (rows : Fin 10 → DistributionRow)
  | sending (backPressureCount retryCount : UInt64)

/-- The words that `print_performance_summary` prints or computes its decimal figures from. -/
structure PerformanceSummary where
  role : String
  finalCount : UInt64
  messageSize : UInt64
  timeSpanNs : TimestampNs
  details : RoleSummary

def printPerformanceSummary (s : PerformanceStats) (config : Config) (role : String) :
    PerformanceSummary where
  role := role
  finalCount := s.messageCount
  messageSize := config.messageSize
  timeSpanNs := s.lastMessageTime - s.firstMessageTime
  details :=
    if role = "Subscriber" then
      .latencies s.totalLatency s.minLatency s.minLatencyMessageIndex s.maxLatency
        (fun i => ⟨summaryLabel s.latencyBucketLimits i, s.latencyBuckets i⟩)
    else .sending s.backPressureCount s.retryCount

@[simp] theorem recordLatency_minLatency (s : PerformanceStats) (l : UInt64) :
    (recordLatency s l).minLatency = if l < s.minLatency then l else s.minLatency := rfl

@[simp] theorem recordLatency_maxLatency (s : PerformanceStats) (l : UInt64) :
    (recordLatency s l).maxLatency = if s.maxLatency < l then l else s.maxLatency := rfl

@[simp] theorem recordLatency_latencyBuckets (s : PerformanceStats) (l : UInt64) :
    (recordLatency s l).latencyBuckets =
      bumpBucket s.latencyBuckets (latencyBucket s.latencyBucketLimits l) := rfl

@[simp] theorem recordLatency_recordedCount (s : PerformanceStats) (l : UInt64) :
    (recordLatency s l).recordedCount =
      if s.recordedCount.toNat < detailedRecordCount then s.recordedCount + 1
      else s.recordedCount := rfl

@[simp] theorem recordLatency_latencies (s : PerformanceStats) (l : UInt64) :
    (recordLatency s l).latencies =
      if s.recordedCount.toNat < detailedRecordCount then
        Function.update s.latencies s.recordedCount.toNat l
      else s.latencies := rfl

/-- Field by field, with the test on the minimum in each field it guards. -/
theorem PerformanceStats.lowerMessageMin_eq (s : PerformanceStats) (index : UInt64)
    (sendTime receiveTime : TimestampNs) :
    s.lowerMessageMin index sendTime receiveTime =
      { s with
        minLatency :=
          if receiveTime - sendTime < s.minLatency then receiveTime - sendTime else s.minLatency
        minLatencyMessageIndex :=
          if receiveTime - sendTime < s.minLatency then index + 1 else s.minLatencyMessageIndex
        minLatencySendTime :=
          if receiveTime - sendTime < s.minLatency then sendTime else s.minLatencySendTime
        minLatencyReceiveTime :=
          if receiveTime - sendTime < s.minLatency then receiveTime
          else s.minLatencyReceiveTime } := by
  unfold lowerMessageMin
  split
  · rfl
  · rfl

/-- The bounds a running minimum and maximum of the latencies satisfy. -/
structure Extremes (low high : UInt64) (samples : List UInt64) : Prop where
  low_le : ∀ l ∈ samples, low ≤ l
  low_mem : low = uint64Max ∨ low ∈ samples
  le_high : ∀ l ∈ samples, l ≤ high
  high_mem : high = 0 ∨ high ∈ samples

theorem extremes_nil : Extremes uint64Max 0 [] :=
  ⟨by simp, Or.inl rfl, by simp, Or.inl rfl⟩

theorem extremes_snoc {low high : UInt64} {samples : List UInt64} (l : UInt64)
    (h : Extremes low high samples) :
    Extremes (if l < low then l else low) (if high < l then l else high) (samples ++ [l]) := by
  refine ⟨?_, ?_, ?_, ?_⟩
  · intro a ha
    rcases List.mem_append.mp ha with hold | hnew
    · have hle := h.low_le a hold
      split
      · rename_i hlt
        exact UInt64.le_of_lt (UInt64.lt_of_lt_of_le hlt hle)
      · exact hle
    · rw [List.mem_singleton.mp hnew]
      split
      · exact UInt64.le_refl l
      · rename_i hnot
        exact UInt64.not_lt.mp hnot
  · split
    · exact Or.inr (by simp)
    · rcases h.low_mem with hmax | hmem
      · exact Or.inl hmax
      · exact Or.inr (by simp [hmem])
  · intro a ha
    rcases List.mem_append.mp ha with hold | hnew
    · have hle := h.le_high a hold
      split
      · rename_i hlt
        exact UInt64.le_trans hle (UInt64.le_of_lt hlt)
      · exact hle
    · rw [List.mem_singleton.mp hnew]
      split
      · exact UInt64.le_refl l
      · rename_i hnot
        exact UInt64.not_lt.mp hnot
  · split
    · exact Or.inr (by simp)
    · rcases h.high_mem with hzero | hmem
      · exact Or.inl hzero
      · exact Or.inr (by simp [hmem])

/-- Of a non-empty list the bounds are attained. -/
theorem extremes_attained {low high : UInt64} {samples : List UInt64}
    (h : Extremes low high samples) (hne : samples ≠ []) : low ∈ samples ∧ high ∈ samples := by
  obtain ⟨l, hl⟩ := List.exists_mem_of_ne_nil samples hne
  constructor
  · rcases h.low_mem with hmax | hmem
    · have hsame : low = l := by
        apply UInt64.le_antisymm (h.low_le l hl)
        rw [hmax]
        exact le_uint64Max l
      rw [hsame]
      exact hl
    · exact hmem
  · rcases h.high_mem with hzero | hmem
    · have hsame : high = l := by
        apply UInt64.le_antisymm _ (h.le_high l hl)
        rw [hzero]
        exact UInt64.zero_le
      rw [hsame]
      exact hl
    · exact hmem

theorem findBucket_isSome (test : UInt64 → Bool) (limits : Fin 10 → UInt64)
    (h : test (limits 9) = true) : ∃ i, findBucket test limits = some i := by
  apply Option.isSome_iff_exists.mp
  apply List.find?_isSome.mpr
  exact ⟨9, List.mem_finRange 9, h⟩

/-- Microseconds stay below the sentinel limit, so every latency has a bucket. -/
theorem micros_lt (l : UInt64) : l / 1000 < uint64Max := by
  have hl := word_lt l
  rw [UInt64.lt_iff_toNat_lt, UInt64.toNat_div]
  change l.toNat / 1000 < 18446744073709551615
  omega

theorem exists_latencyBucket (limits : Fin 10 → UInt64) (h : limits 9 = uint64Max) (l : UInt64) :
    ∃ i, latencyBucket limits l = some i := by
  apply findBucket_isSome
  rw [h]
  exact decide_eq_true (micros_lt l)

theorem exists_messageLatencyBucket (limits : Fin 10 → UInt64) (h : limits 9 = uint64Max)
    (l : UInt64) : ∃ i, messageLatencyBucket limits l = some i := by
  apply findBucket_isSome
  rw [h]
  exact decide_eq_true (UInt64.le_of_lt (micros_lt l))

end AeronFast.Recorders
