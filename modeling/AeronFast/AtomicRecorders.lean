import AeronFast.Interleaving
import AeronFast.Recorders

/-!
The two recorders of `performance_stats.c` as sequences of atomic steps. A
step is one `__atomic` operation or one plain store on the shared object; the
tests on local values around it belong to the step before or at the head of
their loop. A failed compare-and-swap reads the value it met and goes round
the loop. Left alone, a call computes what the sequential recorder computes.
-/
namespace AeronFast.AtomicRecorders

open CommonTypes WordArithmetic LabelledRuns Interleaving Recorders

inductive Call
  | recordLatency (latencyNs : UInt64)
  | recordMessageLatency (sendTime receiveTime : TimestampNs)
  deriving DecidableEq, Repr

/-- The program points of both recorders. `index` is the counter's value before this call's
increment, which `record_latency` does not use. -/
inductive Pc
  | addMessageCount
  | storeFirstTime (index : UInt64)
  | storeLastTime (index : UInt64)
  | addTotalLatency (index : UInt64)
  | loadMin (index : UInt64)
  | minLoop (index currentMin : UInt64)
  | storeMinIndex (index : UInt64)
  | storeMinSendTime (index : UInt64)
  | storeMinReceiveTime (index : UInt64)
  | loadMax (index : UInt64)
  | maxLoop (index currentMax : UInt64)
  | storeSendTime (index : UInt64)
  | storeReceiveTime (index : UInt64)
  | storeMessageLatency (index : UInt64)
  | storeRecordedCount (index : UInt64)
  | addBucket
  | loadRecordedCount
  | casRecordedCount (currentCount : UInt64)
  | storeLatency (currentCount : UInt64)
  deriving DecidableEq, Repr

namespace Call

def latency : Call → UInt64
  | recordLatency l => l
  | recordMessageLatency sendTime receiveTime => receiveTime - sendTime

/-- `record_latency` has no times and never reaches a step that reads one. -/
def sendTime : Call → TimestampNs
  | recordLatency _ => 0
  | recordMessageLatency sendTime _ => sendTime

def receiveTime : Call → TimestampNs
  | recordLatency _ => 0
  | recordMessageLatency _ receiveTime => receiveTime

/-- The bucket the recorder of the call chooses. -/
def bucket (limits : Fin 10 → UInt64) : Call → Option (Fin 10)
  | recordLatency l => latencyBucket limits l
  | recordMessageLatency sendTime receiveTime =>
      messageLatencyBucket limits (receiveTime - sendTime)

def afterCount (index : UInt64) : Call → Pc
  | recordLatency _ => .addTotalLatency index
  | recordMessageLatency _ _ => .storeFirstTime index

def afterMin (index : UInt64) : Call → Pc
  | recordLatency _ => .loadMax index
  | recordMessageLatency _ _ => .storeMinIndex index

def afterMax (index : UInt64) : Call → Pc
  | recordLatency _ => .addBucket
  | recordMessageLatency _ _ => .storeSendTime index

def afterBucket : Call → Option Pc
  | recordLatency _ => some .loadRecordedCount
  | recordMessageLatency _ _ => none

end Call

/-- One atomic step of a call: the new shared state and the next program point, if any. -/
def advance (s : PerformanceStats) (call : Call) : Pc → PerformanceStats × Option Pc
  | .addMessageCount => (s.countMessage, some (call.afterCount s.messageCount))
  | .storeFirstTime index =>
      ({ s with
          firstMessageTime := if index = 0 then call.receiveTime else s.firstMessageTime },
        some (.storeLastTime index))
  | .storeLastTime index =>
      ({ s with lastMessageTime := call.receiveTime }, some (.addTotalLatency index))
  | .addTotalLatency index => (s.addLatency call.latency, some (.loadMin index))
  | .loadMin index => (s, some (.minLoop index s.minLatency))
  | .minLoop index currentMin =>
      if call.latency < currentMin then
        if s.minLatency = currentMin then
          ({ s with minLatency := call.latency }, some (call.afterMin index))
        else (s, some (.minLoop index s.minLatency))
      else (s, some (.loadMax index))
  | .storeMinIndex index =>
      ({ s with minLatencyMessageIndex := index + 1 }, some (.storeMinSendTime index))
  | .storeMinSendTime index =>
      ({ s with minLatencySendTime := call.sendTime }, some (.storeMinReceiveTime index))
  | .storeMinReceiveTime index =>
      ({ s with minLatencyReceiveTime := call.receiveTime }, some (.loadMax index))
  | .loadMax index => (s, some (.maxLoop index s.maxLatency))
  | .maxLoop index currentMax =>
      if currentMax < call.latency then
        if s.maxLatency = currentMax then
          ({ s with maxLatency := call.latency }, some (call.afterMax index))
        else (s, some (.maxLoop index s.maxLatency))
      else (s, some (call.afterMax index))
  | .storeSendTime index =>
      if index.toNat < detailedRecordCount then
        ({ s with sendTimes := Function.update s.sendTimes index.toNat call.sendTime },
          some (.storeReceiveTime index))
      else (s, some .addBucket)
  | .storeReceiveTime index =>
      ({ s with receiveTimes := Function.update s.receiveTimes index.toNat call.receiveTime },
        some (.storeMessageLatency index))
  | .storeMessageLatency index =>
      ({ s with latencies := Function.update s.latencies index.toNat call.latency },
        some (.storeRecordedCount index))
  | .storeRecordedCount index => ({ s with recordedCount := index + 1 }, some .addBucket)
  | .addBucket =>
      (s.addToBucket (call.bucket s.latencyBucketLimits), call.afterBucket)
  | .loadRecordedCount =>
      (s,
        if s.recordedCount.toNat < detailedRecordCount then
          some (.casRecordedCount s.recordedCount)
        else none)
  | .casRecordedCount currentCount =>
      if s.recordedCount = currentCount then
        ({ s with recordedCount := currentCount + 1 }, some (.storeLatency currentCount))
      else (s, none)
  | .storeLatency currentCount =>
      ({ s with latencies := Function.update s.latencies currentCount.toNat call.latency }, none)

/-- The message counter is raised by the first step. -/
def countDue : Pc → Bool
  | .addMessageCount => true
  | _ => false

/-- The latency has not been added to the total yet. -/
def totalDue : Pc → Bool
  | .addMessageCount | .storeFirstTime _ | .storeLastTime _ | .addTotalLatency _ => true
  | _ => false

def addsTotal : Pc → Bool
  | .addTotalLatency _ => true
  | _ => false

/-- The bucket has not been raised yet. -/
def bucketDue : Pc → Bool
  | .loadRecordedCount | .casRecordedCount _ | .storeLatency _ => false
  | _ => true

def addsBucket : Pc → Bool
  | .addBucket => true
  | _ => false

theorem totalDue_of_adds (point : Pc) (h : addsTotal point = true) : totalDue point = true := by
  cases point <;> simp_all [addsTotal, totalDue]

theorem bucketDue_of_adds (point : Pc) (h : addsBucket point = true) :
    bucketDue point = true := by
  cases point <;> simp_all [addsBucket, bucketDue]

theorem bucketDue_of_count (point : Pc) (h : countDue point = true) :
    bucketDue point = true := by
  cases point <;> simp_all [countDue, bucketDue]

section Effects

variable (s : PerformanceStats) (call : Call) (point : Pc)

/-- What a step does to the aggregates, field by field. -/
theorem advance_messageCount : (advance s call point).1.messageCount =
    if countDue point then s.messageCount + 1 else s.messageCount := by
  cases point <;> simp [advance, countDue, PerformanceStats.countMessage,
    PerformanceStats.addLatency, PerformanceStats.addToBucket, apply_ite Prod.fst,
    apply_ite PerformanceStats.messageCount]

theorem advance_totalLatency : (advance s call point).1.totalLatency =
    if addsTotal point then s.totalLatency + call.latency else s.totalLatency := by
  cases point <;> simp [advance, addsTotal, PerformanceStats.countMessage,
    PerformanceStats.addLatency, PerformanceStats.addToBucket, apply_ite Prod.fst,
    apply_ite PerformanceStats.totalLatency]

theorem advance_latencyBuckets : (advance s call point).1.latencyBuckets =
    if addsBucket point then bumpBucket s.latencyBuckets (call.bucket s.latencyBucketLimits)
    else s.latencyBuckets := by
  cases point <;> simp [advance, addsBucket, PerformanceStats.countMessage,
    PerformanceStats.addLatency, PerformanceStats.addToBucket, apply_ite Prod.fst,
    apply_ite PerformanceStats.latencyBuckets]

theorem advance_latencyBucketLimits :
    (advance s call point).1.latencyBucketLimits = s.latencyBucketLimits := by
  cases point <;> simp [advance, PerformanceStats.countMessage,
    PerformanceStats.addLatency, PerformanceStats.addToBucket, apply_ite Prod.fst,
    apply_ite PerformanceStats.latencyBucketLimits]

/-- The minimum changes only to a smaller latency, at the loop that compares them. -/
theorem advance_minLatency : (advance s call point).1.minLatency = s.minLatency ∨
    call.latency < s.minLatency ∧ (advance s call point).1.minLatency = call.latency := by
  cases point with
  | minLoop index currentMin =>
    simp only [advance]
    split_ifs with hless hsame
    · rw [← hsame] at hless
      exact Or.inr ⟨hless, rfl⟩
    · exact Or.inl rfl
    · exact Or.inl rfl
  | _ => left; simp [advance, PerformanceStats.countMessage, PerformanceStats.addLatency,
      PerformanceStats.addToBucket, apply_ite Prod.fst, apply_ite PerformanceStats.minLatency]

theorem advance_maxLatency : (advance s call point).1.maxLatency = s.maxLatency ∨
    s.maxLatency < call.latency ∧ (advance s call point).1.maxLatency = call.latency := by
  cases point with
  | maxLoop index currentMax =>
    simp only [advance]
    split_ifs with hless hsame
    · rw [← hsame] at hless
      exact Or.inr ⟨hless, rfl⟩
    · exact Or.inl rfl
    · exact Or.inl rfl
  | _ => left; simp [advance, PerformanceStats.countMessage, PerformanceStats.addLatency,
      PerformanceStats.addToBucket, apply_ite Prod.fst, apply_ite PerformanceStats.maxLatency]

/-- What is due at the next program point. -/
theorem countDue_next :
    (advance s call point).2.any countDue = (countDue point && !countDue point) := by
  cases point <;> cases call <;>
    simp [advance, countDue, Call.afterCount, Call.afterMin, Call.afterMax, Call.afterBucket,
      apply_ite Prod.snd, apply_ite (Option.any countDue)]

theorem totalDue_next :
    (advance s call point).2.any totalDue = (totalDue point && !addsTotal point) := by
  cases point <;> cases call <;>
    simp [advance, totalDue, addsTotal, Call.afterCount, Call.afterMin, Call.afterMax,
      Call.afterBucket, apply_ite Prod.snd, apply_ite (Option.any totalDue)]

theorem bucketDue_next :
    (advance s call point).2.any bucketDue = (bucketDue point && !addsBucket point) := by
  cases point <;> cases call <;>
    simp [advance, bucketDue, addsBucket, Call.afterCount, Call.afterMin, Call.afterMax,
      Call.afterBucket, apply_ite Prod.snd, apply_ite (Option.any bucketDue)]

end Effects

section Alone

variable {call : Call} {s s' : PerformanceStats} {index : UInt64}

/-- Alone, the first compare-and-swap of a loop succeeds. -/
theorem solo_max
    (h : Solo advance call (s.raiseMax call.latency) (call.afterMax index) s') :
    Solo advance call s (.loadMax index) s' := by
  refine .step rfl ?_
  by_cases hless : s.maxLatency < call.latency
  · refine .step ?_ h
    simp [advance, hless, PerformanceStats.raiseMax]
  · refine .step ?_ h
    simp [advance, hless, PerformanceStats.raiseMax]

theorem solo_min {l : UInt64}
    (h : Solo advance (.recordLatency l) (s.lowerMin l) (.loadMax index) s') :
    Solo advance (.recordLatency l) s (.loadMin index) s' := by
  refine .step rfl ?_
  by_cases hless : l < s.minLatency
  · refine .step ?_ h
    simp [advance, hless, PerformanceStats.lowerMin, Call.latency, Call.afterMin]
  · refine .step ?_ h
    simp [advance, hless, PerformanceStats.lowerMin, Call.latency]

theorem solo_detail (l : UInt64) :
    Solo advance (.recordLatency l) s .loadRecordedCount (s.recordDetail l) := by
  by_cases hslot : s.recordedCount.toNat < detailedRecordCount
  · have hload : advance s (.recordLatency l) .loadRecordedCount =
        (s, some (.casRecordedCount s.recordedCount)) := by
      simp [advance, hslot]
    have hcas : advance s (.recordLatency l) (.casRecordedCount s.recordedCount) =
        ({ s with recordedCount := s.recordedCount + 1 },
          some (.storeLatency s.recordedCount)) := by
      simp [advance]
    refine .step hload (.step hcas (.last ?_))
    simp [advance, PerformanceStats.recordDetail, hslot, Call.latency]
  · refine .last ?_
    simp [advance, PerformanceStats.recordDetail, hslot]

/-- Undisturbed, the atomic steps of a call compute the sequential recorder. -/
theorem solo_recordLatency (s : PerformanceStats) (l : UInt64) :
    Solo advance (.recordLatency l) s .addMessageCount (recordLatency s l) := by
  refine .step rfl (.step rfl (solo_min (solo_max ?_)))
  exact .step rfl (solo_detail l)

variable {sendTime receiveTime : TimestampNs}

theorem solo_messageMin
    (h : Solo advance (.recordMessageLatency sendTime receiveTime)
      (s.lowerMessageMin index sendTime receiveTime) (.loadMax index) s') :
    Solo advance (.recordMessageLatency sendTime receiveTime) s (.loadMin index) s' := by
  refine .step rfl ?_
  by_cases hless : receiveTime - sendTime < s.minLatency
  · have hcas : advance s (.recordMessageLatency sendTime receiveTime)
        (.minLoop index s.minLatency) =
        ({ s with minLatency := receiveTime - sendTime }, some (.storeMinIndex index)) := by
      simp [advance, hless, Call.latency, Call.afterMin]
    rw [PerformanceStats.lowerMessageMin, if_pos hless] at h
    exact .step hcas (.step rfl (.step rfl (.step rfl h)))
  · rw [PerformanceStats.lowerMessageMin, if_neg hless] at h
    refine .step ?_ h
    simp [advance, hless, Call.latency]

theorem solo_messageDetail
    (h : Solo advance (.recordMessageLatency sendTime receiveTime)
      (s.recordMessageDetail index sendTime receiveTime) .addBucket s') :
    Solo advance (.recordMessageLatency sendTime receiveTime) s (.storeSendTime index) s' := by
  by_cases hslot : index.toNat < detailedRecordCount
  · have hstore : advance s (.recordMessageLatency sendTime receiveTime)
        (.storeSendTime index) =
        ({ s with sendTimes := Function.update s.sendTimes index.toNat sendTime },
          some (.storeReceiveTime index)) := by
      simp [advance, hslot, Call.sendTime]
    rw [PerformanceStats.recordMessageDetail, if_pos hslot] at h
    exact .step hstore (.step rfl (.step rfl (.step rfl h)))
  · rw [PerformanceStats.recordMessageDetail, if_neg hslot] at h
    refine .step ?_ h
    simp [advance, hslot]

theorem solo_recordMessageLatency (s : PerformanceStats) (sendTime receiveTime : TimestampNs) :
    Solo advance (.recordMessageLatency sendTime receiveTime) s .addMessageCount
      (recordMessageLatency s sendTime receiveTime) := by
  refine .step rfl (.step rfl (.step rfl (.step rfl (solo_messageMin (solo_max ?_)))))
  exact solo_messageDetail (.last rfl)

end Alone

end AeronFast.AtomicRecorders
