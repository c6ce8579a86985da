import AeronFast.SampleSummary

/-!
The printed records. `print_detailed_records` shows the first twenty slots,
with the two times of a message and its latency. A sample of `record_latency`
fills its slot without times, which stay zero; otherwise the rows are the first
calls in the order they were made, whichever recorders made them.
-/
namespace AeronFast.DetailRows

open CommonTypes WordArithmetic Recorders AtomicRecorders LockFreeAggregates SampleSummary

/-- A printed row; the latency is the nanoseconds from which the source formats microseconds
with two decimals. -/
structure DetailRow where
  index : ℕ
  sendTime : TimestampNs
  receiveTime : TimestampNs
  latency : TimestampNs
  deriving DecidableEq, Repr

/-- The heading names the number of records, and so does the last line if rows are missing. -/
structure DetailReport where
  heading : UInt64
  rows : List DetailRow
  omitted : Option UInt64
  deriving DecidableEq, Repr

def shownRecords : ℕ := 20

def printDetailedRecords (s : PerformanceStats) : Option DetailReport :=
  if s.recordedCount = 0 then none
  else some
    { heading := s.recordedCount
      rows := (List.range (min s.recordedCount.toNat shownRecords)).map
        (fun i => ⟨i + 1, s.sendTimes i, s.receiveTimes i, s.latencies i⟩)
      omitted := if shownRecords < s.recordedCount.toNat then some s.recordedCount else none }

/-- The times that a call leaves in its slot. -/
def times : Call → TimestampNs × TimestampNs
  | .recordLatency _ => (0, 0)
  | .recordMessageLatency sendTime receiveTime => (sendTime, receiveTime)

/-- The row of the call with the given number. -/
def rowOf (call : Call) (number : ℕ) : DetailRow :=
  ⟨number + 1, (times call).1, (times call).2, call.latency⟩

/-- What the report should show of the recorder calls. -/
def reportOf (calls : List Call) : Option DetailReport :=
  if calls = [] then none
  else some
    { heading := UInt64.ofNat (min calls.length detailedRecordCount)
      rows := (calls.take shownRecords).mapIdx (fun i call => rowOf call i)
      omitted := if shownRecords < calls.length
        then some (UInt64.ofNat (min calls.length detailedRecordCount)) else none }

/-- The times in the slots, with zeros where no message was recorded. -/
def Timed (calls : List Call) (s : PerformanceStats) : Prop :=
  ∀ k < detailedRecordCount, (s.sendTimes k, s.receiveTimes k) = (calls[k]?).elim (0, 0) times

theorem timed_fresh (limits : Fin 10 → UInt64) (memory : ℕ → TimestampNs) :
    Timed [] (placed (freshStats limits) memory) := by
  intro k hk
  simp [placed, freshStats, hk]

theorem recordMessageLatency_times (s : PerformanceStats) (sendTime receiveTime : TimestampNs) :
    (recordMessageLatency s sendTime receiveTime).sendTimes =
        (if s.messageCount.toNat < detailedRecordCount then
          Function.update s.sendTimes s.messageCount.toNat sendTime else s.sendTimes) ∧
      (recordMessageLatency s sendTime receiveTime).receiveTimes =
        if s.messageCount.toNat < detailedRecordCount then
          Function.update s.receiveTimes s.messageCount.toNat receiveTime
        else s.receiveTimes := by
  simp only [recordMessageLatency, PerformanceStats.lowerMessageMin_eq,
    PerformanceStats.recordMessageDetail]
  split
  · exact ⟨rfl, rfl⟩
  · exact ⟨rfl, rfl⟩

/-- The slot of the new call is the one of its number; the slots before it are left alone. -/
theorem timed_sample {calls : List Call} {s : PerformanceStats} (h : Timed calls s) (call : Call)
    (hcount : s.messageCount.toNat = calls.length) :
    Timed (calls ++ [call]) (recordCall s call) := by
  intro k hk
  have hold := h k hk
  cases call with
  | recordLatency l =>
    change (s.sendTimes k, s.receiveTimes k) = _
    rw [hold]
    rcases Nat.lt_trichotomy k calls.length with hlt | rfl | hgt
    · rw [List.getElem?_append_left hlt]
    · rw [List.getElem?_concat_length, List.getElem?_eq_none (Nat.le_refl _)]
      rfl
    · rw [List.getElem?_eq_none (by omega), List.getElem?_eq_none (by simp; omega)]
  | recordMessageLatency sendTime receiveTime =>
    obtain ⟨hsend, hreceive⟩ := recordMessageLatency_times s sendTime receiveTime
    rw [recordCall, hsend, hreceive, hcount]
    rcases Nat.lt_trichotomy k calls.length with hlt | rfl | hgt
    · rw [List.getElem?_append_left hlt, ← hold]
      split
      · rw [Function.update_of_ne (by omega), Function.update_of_ne (by omega)]
      · rfl
    · rw [if_pos hk, if_pos hk, Function.update_self, Function.update_self,
        List.getElem?_concat_length]
      rfl
    · have hnone : (calls ++ [Call.recordMessageLatency sendTime receiveTime])[k]? = calls[k]? := by
        have hlong : (calls ++ [Call.recordMessageLatency sendTime receiveTime]).length ≤ k := by
          rw [List.length_append, List.length_singleton]
          omega
        rw [List.getElem?_eq_none hlong, List.getElem?_eq_none (Nat.le_of_lt hgt)]
      rw [hnone, ← hold, if_pos (by omega), if_pos (by omega), Function.update_of_ne (by omega),
        Function.update_of_ne (by omega)]

theorem timed_run (limits : Fin 10 → UInt64) (memory : ℕ → TimestampNs) (calls : List StatsCall)
    (hcalls : (recorderCalls calls).length < 2 ^ 64) :
    Timed (recorderCalls calls) (calls.foldl applyCall (placed (freshStats limits) memory)) := by
  induction calls using List.reverseRecOn with
  | nil => exact timed_fresh limits memory
  | append_singleton earlier call ih =>
    rw [List.foldl_append]
    cases call with
    | sample call =>
      rw [recorderCalls_sample, List.length_append, List.length_singleton] at hcalls
      have hcount := (counted_run (counted_placed (counted_fresh limits) memory)
        earlier).messageCount
      rw [Nat.mod_eq_of_lt (by omega)] at hcount
      rw [recorderCalls_sample]
      exact timed_sample (ih (by omega)) call hcount
    | backPressure =>
      rw [recorderCalls_other _ _ rfl] at hcalls ⊢
      exact ih hcalls
    | retry =>
      rw [recorderCalls_other _ _ rfl] at hcalls ⊢
      exact ih hcalls

/-- An object whose slots hold the calls prints them. -/
theorem printed_of_slots {calls : List Call} {s : PerformanceStats}
    (hrecorded : s.recordedCount.toNat = min calls.length detailedRecordCount)
    (hlatencies : ∀ k < s.recordedCount.toNat, (calls.map Call.latency)[k]? = some (s.latencies k))
    (htimed : Timed calls s) : printDetailedRecords s = reportOf calls := by
  have hshown : shownRecords < detailedRecordCount := by decide
  by_cases hnil : calls = []
  · have hzero : s.recordedCount = 0 := by
      apply UInt64.toNat_inj.mp
      rw [hrecorded, hnil]
      rfl
    rw [printDetailedRecords, if_pos hzero, reportOf, if_pos hnil]
  · have hpos : 0 < calls.length := List.length_pos_of_ne_nil hnil
    have hne : s.recordedCount ≠ 0 := by
      intro hzero
      rw [hzero] at hrecorded
      change 0 = _ at hrecorded
      omega
    have hrows : (List.range (min s.recordedCount.toNat shownRecords)).map
          (fun i => (⟨i + 1, s.sendTimes i, s.receiveTimes i, s.latencies i⟩ : DetailRow)) =
        (calls.take shownRecords).mapIdx (fun i call => rowOf call i) := by
      apply List.ext_getElem
      · simp only [List.length_map, List.length_range, List.length_mapIdx, List.length_take]
        omega
      · intro k hleft hright
        simp only [List.length_map, List.length_range] at hleft
        have hk : k < calls.length := by omega
        have htimes := htimed k (by omega)
        have hlatency := hlatencies k (by omega)
        rw [List.getElem?_eq_getElem hk, Option.elim_some] at htimes
        rw [List.getElem?_map, List.getElem?_eq_getElem hk, Option.map_some,
          Option.some.injEq] at hlatency
        obtain ⟨hsend, hreceive⟩ := Prod.ext_iff.mp htimes
        simp only [List.getElem_map, List.getElem_range, List.getElem_mapIdx, List.getElem_take,
          rowOf, ← hsend, ← hreceive, hlatency]
    have hlonger : shownRecords < s.recordedCount.toNat ↔ shownRecords < calls.length := by omega
    rw [printDetailedRecords, if_neg hne, reportOf, if_neg hnil, hrows, ← hrecorded,
      UInt64.ofNat_toNat]
    simp only [hlonger]

/-- For a fresh object of either kind and any mix of calls, the printed rows are the first calls
of the recorders in their order, each with its number, its times if it has any, and its latency;
the heading and the last line give the number of slots in use. -/
theorem detailed_records_printed (initial : PerformanceStats)
    (hinitial : initial = createPerformanceStats ∨ initial = initPerformanceStats)
    (memory : ℕ → TimestampNs) (calls : List StatsCall) (hcalls : calls.length < 2 ^ 64) :
    printDetailedRecords (calls.foldl applyCall (placed initial memory)) =
      reportOf (recorderCalls calls) := by
  have hrecorder : (recorderCalls calls).length < 2 ^ 64 :=
    Nat.lt_of_le_of_lt (length_recorderCalls_le calls) hcalls
  have hprinted : ∀ limits : Fin 10 → UInt64, limits 9 = uint64Max →
      printDetailedRecords (calls.foldl applyCall (placed (freshStats limits) memory)) =
        reportOf (recorderCalls calls) := by
    intro limits hlimit
    have hsummary := summary_of_fresh limits hlimit memory calls hcalls
    have hrecorded := hsummary.recordedCount
    rw [length_samples] at hrecorded
    exact printed_of_slots hrecorded hsummary.latencies (timed_run limits memory calls hrecorder)
  rcases hinitial with rfl | rfl
  · exact hprinted _ rfl
  · exact hprinted _ rfl

/-- A sample without times, and one that is received before it was sent. -/
theorem mixedCalls_printed :
    printDetailedRecords (mixedCalls.foldl applyCall (placed createPerformanceStats UInt64.ofNat)) =
      some ⟨2, [⟨1, 0, 0, 1500⟩, ⟨2, 10, 3, 18446744073709551609⟩], none⟩ := by
  rw [detailed_records_printed createPerformanceStats (Or.inl rfl) UInt64.ofNat mixedCalls
    (by decide)]
  decide

end AeronFast.DetailRows
