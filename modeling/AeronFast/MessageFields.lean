import AeronFast.SummaryRows

/-!
The fields of the statistics object that belong to single messages, after
calls of `record_message_latency` made one after another: the times of the
first and the last message, the message of the least latency and the slots of
the first thousand. The comparison with the minimum is strict, so of several
messages with the least latency the earliest is kept. Indices are fetched
counting from zero and reported counting from one.
-/
namespace AeronFast.MessageFields

open CommonTypes WordArithmetic Recorders SummaryRows RecorderAgreement

section EarliestMinimum

variable {α : Type*} {key : α → UInt64} {elements : List α} {k : ℕ} {a b : α}

/-- The earliest element of a list with the least key, and its position. -/
structure EarliestMin (key : α → UInt64) (elements : List α) (k : ℕ) (a : α) : Prop where
  position : elements[k]? = some a
  least : ∀ b ∈ elements, key a ≤ key b
  earliest : ∀ j < k, ∀ b, elements[j]? = some b → key a < key b

/-- A key below all those before it is the new minimum, at the end of the list. -/
theorem earliestMin_lower (h : ∀ b ∈ elements, key a < key b) :
    EarliestMin key (elements ++ [a]) elements.length a := by
  refine ⟨List.getElem?_concat_length, ?_, ?_⟩
  · intro b hb
    rcases List.mem_append.mp hb with hold | hnew
    · exact UInt64.le_of_lt (h b hold)
    · rw [List.mem_singleton.mp hnew]
      exact UInt64.le_refl _
  · intro j hj b hb
    rw [List.getElem?_append_left hj] at hb
    exact h b (List.mem_of_getElem? hb)

/-- An equal key does not displace an earlier one. -/
theorem earliestMin_keep (h : EarliestMin key elements k a) (hle : key a ≤ key b) :
    EarliestMin key (elements ++ [b]) k a := by
  have hk := (List.getElem?_eq_some_iff.mp h.position).1
  refine ⟨?_, ?_, ?_⟩
  · rw [List.getElem?_append_left hk]
    exact h.position
  · intro other hother
    rcases List.mem_append.mp hother with hold | hnew
    · exact h.least other hold
    · rw [List.mem_singleton.mp hnew]
      exact hle
  · intro j hj other hother
    rw [List.getElem?_append_left (hj.trans hk)] at hother
    exact h.earliest j hj other hother

end EarliestMinimum

/-- What one call does to the fields of single messages. -/
structure RecordsMessage (s : PerformanceStats) (sendTime receiveTime : TimestampNs)
    (t : PerformanceStats) : Prop where
  messageCount : t.messageCount = s.messageCount + 1
  firstMessageTime : t.firstMessageTime =
    if s.messageCount = 0 then receiveTime else s.firstMessageTime
  lastMessageTime : t.lastMessageTime = receiveTime
  minimum :
    (t.minLatency, t.minLatencyMessageIndex, t.minLatencySendTime, t.minLatencyReceiveTime) =
      if receiveTime - sendTime < s.minLatency then
        (receiveTime - sendTime, s.messageCount + 1, sendTime, receiveTime)
      else
        (s.minLatency, s.minLatencyMessageIndex, s.minLatencySendTime, s.minLatencyReceiveTime)
  slots : ∀ k < detailedRecordCount,
    (t.sendTimes k, t.receiveTimes k, t.latencies k) =
      if k = s.messageCount.toNat then (sendTime, receiveTime, receiveTime - sendTime)
      else (s.sendTimes k, s.receiveTimes k, s.latencies k)

theorem lowerMessageMin_minimum (s : PerformanceStats) (index : UInt64)
    (sendTime receiveTime : TimestampNs) (t : PerformanceStats)
    (ht : t = s.lowerMessageMin index sendTime receiveTime) :
    (t.minLatency, t.minLatencyMessageIndex, t.minLatencySendTime, t.minLatencyReceiveTime) =
      if receiveTime - sendTime < s.minLatency then
        (receiveTime - sendTime, index + 1, sendTime, receiveTime)
      else
        (s.minLatency, s.minLatencyMessageIndex, s.minLatencySendTime,
          s.minLatencyReceiveTime) := by
  rw [ht, PerformanceStats.lowerMessageMin]
  split
  · rfl
  · rfl

/-- The call takes the slot of its index, if there is one. -/
theorem recordsMessage (s : PerformanceStats) (sendTime receiveTime : TimestampNs) :
    RecordsMessage s sendTime receiveTime (recordMessageLatency s sendTime receiveTime) := by
  have hminimum := lowerMessageMin_minimum
    ({ s.countMessage with
        firstMessageTime := if s.messageCount = 0 then receiveTime else s.firstMessageTime
        lastMessageTime := receiveTime }.addLatency (receiveTime - sendTime)) s.messageCount
    sendTime receiveTime _ rfl
  rw [PerformanceStats.lowerMessageMin_eq] at hminimum
  simp only [recordMessageLatency, PerformanceStats.lowerMessageMin_eq,
    PerformanceStats.recordMessageDetail]
  split
  · refine ⟨rfl, rfl, rfl, hminimum, ?_⟩
    intro k hk
    by_cases hslot : k = s.messageCount.toNat
    · simp [PerformanceStats.addToBucket, PerformanceStats.raiseMax, hslot]
    · simp [PerformanceStats.addToBucket, PerformanceStats.raiseMax,
        PerformanceStats.addLatency, PerformanceStats.countMessage, hslot]
  · rename_i hfull
    refine ⟨rfl, rfl, rfl, hminimum, ?_⟩
    intro k hk
    have hslot : k ≠ s.messageCount.toNat := fun h => hfull (h ▸ hk)
    rw [if_neg hslot]
    rfl

/-- The latency of a message, from its two times. -/
def latencyOf (time : TimestampNs × TimestampNs) : UInt64 := time.2 - time.1

/-- The message that the fields of the minimum speak of. -/
structure MinimumOf (times : List (TimestampNs × TimestampNs)) (s : PerformanceStats) (k : ℕ)
    (time : TimestampNs × TimestampNs) : Prop where
  earliest : EarliestMin latencyOf times k time
  minLatency : s.minLatency = latencyOf time
  messageIndex : s.minLatencyMessageIndex.toNat = k + 1
  sendTime : s.minLatencySendTime = time.1
  receiveTime : s.minLatencyReceiveTime = time.2

/-- What the calls so far have left in the fields of single messages. -/
structure Recorded (times : List (TimestampNs × TimestampNs)) (s : PerformanceStats) : Prop where
  messageCount : s.messageCount.toNat = times.length
  firstMessageTime : ∀ time, times.head? = some time → s.firstMessageTime = time.2
  lastMessageTime : ∀ time, times.getLast? = some time → s.lastMessageTime = time.2
  minimum : (s.minLatency = uint64Max ∧ ∀ time ∈ times, latencyOf time = uint64Max) ∨
    ∃ k time, MinimumOf times s k time
  slots : ∀ k time, k < detailedRecordCount → times[k]? = some time →
    s.sendTimes k = time.1 ∧ s.receiveTimes k = time.2 ∧ s.latencies k = latencyOf time

theorem recorded_fresh (limits : Fin 10 → UInt64) : Recorded [] (freshStats limits) := by
  refine ⟨rfl, ?_, ?_, Or.inl ⟨rfl, by simp⟩, ?_⟩
  · intro time h
    cases h
  · intro time h
    cases h
  · intro k time _ h
    simp at h

section Steps

variable {times : List (TimestampNs × TimestampNs)} {s t : PerformanceStats}
variable {sendTime receiveTime : TimestampNs} (h : Recorded times s)
variable (hstep : RecordsMessage s sendTime receiveTime t)
include h hstep

/-- A message below the minimum so far is below every message so far. -/
theorem minimum_lowered (hfits : times.length + 1 < 2 ^ 64)
    (hless : receiveTime - sendTime < s.minLatency) :
    MinimumOf (times ++ [(sendTime, receiveTime)]) t times.length (sendTime, receiveTime) := by
  have hfields := hstep.minimum
  rw [if_pos hless] at hfields
  simp only [Prod.mk.injEq] at hfields
  obtain ⟨hmin, hindex, hsend, hreceive⟩ := hfields
  have hcount := h.messageCount
  refine ⟨earliestMin_lower ?_, hmin, ?_, hsend, hreceive⟩
  · intro time htime
    rcases h.minimum with ⟨hmax, hall⟩ | ⟨k, least, hleast⟩
    · rw [hall time htime, ← hmax]
      exact hless
    · rw [hleast.minLatency] at hless
      exact UInt64.lt_of_lt_of_le hless (hleast.earliest.least time htime)
  · rw [hindex, toNat_add_one _ (by omega), hcount]

theorem minimum_kept (hle : s.minLatency ≤ receiveTime - sendTime) :
    (t.minLatency = uint64Max ∧
        ∀ time ∈ times ++ [(sendTime, receiveTime)], latencyOf time = uint64Max) ∨
      ∃ k time, MinimumOf (times ++ [(sendTime, receiveTime)]) t k time := by
  have hfields := hstep.minimum
  rw [if_neg (UInt64.not_lt.mpr hle)] at hfields
  simp only [Prod.mk.injEq] at hfields
  obtain ⟨hmin, hindex, hsend, hreceive⟩ := hfields
  rcases h.minimum with ⟨hmax, hall⟩ | ⟨k, least, hleast⟩
  · left
    refine ⟨hmin.trans hmax, ?_⟩
    intro time htime
    rcases List.mem_append.mp htime with hold | hnew
    · exact hall time hold
    · rw [List.mem_singleton.mp hnew]
      rw [hmax] at hle
      exact UInt64.le_antisymm (le_uint64Max _) hle
  · right
    rw [hleast.minLatency] at hle
    exact ⟨k, least, earliestMin_keep hleast.earliest hle, hmin.trans hleast.minLatency,
      by rw [hindex, hleast.messageIndex], hsend.trans hleast.sendTime,
      hreceive.trans hleast.receiveTime⟩

/-- The slot of the new message is behind those of the messages before it. -/
theorem slots_step (k : ℕ) (time : TimestampNs × TimestampNs) (hk : k < detailedRecordCount)
    (htime : (times ++ [(sendTime, receiveTime)])[k]? = some time) :
    t.sendTimes k = time.1 ∧ t.receiveTimes k = time.2 ∧ t.latencies k = latencyOf time := by
  have hslots := hstep.slots k hk
  rw [h.messageCount] at hslots
  by_cases hlast : k = times.length
  · rw [if_pos hlast] at hslots
    rw [hlast, List.getElem?_concat_length] at htime
    obtain rfl := Option.some.inj htime
    simpa only [Prod.mk.injEq, latencyOf] using hslots
  · rw [if_neg hlast] at hslots
    have hlt : k < times.length := by
      have hbound := (List.getElem?_eq_some_iff.mp htime).1
      rw [List.length_append, List.length_singleton] at hbound
      omega
    rw [List.getElem?_append_left hlt] at htime
    simp only [Prod.mk.injEq] at hslots
    obtain ⟨hsend, hreceive, hlatency⟩ := hslots
    rw [hsend, hreceive, hlatency]
    exact h.slots k time hk htime

theorem recorded_step (hfits : times.length + 1 < 2 ^ 64) :
    Recorded (times ++ [(sendTime, receiveTime)]) t := by
  have hcount := h.messageCount
  refine ⟨?_, ?_, ?_, ?_, slots_step h hstep⟩
  · rw [hstep.messageCount, toNat_add_one _ (by omega), hcount, List.length_append,
      List.length_singleton]
  · intro time hhead
    rw [hstep.firstMessageTime]
    cases times with
    | nil =>
      obtain rfl := Option.some.inj hhead
      exact if_pos (UInt64.toNat_inj.mp hcount)
    | cons first rest =>
      have hne : s.messageCount ≠ 0 := by
        intro hzero
        rw [hzero] at hcount
        simp at hcount
      rw [if_neg hne]
      exact h.firstMessageTime time hhead
  · intro time hlast
    rw [List.getLast?_append, List.getLast?_singleton, Option.some_or] at hlast
    obtain rfl := Option.some.inj hlast
    exact hstep.lastMessageTime
  · by_cases hless : receiveTime - sendTime < s.minLatency
    · exact Or.inr ⟨_, _, minimum_lowered h hstep hfits hless⟩
    · exact minimum_kept h hstep (UInt64.not_lt.mp hless)

end Steps

theorem recorded_run (limits : Fin 10 → UInt64) (times : List (TimestampNs × TimestampNs))
    (hfits : times.length < 2 ^ 64) :
    Recorded times (recordMessages (freshStats limits) times) := by
  induction times using List.reverseRecOn with
  | nil => exact recorded_fresh limits
  | append_singleton earlier time ih =>
    rw [List.length_append, List.length_singleton] at hfits
    rw [recordMessages, List.foldl_append]
    exact recorded_step (ih (by omega)) (recordsMessage _ time.1 time.2) hfits

/-- A fresh object of either kind after a non-empty sequence of fewer than 2^64 calls of
`record_message_latency`, one of them with a latency below the sentinel. The first and the last
receive times are kept; the minimum names the earliest message of least latency, counting from
one, with its times; the first thousand messages stand in their slots. -/
theorem message_fields (initial : PerformanceStats)
    (hinitial : initial = createPerformanceStats ∨ initial = initPerformanceStats)
    (times : List (TimestampNs × TimestampNs)) (hne : times ≠ [])
    (hfits : times.length < 2 ^ 64) (hbelow : ∃ time ∈ times, latencyOf time < uint64Max)
    (s : PerformanceStats) (hs : s = recordMessages initial times) :
    times.head?.map Prod.snd = some s.firstMessageTime ∧
      times.getLast?.map Prod.snd = some s.lastMessageTime ∧
      (∃ k time, EarliestMin latencyOf times k time ∧
        s.minLatencyMessageIndex.toNat = k + 1 ∧
        s.minLatencySendTime = time.1 ∧ s.minLatencyReceiveTime = time.2) ∧
      ∀ k < min times.length detailedRecordCount,
        times[k]? = some (s.sendTimes k, s.receiveTimes k) ∧
          s.latencies k = s.receiveTimes k - s.sendTimes k := by
  obtain ⟨limits, _, _, rfl⟩ := exists_limits initial hinitial
  have h : Recorded times s := hs ▸ recorded_run limits times hfits
  refine ⟨?_, ?_, ?_, ?_⟩
  · obtain ⟨first, hfirst⟩ := Option.isSome_iff_exists.mp (List.isSome_head?.mpr hne)
    rw [hfirst, Option.map_some, h.firstMessageTime first hfirst]
  · obtain ⟨last, hlast⟩ := Option.isSome_iff_exists.mp (List.getLast?_isSome.mpr hne)
    rw [hlast, Option.map_some, h.lastMessageTime last hlast]
  · rcases h.minimum with ⟨_, hall⟩ | ⟨k, time, hmin⟩
    · obtain ⟨time, htime, hless⟩ := hbelow
      rw [hall time htime] at hless
      exact absurd hless (UInt64.lt_irrefl _)
    · exact ⟨k, time, hmin.earliest, hmin.messageIndex, hmin.sendTime, hmin.receiveTime⟩
  · intro k hk
    have hlt : k < times.length := Nat.lt_of_lt_of_le hk (Nat.min_le_left _ _)
    obtain ⟨hsend, hreceive, hlatency⟩ := h.slots k times[k]
      (Nat.lt_of_lt_of_le hk (Nat.min_le_right _ _)) (List.getElem?_eq_getElem hlt)
    rw [hlatency, hsend, hreceive, List.getElem?_eq_getElem hlt]
    exact ⟨rfl, rfl⟩

/-- Two messages share the least latency and a third is received before it was sent. -/
theorem tied_message_fields :
    (recordMessages createPerformanceStats
        [(10, 17), (20, 25), (30, 35), (9, 4)]).minLatencyMessageIndex = 2 ∧
      ∃ k time, EarliestMin latencyOf [(10, 17), (20, 25), (30, 35), (9, 4)] k time ∧
        (recordMessages createPerformanceStats
          [(10, 17), (20, 25), (30, 35), (9, 4)]).minLatencyMessageIndex.toNat = k + 1 :=
  have h := (message_fields createPerformanceStats (Or.inl rfl)
    [(10, 17), (20, 25), (30, 35), (9, 4)] (by decide) (by decide)
    ⟨(20, 25), by decide, by decide⟩ _ rfl).2.2.1
  ⟨by decide, h.imp (fun _ h => h.imp (fun _ h => ⟨h.1, h.2.1⟩))⟩

end AeronFast.MessageFields
