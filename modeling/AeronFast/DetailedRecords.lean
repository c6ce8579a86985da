import AeronFast.DetailSlots

/-!
The detailed records under concurrent calls, for both recorders. A call of
`record_message_latency` has its slot from the message counter, which no two
calls share, but publishes the number of records with a plain store: a call
that is late lowers the number again. While no store lowers it and the
message counter does not wrap, the number of records comes out right, and in
either recorder each slot belongs to one call.
-/
namespace AeronFast.DetailedRecords

open CommonTypes WordArithmetic LabelledRuns Interleaving CallHistories Recorders AtomicRecorders
open LockFreeAggregates RecorderAgreement DetailSlots

/-- How far a call of `record_message_latency` is with its record. -/
inductive MessageStage
  | waiting
  | chosen (index : UInt64)
  | writing (index : UInt64)
  | written (index : UInt64)
  | done
  deriving DecidableEq

def messageStage : Pc → MessageStage
  | .addMessageCount => .waiting
  | .storeFirstTime index | .storeLastTime index | .addTotalLatency index | .loadMin index
  | .minLoop index _ | .storeMinIndex index | .storeMinSendTime index
  | .storeMinReceiveTime index | .loadMax index | .maxLoop index _ | .storeSendTime index =>
      .chosen index
  | .storeReceiveTime index | .storeMessageLatency index => .writing index
  | .storeRecordedCount index => .written index
  | _ => .done

/-- The slot whose latency the call has still to store. -/
def latencyAhead : MessageStage → Option UInt64
  | .chosen index | .writing index => some index
  | _ => none

/-- The slot that the call has still to count. -/
def countAhead : MessageStage → Option UInt64
  | .chosen index | .writing index | .written index => some index
  | _ => none

/-- What a step of `record_message_latency` does to the message counter and the records. -/
inductive MessageMove (s : PerformanceStats) (call : Call) (point : Pc) (s' : PerformanceStats)
    (next : Option Pc) : Prop
  | fetch (q : Pc) (hpoint : point = .addMessageCount)
      (hcount : s'.messageCount = s.messageCount + 1) (hsame : SameDetails s s')
      (hnext : next = some q) (hq : messageStage q = .chosen s.messageCount)
  | goOn (q : Pc) (hbusy : messageStage point ≠ .waiting)
      (hcount : s'.messageCount = s.messageCount) (hsame : SameDetails s s')
      (hnext : next = some q) (hq : messageStage q = messageStage point)
  | pass (index : UInt64) (hpoint : point = .storeSendTime index)
      (hroom : index.toNat < detailedRecordCount) (hcount : s'.messageCount = s.messageCount)
      (hsame : SameDetails s s') (hnext : next = some (.storeReceiveTime index))
  | skip (index : UInt64) (hpoint : point = .storeSendTime index)
      (hfull : detailedRecordCount ≤ index.toNat) (hcount : s'.messageCount = s.messageCount)
      (hsame : SameDetails s s') (hnext : next = some .addBucket)
  | store (index : UInt64) (hpoint : point = .storeMessageLatency index)
      (hcount : s'.messageCount = s.messageCount) (hrecorded : s'.recordedCount = s.recordedCount)
      (hslots : s'.latencies = Function.update s.latencies index.toNat call.latency)
      (hnext : next = some (.storeRecordedCount index))
  | count (index : UInt64) (hpoint : point = .storeRecordedCount index)
      (hcount : s'.messageCount = s.messageCount) (hrecorded : s'.recordedCount = index + 1)
      (hslots : s'.latencies = s.latencies) (hnext : next = some .addBucket)
  | finish (hpoint : point = .addBucket) (hcount : s'.messageCount = s.messageCount)
      (hsame : SameDetails s s') (hnext : next = none)

theorem message_move (s : PerformanceStats) (sendTime receiveTime : TimestampNs) (point : Pc)
    (hfits : fits (.recordMessageLatency sendTime receiveTime) point = true) :
    MessageMove s (.recordMessageLatency sendTime receiveTime) point
      (advance s (.recordMessageLatency sendTime receiveTime) point).1
      (advance s (.recordMessageLatency sendTime receiveTime) point).2 := by
  cases point with
  | addMessageCount => exact .fetch _ rfl rfl ⟨rfl, rfl⟩ rfl rfl
  | minLoop index current =>
    simp only [advance]
    split_ifs
    · exact .goOn _ (by simp [messageStage]) rfl ⟨rfl, rfl⟩ rfl rfl
    · exact .goOn _ (by simp [messageStage]) rfl ⟨rfl, rfl⟩ rfl rfl
    · exact .goOn _ (by simp [messageStage]) rfl ⟨rfl, rfl⟩ rfl rfl
  | maxLoop index current =>
    simp only [advance]
    split_ifs
    · exact .goOn _ (by simp [messageStage]) rfl ⟨rfl, rfl⟩ rfl rfl
    · exact .goOn _ (by simp [messageStage]) rfl ⟨rfl, rfl⟩ rfl rfl
    · exact .goOn _ (by simp [messageStage]) rfl ⟨rfl, rfl⟩ rfl rfl
  | storeSendTime index =>
    by_cases hroom : index.toNat < detailedRecordCount
    · simp only [advance, if_pos hroom]
      exact .pass index rfl hroom rfl ⟨rfl, rfl⟩ rfl
    · simp only [advance, if_neg hroom]
      exact .skip index rfl (Nat.not_lt.mp hroom) rfl ⟨rfl, rfl⟩ rfl
  | storeMessageLatency index => exact .store index rfl rfl rfl rfl rfl
  | storeRecordedCount index => exact .count index rfl rfl rfl rfl rfl
  | addBucket => exact .finish rfl rfl ⟨rfl, rfl⟩ rfl
  | loadRecordedCount => cases hfits
  | casRecordedCount currentCount => cases hfits
  | storeLatency currentCount => cases hfits
  | _ => exact .goOn _ (by simp [messageStage]) rfl ⟨rfl, rfl⟩ rfl rfl

/-- What the list of the calls with an index says of call number `n` at its stage. -/
def MessageHolds (fetchers : List ℕ) (n : ℕ) : MessageStage → Prop
  | .waiting => n ∉ fetchers
  | .chosen index => fetchers[index.toNat]? = some n
  | .writing index | .written index =>
      index.toNat < detailedRecordCount ∧ fetchers[index.toNat]? = some n
  | .done => True

/-- Some call has still to deal with slot `k`. -/
def Pending {T : Type*} (ahead : MessageStage → Option UInt64)
    (p : Pool T PerformanceStats Call Pc) (k : ℕ) : Prop :=
  ∃ t call point index, p.frames t = some (call, point) ∧
    ahead (messageStage point) = some index ∧ index.toNat = k

/-- The calls that have fetched an index, in the order of the indices. -/
structure Fetched {T : Type*} (calls : List Call) (id : T → ℕ) (written : ℕ → ℕ → Prop)
    (fetchers : List ℕ) (p : Pool T PerformanceStats Call Pc) : Prop where
  count : p.shared.messageCount.toNat = fetchers.length % 2 ^ 64
  recorded : p.shared.recordedCount.toNat ≤ min fetchers.length detailedRecordCount
  nodup : fetchers.Nodup
  started : ∀ n ∈ fetchers, n < calls.length
  stages : ∀ t call point, p.frames t = some (call, point) →
    MessageHolds fetchers (id t) (messageStage point)
  slots : ∀ k n, k < detailedRecordCount → fetchers[k]? = some n →
    (∃ call, calls[n]? = some call ∧ p.shared.latencies k = call.latency) ∨
      Pending latencyAhead p k
  counted : ∀ k n, k < detailedRecordCount → fetchers[k]? = some n →
    k < p.shared.recordedCount.toNat ∨ Pending countAhead p k
  served : ∀ n < calls.length, n ∈ fetchers ∨
    ∃ t call, p.frames t = some (call, .addMessageCount) ∧ id t = n
  written : ∀ k n, written k n → fetchers[k]? = some n

theorem fetched_fresh {T : Type*} (limits : Fin 10 → UInt64) (id : T → ℕ)
    (written : ℕ → ℕ → Prop) (hnone : ∀ k n, ¬ written k n) :
    Fetched [] id written [] (idle (freshStats limits)) := by
  refine ⟨rfl, Nat.zero_le _, List.nodup_nil, by simp, ?_, by simp, by simp, by simp, ?_⟩
  · intro t call point h
    cases h
  · intro k n h
    exact absurd h (hnone k n)

theorem slot_of_holds {fetchers : List ℕ} {n k : ℕ} {point : Pc}
    (sendTime receiveTime : TimestampNs)
    (hfits : fits (.recordMessageLatency sendTime receiveTime) point = true)
    (hstage : MessageHolds fetchers n (messageStage point)) (hslot : slotOf point = some k) :
    fetchers[k]? = some n := by
  cases point with
  | storeSendTime index =>
    simp only [slotOf] at hslot
    split at hslot
    · rw [← Option.some.inj hslot]
      exact hstage
    · cases hslot
  | storeReceiveTime index =>
    rw [← Option.some.inj hslot]
    exact hstage.2
  | storeMessageLatency index =>
    rw [← Option.some.inj hslot]
    exact hstage.2
  | storeLatency currentCount => cases hfits
  | _ => cases hslot

/-- A call that is not the one appended is where it was. -/
theorem holds_append {fetchers : List ℕ} {n m : ℕ} {stage : MessageStage}
    (h : MessageHolds fetchers n stage) (hne : n ≠ m) :
    MessageHolds (fetchers ++ [m]) n stage := by
  cases stage with
  | waiting =>
    simp only [MessageHolds, List.mem_append, List.mem_singleton, not_or]
    exact ⟨h, hne⟩
  | chosen index => exact lookup_append h
  | writing index => exact ⟨h.1, lookup_append h.2⟩
  | written index => exact ⟨h.1, lookup_append h.2⟩
  | done => trivial

section Moves

variable {T : Type*} {calls : List Call} {id : T → ℕ} {written written' : ℕ → ℕ → Prop}
variable {fetchers : List ℕ} {u v : Pool T PerformanceStats Call Pc} {t : T} {call : Call}
variable {s' : PerformanceStats} {point : Pc} {next : Option Pc} {k : ℕ}

/-- What is pending stays so if the moving thread keeps what it had ahead. -/
theorem pending_moved {ahead : MessageStage → Option UInt64} (h : Pending ahead u k)
    (hframe : u.frames t = some (call, point)) (hmoved : Moved u v t call s' next)
    (hkeep : ∀ index, ahead (messageStage point) = some index → index.toNat = k →
      ∃ q, next = some q ∧ ahead (messageStage q) = some index) : Pending ahead v k := by
  obtain ⟨t', call', point', index, hpending, hahead, hindex⟩ := h
  by_cases ht : t' = t
  · subst ht
    rw [hframe] at hpending
    cases hpending
    obtain ⟨q, hnext, hq⟩ := hkeep index hahead hindex
    refine ⟨t', call, q, index, ?_, hq, hindex⟩
    rw [hmoved.own, hnext]
    rfl
  · exact ⟨t', call', point', index, (hmoved.others t' ht).trans hpending, hahead, hindex⟩

theorem served_moved (h : ∀ n < calls.length, n ∈ fetchers ∨
      ∃ t call, u.frames t = some (call, .addMessageCount) ∧ id t = n)
    (hframe : u.frames t = some (call, point)) (hpoint : point ≠ .addMessageCount)
    (hmoved : Moved u v t call s' next) :
    ∀ n < calls.length, n ∈ fetchers ∨
      ∃ t call, v.frames t = some (call, .addMessageCount) ∧ id t = n := by
  intro n hn
  rcases h n hn with hmem | ⟨t', call', hwaiting, hid⟩
  · exact Or.inl hmem
  · have hne : t' ≠ t := by
      rintro rfl
      rw [hframe] at hwaiting
      cases hwaiting
      exact hpoint rfl
    exact Or.inr ⟨t', call', (hmoved.others t' hne).trans hwaiting, hid⟩

/-- A step that changes neither the counter nor the records. Of the slots it has ahead, the call
drops none that there is room for. -/
theorem fetched_quiet (h : Fetched calls id written fetchers u)
    (hframe : u.frames t = some (call, point)) (hpoint : point ≠ .addMessageCount)
    (hmoved : Moved u v t call s' next) (hcount : s'.messageCount = u.shared.messageCount)
    (hsame : SameDetails u.shared s')
    (hstage : ∀ q, next = some q → MessageHolds fetchers (id t) (messageStage q))
    (hlatency : ∀ index, latencyAhead (messageStage point) = some index →
      index.toNat < detailedRecordCount →
      ∃ q, next = some q ∧ latencyAhead (messageStage q) = some index)
    (hcountAhead : ∀ index, countAhead (messageStage point) = some index →
      index.toNat < detailedRecordCount →
      ∃ q, next = some q ∧ countAhead (messageStage q) = some index)
    (hwritten : ∀ k n, written' k n → fetchers[k]? = some n) :
    Fetched calls id written' fetchers v := by
  refine ⟨?_, ?_, h.nodup, h.started, ?_, ?_, ?_,
    served_moved h.served hframe hpoint hmoved, hwritten⟩
  · rw [hmoved.shared, hcount]
    exact h.count
  · rw [hmoved.shared, ← hsame.recordedCount]
    exact h.recorded
  · intro t' call' point' hframe'
    rcases hmoved.cases hframe' with ⟨rfl, _, hnext⟩ | ⟨_, hold⟩
    · exact hstage point' hnext
    · exact h.stages t' call' point' hold
  · intro k n hk hn
    rcases h.slots k n hk hn with hstored | hpending
    · left
      rwa [hmoved.shared, ← hsame.latencies]
    · right
      exact pending_moved hpending hframe hmoved
        (fun index hahead hindex => hlatency index hahead (hindex ▸ hk))
  · intro k n hk hn
    rcases h.counted k n hk hn with hcounted | hpending
    · left
      rwa [hmoved.shared, ← hsame.recordedCount]
    · right
      exact pending_moved hpending hframe hmoved
        (fun index hahead hindex => hcountAhead index hahead (hindex ▸ hk))

/-- The latency goes to the slot of the index, which is the call's own. -/
theorem fetched_store {index : UInt64} (h : Fetched calls id written fetchers u)
    (hframe : u.frames t = some (call, .storeMessageLatency index))
    (hmoved : Moved u v t call s' (some (.storeRecordedCount index)))
    (hcount : s'.messageCount = u.shared.messageCount)
    (hrecorded : s'.recordedCount = u.shared.recordedCount)
    (hslots : s'.latencies = Function.update u.shared.latencies index.toNat call.latency)
    (hlookup : calls[id t]? = some call)
    (hwritten : ∀ k n, written' k n → fetchers[k]? = some n) :
    Fetched calls id written' fetchers v := by
  obtain ⟨hroom, hholds⟩ := h.stages t call _ hframe
  refine ⟨?_, ?_, h.nodup, h.started, ?_, ?_, ?_,
    served_moved h.served hframe (by simp) hmoved, hwritten⟩
  · rw [hmoved.shared, hcount]
    exact h.count
  · rw [hmoved.shared, hrecorded]
    exact h.recorded
  · intro t' call' point' hframe'
    rcases hmoved.cases hframe' with ⟨rfl, _, hnext⟩ | ⟨_, hold⟩
    · obtain rfl := Option.some.inj hnext
      exact ⟨hroom, hholds⟩
    · exact h.stages t' call' point' hold
  · intro k n hk hn
    rw [hmoved.shared, hslots]
    by_cases hown : k = index.toNat
    · subst hown
      rw [hholds] at hn
      obtain rfl := Option.some.inj hn
      exact Or.inl ⟨call, hlookup, Function.update_self _ _ _⟩
    · rw [Function.update_of_ne hown]
      rcases h.slots k n hk hn with hstored | hpending
      · exact Or.inl hstored
      · right
        refine pending_moved hpending hframe hmoved ?_
        intro index' hahead hindex'
        cases hahead
        exact absurd hindex'.symm hown
  · intro k n hk hn
    rw [hmoved.shared, hrecorded]
    rcases h.counted k n hk hn with hcounted | hpending
    · exact Or.inl hcounted
    · right
      refine pending_moved hpending hframe hmoved ?_
      intro index' hahead _
      exact ⟨_, rfl, hahead⟩

/-- The number of records is raised to the slot of the call, and not lowered below another. -/
theorem fetched_count {index : UInt64} (h : Fetched calls id written fetchers u)
    (hframe : u.frames t = some (call, .storeRecordedCount index))
    (hmoved : Moved u v t call s' (some .addBucket))
    (hcount : s'.messageCount = u.shared.messageCount)
    (hrecorded : s'.recordedCount = index + 1)
    (hslots : s'.latencies = u.shared.latencies)
    (horder : u.shared.recordedCount.toNat ≤ index.toNat + 1)
    (hwritten : ∀ k n, written' k n → fetchers[k]? = some n) :
    Fetched calls id written' fetchers v := by
  obtain ⟨hroom, hholds⟩ := h.stages t call _ hframe
  have hlt := (List.getElem?_eq_some_iff.mp hholds).1
  have hnew : (index + 1).toNat = index.toNat + 1 :=
    toNat_add_one _ (Nat.lt_trans (Nat.succ_lt_succ hroom) (by decide))
  refine ⟨?_, ?_, h.nodup, h.started, ?_, ?_, ?_,
    served_moved h.served hframe (by simp) hmoved, hwritten⟩
  · rw [hmoved.shared, hcount]
    exact h.count
  · rw [hmoved.shared, hrecorded, hnew]
    omega
  · intro t' call' point' hframe'
    rcases hmoved.cases hframe' with ⟨rfl, _, hnext⟩ | ⟨_, hold⟩
    · obtain rfl := Option.some.inj hnext
      trivial
    · exact h.stages t' call' point' hold
  · intro k n hk hn
    rw [hmoved.shared, hslots]
    rcases h.slots k n hk hn with hstored | hpending
    · exact Or.inl hstored
    · right
      refine pending_moved hpending hframe hmoved ?_
      intro index' hahead _
      cases hahead
  · intro k n hk hn
    rw [hmoved.shared, hrecorded, hnew]
    by_cases hown : k = index.toNat
    · exact Or.inl (by omega)
    · rcases h.counted k n hk hn with hcounted | hpending
      · exact Or.inl (by omega)
      · right
        refine pending_moved hpending hframe hmoved ?_
        intro index' hahead hindex'
        cases hahead
        exact absurd hindex'.symm hown

/-- The call fetches the next index, which no call has had while the counter has not wrapped. -/
theorem fetched_fetch {q : Pc} (h : Fetched calls id written fetchers u)
    (hframe : u.frames t = some (call, .addMessageCount))
    (hmoved : Moved u v t call s' (some q)) (hq : messageStage q = .chosen u.shared.messageCount)
    (hcount : s'.messageCount = u.shared.messageCount + 1) (hsame : SameDetails u.shared s')
    (hfits : calls.length ≤ 2 ^ 64) (hid : id t < calls.length)
    (hdistinct : ∀ t' frame, t' ≠ t → u.frames t' = some frame → id t' ≠ id t)
    (hwritten : ∀ k n, written' k n → fetchers[k]? = some n) :
    Fetched calls id written' (fetchers ++ [id t]) v := by
  have hnew : id t ∉ fetchers := h.stages t call _ hframe
  have hnodup : (fetchers ++ [id t]).Nodup := by
    rw [← List.concat_eq_append]
    exact h.nodup.concat hnew
  have hstarted : ∀ n ∈ fetchers ++ [id t], n < calls.length := by
    intro n hn
    rcases List.mem_append.mp hn with hold | hlast
    · exact h.started n hold
    · rw [List.mem_singleton.mp hlast]
      exact hid
  have hlength := length_le_of_lt hnodup hstarted
  rw [List.length_append, List.length_singleton] at hlength
  have hindex : u.shared.messageCount.toNat = fetchers.length := by
    rw [h.count]
    exact Nat.mod_eq_of_lt (by omega)
  have hown : v.frames t = some (call, q) := hmoved.own
  have hold : ∀ k n, k ≠ fetchers.length → (fetchers ++ [id t])[k]? = some n →
      fetchers[k]? = some n := by
    intro k n hne hk
    have hbound := (List.getElem?_eq_some_iff.mp hk).1
    rw [List.length_append, List.length_singleton] at hbound
    rwa [List.getElem?_append_left (by omega)] at hk
  refine ⟨?_, ?_, hnodup, hstarted, ?_, ?_, ?_, ?_, ?_⟩
  · rw [hmoved.shared, hcount, List.length_append]
    exact total_add _ 1 _ h.count
  · rw [hmoved.shared, ← hsame.recordedCount, List.length_append]
    have hrecorded := h.recorded
    omega
  · intro t' call' point' hframe'
    rcases hmoved.cases hframe' with ⟨rfl, _, hnext⟩ | ⟨hne, hbefore⟩
    · obtain rfl := Option.some.inj hnext
      rw [hq]
      change (fetchers ++ [id t'])[u.shared.messageCount.toNat]? = _
      rw [hindex, List.getElem?_concat_length]
    · exact holds_append (h.stages t' call' point' hbefore) (hdistinct t' _ hne hbefore)
  · intro k n hk hn
    by_cases hlast : k = fetchers.length
    · right
      exact ⟨t, call, q, _, hown, by rw [hq]; rfl, hindex.trans hlast.symm⟩
    · rcases h.slots k n hk (hold k n hlast hn) with hstored | hpending
      · left
        rwa [hmoved.shared, ← hsame.latencies]
      · right
        refine pending_moved hpending hframe hmoved ?_
        intro index hahead _
        cases hahead
  · intro k n hk hn
    by_cases hlast : k = fetchers.length
    · right
      exact ⟨t, call, q, _, hown, by rw [hq]; rfl, hindex.trans hlast.symm⟩
    · rcases h.counted k n hk (hold k n hlast hn) with hcounted | hpending
      · left
        rwa [hmoved.shared, ← hsame.recordedCount]
      · right
        refine pending_moved hpending hframe hmoved ?_
        intro index hahead _
        cases hahead
  · intro n hn
    rcases h.served n hn with hmem | ⟨t', call', hwaiting, hid'⟩
    · exact Or.inl (List.mem_append_left _ hmem)
    · by_cases ht : t' = t
      · left
        rw [← hid', ht]
        exact List.mem_append_right _ (List.mem_singleton_self _)
      · exact Or.inr ⟨t', call', (hmoved.others t' ht).trans hwaiting, hid'⟩
  · intro k n hk
    exact lookup_append (hwritten k n hk)

end Moves

section Runs

variable {T : Type*} [DecidableEq T] {limits : Fin 10 → UInt64}
variable {actions : List (Action T Call)} {u v p : Pool T PerformanceStats Call Pc}

theorem fetched_start {calls : List Call} {id : T → ℕ} {written written' : ℕ → ℕ → Prop}
    {fetchers : List ℕ} {t : T} {call : Call} (h : Fetched calls id written fetchers u)
    (hstep : RecorderStep T u (.start t call) v)
    (hwritten : ∀ k n, written' k n → written k n) :
    Fetched (calls ++ [call]) (Function.update id t calls.length) written' fetchers v := by
  have hcases := frame_cases_start hstep
  have hkeep := frame_of_start hstep
  obtain ⟨_, rfl⟩ := hstep
  have hpending : ∀ ahead k, Pending ahead u k → Pending ahead
      { u with frames := Function.update u.frames t (some (call, .addMessageCount)) } k := by
    rintro ahead k ⟨t', call', point, index, hframe, hahead, hindex⟩
    exact ⟨t', call', point, index, (hkeep t' _ hframe).2, hahead, hindex⟩
  refine ⟨h.count, h.recorded, h.nodup, ?_, ?_, ?_, ?_, ?_,
    fun k n hk => h.written k n (hwritten k n hk)⟩
  · intro n hn
    rw [List.length_append]
    exact Nat.lt_add_right _ (h.started n hn)
  · intro t' call' point hframe
    rcases hcases t' call' point hframe with ⟨rfl, _, rfl⟩ | ⟨hne, hold⟩
    · intro hmem
      rw [Function.update_self] at hmem
      exact Nat.lt_irrefl _ (h.started _ hmem)
    · rw [Function.update_of_ne hne]
      exact h.stages t' call' point hold
  · intro k n hk hn
    rcases h.slots k n hk hn with ⟨owner, hlookup, hstored⟩ | hahead
    · exact Or.inl ⟨owner, lookup_append hlookup, hstored⟩
    · exact Or.inr (hpending _ k hahead)
  · intro k n hk hn
    rcases h.counted k n hk hn with hcounted | hahead
    · exact Or.inl hcounted
    · exact Or.inr (hpending _ k hahead)
  · intro n hn
    rw [List.length_append, List.length_singleton] at hn
    by_cases hnew : n = calls.length
    · exact Or.inr ⟨t, call, Function.update_self _ _ _, by rw [Function.update_self, hnew]⟩
    · rcases h.served n (by omega) with hmem | ⟨t', call', hwaiting, hid⟩
      · exact Or.inl hmem
      · obtain ⟨hne, hwaiting'⟩ := hkeep t' _ hwaiting
        refine Or.inr ⟨t', call', hwaiting', ?_⟩
        rw [Function.update_of_ne hne]
        exact hid

theorem fetched_advance {t : T} {sendTime receiveTime : TimestampNs} {point : Pc}
    {fetchers : List ℕ} (hrun : Run (RecorderStep T) (idle (freshStats limits)) actions u)
    (hcalls : (callsOf actions).length ≤ 2 ^ 64)
    (h : Fetched (callsOf actions) (callId actions) (WrittenBy (freshStats limits) actions)
      fetchers u)
    (hframe : u.frames t = some (.recordMessageLatency sendTime receiveTime, point))
    (hstep : RecorderStep T u (.advance t) v) (horder : undisturbed u.shared point = true) :
    ∃ fetchers, Fetched (callsOf actions) (callId actions)
      (WrittenBy (freshStats limits) (actions ++ [.advance t])) fetchers v := by
  have hmoved := moved_of_step hstep hframe
  have hfits := fits_run hrun hframe
  have hident := identified_run hrun
  have hstage := h.stages t _ point hframe
  have hwritten : ∀ k n, WrittenBy (freshStats limits) (actions ++ [.advance t]) k n →
      fetchers[k]? = some n := by
    intro k n hk
    rcases writtenBy_advance hrun hframe k n hk with hold | ⟨hslot, rfl⟩
    · exact h.written k n hold
    · exact slot_of_holds sendTime receiveTime hfits hstage hslot
  cases message_move u.shared sendTime receiveTime point hfits with
  | fetch q hpoint hcount hsame hnext hq =>
    subst hpoint
    rw [hnext] at hmoved
    refine ⟨_, fetched_fetch h hframe hmoved hq hcount hsame hcalls (hident.lt hframe) ?_
      hwritten⟩
    intro t' frame hne hframe' hid
    exact hne (hident.distinct t' t frame _ hframe' hframe hid)
  | goOn q hbusy hcount hsame hnext hq =>
    refine ⟨fetchers, fetched_quiet h hframe ?_ hmoved hcount hsame ?_ ?_ ?_ hwritten⟩
    · rintro rfl
      exact hbusy rfl
    · intro q' hq'
      rw [hnext] at hq'
      obtain rfl := Option.some.inj hq'
      rw [hq]
      exact hstage
    · intro index hahead _
      exact ⟨q, hnext, by rw [hq]; exact hahead⟩
    · intro index hahead _
      exact ⟨q, hnext, by rw [hq]; exact hahead⟩
  | pass index hpoint hroom hcount hsame hnext =>
    subst hpoint
    refine ⟨fetchers, fetched_quiet h hframe (by simp) hmoved hcount hsame ?_ ?_ ?_ hwritten⟩
    · intro q' hq'
      rw [hnext] at hq'
      obtain rfl := Option.some.inj hq'
      exact ⟨hroom, hstage⟩
    · intro index' hahead _
      exact ⟨_, hnext, hahead⟩
    · intro index' hahead _
      exact ⟨_, hnext, hahead⟩
  | skip index hpoint hfull hcount hsame hnext =>
    subst hpoint
    refine ⟨fetchers, fetched_quiet h hframe (by simp) hmoved hcount hsame ?_ ?_ ?_ hwritten⟩
    · intro q' hq'
      rw [hnext] at hq'
      obtain rfl := Option.some.inj hq'
      trivial
    · intro index' hahead hroom
      cases hahead
      exact absurd hroom (Nat.not_lt.mpr hfull)
    · intro index' hahead hroom
      cases hahead
      exact absurd hroom (Nat.not_lt.mpr hfull)
  | store index hpoint hcount hrecorded hslots hnext =>
    subst hpoint
    rw [hnext] at hmoved
    exact ⟨fetchers, fetched_store h hframe hmoved hcount hrecorded hslots
      (hident.lookup t _ _ hframe) hwritten⟩
  | count index hpoint hcount hrecorded hslots hnext =>
    subst hpoint
    rw [hnext] at hmoved
    exact ⟨fetchers, fetched_count h hframe hmoved hcount hrecorded hslots
      (of_decide_eq_true horder) hwritten⟩
  | finish hpoint hcount hsame hnext =>
    subst hpoint
    refine ⟨fetchers, fetched_quiet h hframe (by simp) hmoved hcount hsame ?_ ?_ ?_ hwritten⟩
    · intro q' hq'
      rw [hnext] at hq'
      cases hq'
    · intro index' hahead
      cases hahead
    · intro index' hahead
      cases hahead

/-- The list exists after every run of at most 2^64 calls of `record_message_latency` whose steps
are undisturbed. -/
theorem fetched_run (hrun : Run (OrderlyStep T) (idle (freshStats limits)) actions p)
    (hmessages : ∀ call ∈ callsOf actions,
      ∃ sendTime receiveTime, call = .recordMessageLatency sendTime receiveTime)
    (hcalls : (callsOf actions).length ≤ 2 ^ 64) :
    ∃ fetchers, Fetched (callsOf actions) (callId actions) (WrittenBy (freshStats limits) actions)
      fetchers p := by
  revert hmessages hcalls
  apply hrun.invariant (P := fun actions p =>
    (∀ call ∈ callsOf actions,
        ∃ sendTime receiveTime, call = .recordMessageLatency sendTime receiveTime) →
      (callsOf actions).length ≤ 2 ^ 64 →
      ∃ fetchers, Fetched (callsOf actions) (callId actions)
        (WrittenBy (freshStats limits) actions) fetchers p)
  · intro _ _
    exact ⟨[], fetched_fresh limits _ _ (fun _ _ => not_occurred_nil)⟩
  · intro actions u a v hprefix ih hstep hmessages hcalls
    have hplain := orderly_run hprefix
    obtain ⟨hpool, horder⟩ := hstep
    cases a with
    | start t call =>
      rw [callsOf_start] at hmessages hcalls ⊢
      rw [List.length_append, List.length_singleton] at hcalls
      rw [callId_start]
      obtain ⟨fetchers, h⟩ :=
        ih (fun call hcall => hmessages call (List.mem_append_left _ hcall)) (by omega)
      exact ⟨fetchers, fetched_start h hpool (writtenBy_start hplain)⟩
    | advance t =>
      rw [callsOf_advance] at hmessages hcalls ⊢
      rw [callId_advance]
      obtain ⟨fetchers, h⟩ := ih hmessages hcalls
      obtain ⟨call, point, hframe, _⟩ := id hpool
      obtain ⟨sendTime, receiveTime, rfl⟩ :=
        hmessages call (active_started hplain t call point hframe)
      exact fetched_advance hplain hcalls h hframe hpool
        (undisturbed_of_orderly horder hframe)

end Runs

/-- With no call in progress every call has its index, and the first thousand have stored their
latencies and been counted. -/
theorem intact_of_fetched {T : Type*} {calls : List Call} {id : T → ℕ}
    {written : ℕ → ℕ → Prop} {fetchers : List ℕ} {p : Pool T PerformanceStats Call Pc}
    (h : Fetched calls id written fetchers p) (hquiet : Quiescent p) :
    DetailsIntact calls written p.shared := by
  have hpending : ∀ ahead k, ¬ Pending ahead p k := by
    rintro ahead k ⟨t, call, point, index, hframe, _⟩
    rw [hquiet t] at hframe
    cases hframe
  have hlength : fetchers.length = calls.length := by
    apply length_eq_of_covers h.nodup h.started
    intro n hn
    rcases h.served n hn with hmem | ⟨t, call, hframe, _⟩
    · exact hmem
    · rw [hquiet t] at hframe
      cases hframe
  have hcount : p.shared.recordedCount.toNat = min fetchers.length detailedRecordCount := by
    have hle := h.recorded
    by_contra hne
    have hroom : p.shared.recordedCount.toNat < fetchers.length := by omega
    -- the first slot that is not counted has been fetched, so its call has counted it
    rcases h.counted p.shared.recordedCount.toNat _ (by omega) (List.getElem?_eq_getElem hroom)
      with hcounted | hahead
    · exact Nat.lt_irrefl _ hcounted
    · exact hpending _ _ hahead
  refine ⟨hlength ▸ hcount, ⟨fetchers.take detailedRecordCount, ?_, ?_, ?_⟩, ?_⟩
  · exact h.nodup.sublist (List.take_sublist _ _)
  · rw [List.length_take, hcount, Nat.min_comm]
  · intro k n hk
    have hbound := (List.getElem?_eq_some_iff.mp hk).1
    rw [List.length_take] at hbound
    rw [List.getElem?_take_of_lt (by omega)] at hk
    rcases h.slots k n (by omega) hk with hstored | hahead
    · exact hstored
    · exact absurd hahead (hpending _ k)
  · intro k n n' hn hn'
    have hfirst := h.written k n hn
    rw [h.written k n' hn'] at hfirst
    exact (Option.some.inj hfirst).symm

/-- Any number of threads call one recorder on a fresh object of either kind. If no
compare-and-swap on the number of records fails before the slots are used up, no store lowers
that number and `record_message_latency` is called at most 2^64 times, then with no call in
progress the number of records is that of the calls, up to a thousand, each record is the
latency of a call of its own, and no slot was written by two calls. -/
theorem details_intact {T : Type} [DecidableEq T] (initial : PerformanceStats)
    (hinitial : initial = createPerformanceStats ∨ initial = initPerformanceStats)
    (actions : List (Action T Call)) (p : Pool T PerformanceStats Call Pc)
    (hrun : Run (OrderlyStep T) (idle initial) actions p)
    (hcalls : (∀ call ∈ callsOf actions, ∃ l, call = .recordLatency l) ∨
      (∀ call ∈ callsOf actions,
        ∃ sendTime receiveTime, call = .recordMessageLatency sendTime receiveTime) ∧
        (callsOf actions).length ≤ 2 ^ 64)
    (hquiet : Quiescent p) :
    DetailsIntact (callsOf actions) (WrittenBy initial actions) p.shared := by
  obtain ⟨limits, _, _, rfl⟩ := exists_limits initial hinitial
  rcases hcalls with hlatencies | ⟨hmessages, hfew⟩
  · obtain ⟨holders, h⟩ := reserved_run hrun hlatencies
    exact intact_of_reserved h hquiet
  · obtain ⟨fetchers, h⟩ := fetched_run hrun hmessages hfew
    exact intact_of_fetched h hquiet

/-- Two calls overlap until the first of them has its slot. -/
def overlappingCalls : List (Action Bool Call) :=
  [.start true (.recordLatency 5), .start false (.recordLatency 7)] ++ advances true 7 ++
    advances false 7 ++ advances true 3 ++ advances false 3

theorem overlappingCalls_intact :
    ∃ p, Run (OrderlyStep Bool) (idle createPerformanceStats) overlappingCalls p ∧
      DetailsIntact (callsOf overlappingCalls) (WrittenBy createPerformanceStats overlappingCalls)
        p.shared := by
  obtain ⟨p, hrun, htest⟩ := exists_run_of_execute Pc.addMessageCount advance orderly
    (idle createPerformanceStats) overlappingCalls bothIdle (by decide)
  refine ⟨p, hrun, details_intact createPerformanceStats (Or.inl rfl) overlappingCalls p hrun
    (Or.inl ?_) (quiescent_of_bothIdle htest)⟩
  have hcalls : callsOf overlappingCalls = [.recordLatency 5, .recordLatency 7] := rfl
  simp [hcalls]

/-- Both calls read that there is no record yet; one compare-and-swap fails. -/
def failedReservation : List (Action Bool Call) :=
  [.start true (.recordLatency 5), .start false (.recordLatency 7)] ++ advances true 8 ++
    advances false 8 ++ advances true 2 ++ advances false 1

/-- The first call publishes its count of one after the second has published two. -/
def latePublication : List (Action Bool Call) :=
  [.start true (.recordMessageLatency 0 5), .start false (.recordMessageLatency 0 7)] ++
    advances true 14 ++ advances false 13 ++ advances true 2

theorem not_intact_of_lost {calls : List Call} {written : ℕ → ℕ → Prop} {s : PerformanceStats}
    (hcalls : calls.length = 2) (hcount : s.recordedCount = 1) :
    ¬ DetailsIntact calls written s := by
  intro h
  have hrecorded := h.recordedCount
  rw [hcalls, hcount] at hrecorded
  exact absurd hrecorded (by decide)

/-- Two calls of `record_latency` leave one record, and so do two calls of
`record_message_latency`. -/
theorem details_lost :
    (∃ p, Run (RecorderStep Bool) (idle createPerformanceStats) failedReservation p ∧
        Quiescent p ∧ callsOf failedReservation = [.recordLatency 5, .recordLatency 7] ∧
        ¬ DetailsIntact (callsOf failedReservation)
          (WrittenBy createPerformanceStats failedReservation) p.shared) ∧
      ∃ p, Run (RecorderStep Bool) (idle createPerformanceStats) latePublication p ∧
        Quiescent p ∧
        callsOf latePublication = [.recordMessageLatency 0 5, .recordMessageLatency 0 7] ∧
        ¬ DetailsIntact (callsOf latePublication)
          (WrittenBy createPerformanceStats latePublication) p.shared := by
  constructor
  · obtain ⟨p, hrun, htest⟩ := exists_run_of_execute Pc.addMessageCount advance (fun _ _ => true)
      (idle createPerformanceStats) failedReservation
      (fun p => bothIdle p && p.shared.recordedCount = 1) (by decide)
    simp only [Bool.and_eq_true, decide_eq_true_eq] at htest
    exact ⟨p, hrun.mono (fun _ _ _ hstep => hstep.1), quiescent_of_bothIdle htest.1, rfl,
      not_intact_of_lost rfl htest.2⟩
  · obtain ⟨p, hrun, htest⟩ := exists_run_of_execute Pc.addMessageCount advance (fun _ _ => true)
      (idle createPerformanceStats) latePublication
      (fun p => bothIdle p && p.shared.recordedCount = 1) (by decide)
    simp only [Bool.and_eq_true, decide_eq_true_eq] at htest
    exact ⟨p, hrun.mono (fun _ _ _ hstep => hstep.1), quiescent_of_bothIdle htest.1, rfl,
      not_intact_of_lost rfl htest.2⟩

end AeronFast.DetailedRecords
