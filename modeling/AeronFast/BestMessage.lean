import AeronFast.DetailedRecords

/-!
The message of the least latency under concurrent calls. A call that lowers
the minimum stores its index and its two times afterwards, in three steps of
their own; a slower call may still make its stores after those of a faster
one. While every such store comes before the same store of the call that
holds the minimum, the three fields end up as those of that call.
-/
namespace AeronFast.BestMessage

open CommonTypes WordArithmetic LabelledRuns Interleaving CallHistories Recorders AtomicRecorders
open LockFreeAggregates RecorderAgreement DetailSlots DetailedRecords

/-- How many of the three stores after a new minimum are still to be made. -/
def storesLeft : Pc → ℕ
  | .storeMinIndex _ => 3
  | .storeMinSendTime _ => 2
  | .storeMinReceiveTime _ => 1
  | _ => 0

/-- In the history call number `n` fetched the message index. -/
def FetchedIndex {T : Type*} [DecidableEq T] (s₀ : PerformanceStats)
    (actions : List (Action T Call)) (n : ℕ) (index : UInt64) : Prop :=
  Occurred Pc.addMessageCount advance s₀
    (fun p t => p.shared.messageCount = index ∧
      ∃ call, p.frames t = some (call, .addMessageCount)) actions n

/-- The three fields are those of one call, counting messages from one, and its latency is the
minimum. -/
def BestRecorded (calls : List Call) (fetched : ℕ → UInt64 → Prop) (s : PerformanceStats) :
    Prop :=
  (∃ n sendTime receiveTime index,
    calls[n]? = some (.recordMessageLatency sendTime receiveTime) ∧ fetched n index ∧
      s.minLatencyMessageIndex = index + 1 ∧ s.minLatencySendTime = sendTime ∧
      s.minLatencyReceiveTime = receiveTime) ∧
    s.minLatencyReceiveTime - s.minLatencySendTime = s.minLatency

/-- A call stores one of the fields only while the call that holds the minimum, perhaps the same
one, has that store still ahead. -/
def InTurn {T : Type*} (p : Pool T PerformanceStats Call Pc) (a : Action T Call) : Prop :=
  ∀ t call point, a = .advance t → p.frames t = some (call, point) → 0 < storesLeft point →
    ∃ t' call' point', p.frames t' = some (call', point') ∧
      call'.latency = p.shared.minLatency ∧ storesLeft point ≤ storesLeft point'

def InTurnStep (T : Type*) [DecidableEq T] (p : Pool T PerformanceStats Call Pc)
    (a : Action T Call) (q : Pool T PerformanceStats Call Pc) : Prop :=
  RecorderStep T p a q ∧ InTurn p a

/-- The minimum and what was stored with it. -/
structure SameMinimum (s s' : PerformanceStats) : Prop where
  minLatency : s'.minLatency = s.minLatency
  messageIndex : s'.minLatencyMessageIndex = s.minLatencyMessageIndex
  sendTime : s'.minLatencySendTime = s.minLatencySendTime
  receiveTime : s'.minLatencyReceiveTime = s.minLatencyReceiveTime

/-- What a step of `record_message_latency` does to the minimum and the fields stored with it. -/
inductive MinMove (s : PerformanceStats) (call : Call) (point : Pc) (s' : PerformanceStats)
    (next : Option Pc) : Prop
  | lower (index : UInt64) (hpoint : point = .minLoop index s.minLatency)
      (hless : call.latency < s.minLatency) (hmin : s'.minLatency = call.latency)
      (hnext : next = some (.storeMinIndex index))
  | store (index : UInt64) (q : Pc) (hleft : 0 < storesLeft point)
      (hindex : countAhead (messageStage point) = some index)
      (hmin : s'.minLatency = s.minLatency)
      (hmessage : s'.minLatencyMessageIndex =
        if storesLeft point = 3 then index + 1 else s.minLatencyMessageIndex)
      (hsend : s'.minLatencySendTime =
        if storesLeft point = 2 then call.sendTime else s.minLatencySendTime)
      (hreceive : s'.minLatencyReceiveTime =
        if storesLeft point = 1 then call.receiveTime else s.minLatencyReceiveTime)
      (hnext : next = some q) (hq : storesLeft q = storesLeft point - 1)
      (hindex' : countAhead (messageStage q) = some index)
  | other (hleft : storesLeft point = 0) (hsame : SameMinimum s s')
      (hnext : ∀ q, next = some q → storesLeft q = 0)

theorem min_move (s : PerformanceStats) (sendTime receiveTime : TimestampNs) (point : Pc) :
    MinMove s (.recordMessageLatency sendTime receiveTime) point
      (advance s (.recordMessageLatency sendTime receiveTime) point).1
      (advance s (.recordMessageLatency sendTime receiveTime) point).2 := by
  cases point with
  | minLoop index current =>
    simp only [advance]
    split_ifs with hless hsame
    · subst hsame
      exact .lower index rfl hless rfl rfl
    · exact .other rfl ⟨rfl, rfl, rfl, rfl⟩ (by simp [storesLeft])
    · exact .other rfl ⟨rfl, rfl, rfl, rfl⟩ (by simp [storesLeft])
  | storeMinIndex index => exact .store index _ (Nat.succ_pos _) rfl rfl rfl rfl rfl rfl rfl rfl
  | storeMinSendTime index => exact .store index _ (Nat.succ_pos _) rfl rfl rfl rfl rfl rfl rfl rfl
  | storeMinReceiveTime index => exact .store index _ (Nat.succ_pos _) rfl rfl rfl rfl rfl rfl rfl rfl
  | maxLoop index current =>
    simp only [advance]
    split_ifs
    all_goals exact .other rfl ⟨rfl, rfl, rfl, rfl⟩ (by simp [storesLeft, Call.afterMax])
  | storeSendTime index =>
    simp only [advance]
    split_ifs
    all_goals exact .other rfl ⟨rfl, rfl, rfl, rfl⟩ (by simp [storesLeft])
  | casRecordedCount currentCount =>
    simp only [advance]
    split_ifs
    all_goals exact .other rfl ⟨rfl, rfl, rfl, rfl⟩ (by simp [storesLeft])
  | loadRecordedCount =>
    refine .other rfl ⟨rfl, rfl, rfl, rfl⟩ ?_
    intro q hq
    simp only [advance] at hq
    split_ifs at hq
    obtain rfl := Option.some.inj hq
    rfl
  | _ =>
    refine MinMove.other rfl ⟨rfl, rfl, rfl, rfl⟩ ?_
    simp [advance, storesLeft, Call.afterCount, Call.afterBucket]

section Fetches

variable {T : Type*} [DecidableEq T] {limits : Fin 10 → UInt64} {s₀ : PerformanceStats}
variable {actions : List (Action T Call)} {u v p : Pool T PerformanceStats Call Pc}

/-- What a call has ahead is what it had ahead before or the index it has just fetched. -/
theorem countAhead_next (s : PerformanceStats) (sendTime receiveTime : TimestampNs)
    (point q : Pc) (index : UInt64)
    (hfits : fits (.recordMessageLatency sendTime receiveTime) point = true)
    (hnext : (advance s (.recordMessageLatency sendTime receiveTime) point).2 = some q)
    (hindex : countAhead (messageStage q) = some index) :
    countAhead (messageStage point) = some index ∨
      point = .addMessageCount ∧ s.messageCount = index := by
  cases message_move s sendTime receiveTime point hfits with
  | fetch q' hpoint _ _ hnext' hq =>
    rw [hnext] at hnext'
    obtain rfl := Option.some.inj hnext'
    rw [hq] at hindex
    exact Or.inr ⟨hpoint, Option.some.inj hindex⟩
  | goOn q' _ _ _ hnext' hq =>
    rw [hnext] at hnext'
    obtain rfl := Option.some.inj hnext'
    rw [← hq]
    exact Or.inl hindex
  | pass index' hpoint _ _ _ hnext' =>
    subst hpoint
    rw [hnext] at hnext'
    obtain rfl := Option.some.inj hnext'
    exact Or.inl hindex
  | skip _ _ _ _ _ hnext' =>
    rw [hnext] at hnext'
    obtain rfl := Option.some.inj hnext'
    cases hindex
  | store index' hpoint _ _ _ hnext' =>
    subst hpoint
    rw [hnext] at hnext'
    obtain rfl := Option.some.inj hnext'
    exact Or.inl hindex
  | count _ _ _ _ _ hnext' =>
    rw [hnext] at hnext'
    obtain rfl := Option.some.inj hnext'
    cases hindex
  | finish _ _ _ hnext' =>
    rw [hnext] at hnext'
    cases hnext'

/-- The index that a busy call carries along is the one it fetched. -/
theorem fetchedIndex_run (hrun : Run (RecorderStep T) (idle s₀) actions p)
    (hmessages : ∀ call ∈ callsOf actions,
      ∃ sendTime receiveTime, call = .recordMessageLatency sendTime receiveTime) :
    ∀ t call point index, p.frames t = some (call, point) →
      countAhead (messageStage point) = some index →
      FetchedIndex s₀ actions (callId actions t) index := by
  revert hmessages
  apply hrun.invariant (P := fun actions p =>
    (∀ call ∈ callsOf actions,
        ∃ sendTime receiveTime, call = .recordMessageLatency sendTime receiveTime) →
      ∀ t call point index, p.frames t = some (call, point) →
        countAhead (messageStage point) = some index →
        FetchedIndex s₀ actions (callId actions t) index)
  · intro _ t call point index h
    cases h
  · intro actions u a v hprefix ih hstep hmessages t call point index hframe hindex
    cases a with
    | start t' call' =>
      rw [callsOf_start] at hmessages
      rcases frame_cases_start hstep _ _ _ hframe with ⟨_, _, rfl⟩ | ⟨hne, hold⟩
      · cases hindex
      · rw [callId_start, Function.update_of_ne hne]
        exact (ih (fun call hcall => hmessages call (List.mem_append_left _ hcall)) t call point
          index hold hindex).snoc _
    | advance t' =>
      rw [callsOf_advance] at hmessages
      rw [callId_advance]
      rcases frame_cases hstep hframe with ⟨rfl, before, hold, hnext⟩ | ⟨_, hold⟩
      · obtain ⟨sendTime, receiveTime, rfl⟩ :=
          hmessages call (active_started hprefix t call before hold)
        rcases countAhead_next u.shared sendTime receiveTime before point index
          (fits_run hprefix hold) hnext hindex with hsame | ⟨rfl, hcount⟩
        · exact (ih hmessages t _ before index hold hsame).snoc _
        · exact occurred_last hprefix t ⟨hcount, _, hold⟩
      · exact (ih hmessages t call point index hold hindex).snoc _

end Fetches

/-- The call number `n` holds the minimum and has so many of its stores still to make; no other
call that is storing has a latency as small. -/
structure Winner {T : Type*} (calls : List Call) (fetched : ℕ → UInt64 → Prop) (id : T → ℕ)
    (p : Pool T PerformanceStats Call Pc) (n : ℕ) (call : Call) (index : UInt64) (left : ℕ) :
    Prop where
  lookup : calls[n]? = some call
  fetched : fetched n index
  latency : call.latency = p.shared.minLatency
  messageIndex : left < 3 → p.shared.minLatencyMessageIndex = index + 1
  sendTime : left < 2 → p.shared.minLatencySendTime = call.sendTime
  receiveTime : left < 1 → p.shared.minLatencyReceiveTime = call.receiveTime
  busy : 0 < left → ∃ t point, p.frames t = some (call, point) ∧ storesLeft point = left ∧
    id t = n ∧ countAhead (messageStage point) = some index
  unique : ∀ t call' point, p.frames t = some (call', point) → 0 < storesLeft point →
    call'.latency = p.shared.minLatency → id t = n ∧ storesLeft point = left
  above : ∀ t call' point, p.frames t = some (call', point) → 0 < storesLeft point →
    p.shared.minLatency ≤ call'.latency

/-- The minimum is untouched and nothing is being stored, or a call holds it. -/
def Held {T : Type*} (calls : List Call) (fetched : ℕ → UInt64 → Prop) (id : T → ℕ)
    (p : Pool T PerformanceStats Call Pc) : Prop :=
  (p.shared.minLatency = uint64Max ∧
      ∀ t call point, p.frames t = some (call, point) → storesLeft point = 0) ∨
    ∃ n call index left, Winner calls fetched id p n call index left

section Moves

variable {T : Type*} {calls : List Call} {fetched fetched' : ℕ → UInt64 → Prop} {id : T → ℕ}
variable {u v : Pool T PerformanceStats Call Pc} {t : T} {call : Call} {point : Pc}
variable {s' : PerformanceStats} {next : Option Pc}

/-- A step that is none of the stores and leaves the minimum alone. -/
theorem winner_other {n : ℕ} {winner : Call} {index : UInt64} {left : ℕ}
    (h : Winner calls fetched id u n winner index left)
    (hframe : u.frames t = some (call, point)) (hmoved : Moved u v t call s' next)
    (hleft : storesLeft point = 0) (hsame : SameMinimum u.shared s')
    (hnext : ∀ q, next = some q → storesLeft q = 0)
    (hfetched : ∀ n index, fetched n index → fetched' n index) :
    Winner calls fetched' id v n winner index left := by
  have hstoring : ∀ t' call' point', v.frames t' = some (call', point') → 0 < storesLeft point' →
      u.frames t' = some (call', point') := by
    intro t' call' point' hframe' hpos
    rcases hmoved.cases hframe' with ⟨_, _, hq⟩ | ⟨_, hold⟩
    · rw [hnext point' hq] at hpos
      cases hpos
    · exact hold
  refine ⟨h.lookup, hfetched _ _ h.fetched, ?_, ?_, ?_, ?_, ?_, ?_, ?_⟩
  · rw [hmoved.shared, hsame.minLatency]
    exact h.latency
  · rw [hmoved.shared, hsame.messageIndex]
    exact h.messageIndex
  · rw [hmoved.shared, hsame.sendTime]
    exact h.sendTime
  · rw [hmoved.shared, hsame.receiveTime]
    exact h.receiveTime
  · intro hpos
    obtain ⟨t', point', hbusy, hstores, hid, hindex⟩ := h.busy hpos
    have hne : t' ≠ t := by
      rintro rfl
      rw [hframe] at hbusy
      cases hbusy
      omega
    exact ⟨t', point', (hmoved.others t' hne).trans hbusy, hstores, hid, hindex⟩
  · intro t' call' point' hframe' hpos hlatency
    rw [hmoved.shared, hsame.minLatency] at hlatency
    exact h.unique t' call' point' (hstoring t' call' point' hframe' hpos) hpos hlatency
  · intro t' call' point' hframe' hpos
    rw [hmoved.shared, hsame.minLatency]
    exact h.above t' call' point' (hstoring t' call' point' hframe' hpos) hpos

/-- A call that lowers the minimum holds it, with all its stores ahead. -/
theorem winner_lower {index : UInt64} (h : Held calls fetched id u)
    (hmoved : Moved u v t call s' (some (.storeMinIndex index)))
    (hless : call.latency < u.shared.minLatency) (hmin : s'.minLatency = call.latency)
    (hlookup : calls[id t]? = some call) (hfetched : fetched' (id t) index) :
    Winner calls fetched' id v (id t) call index 3 := by
  -- whoever is still storing has a latency of the old minimum or above
  have habove : ∀ t' call' point', u.frames t' = some (call', point') → 0 < storesLeft point' →
      call.latency < call'.latency := by
    intro t' call' point' hframe' hpos
    rcases h with ⟨_, hnone⟩ | ⟨n, winner, index', left, hwinner⟩
    · rw [hnone t' call' point' hframe'] at hpos
      cases hpos
    · exact UInt64.lt_of_lt_of_le hless (hwinner.above t' call' point' hframe' hpos)
  refine ⟨hlookup, hfetched, ?_, ?_, ?_, ?_, ?_, ?_, ?_⟩
  · rw [hmoved.shared, hmin]
  · intro hlt
    exact absurd hlt (Nat.lt_irrefl 3)
  · intro hlt
    omega
  · intro hlt
    omega
  · intro _
    exact ⟨t, .storeMinIndex index, hmoved.own, rfl, rfl, rfl⟩
  · intro t' call' point' hframe' hpos hlatency
    rw [hmoved.shared, hmin] at hlatency
    rcases hmoved.cases hframe' with ⟨rfl, _, hq⟩ | ⟨_, hold⟩
    · obtain rfl := Option.some.inj hq
      exact ⟨rfl, rfl⟩
    · have hstrict := habove t' call' point' hold hpos
      rw [hlatency] at hstrict
      exact absurd hstrict (UInt64.lt_irrefl _)
  · intro t' call' point' hframe' hpos
    rw [hmoved.shared, hmin]
    rcases hmoved.cases hframe' with ⟨_, rfl, _⟩ | ⟨_, hold⟩
    · exact UInt64.le_refl _
    · exact UInt64.le_of_lt (habove t' call' point' hold hpos)

/-- A store of another call comes before the same store of the call that holds the minimum. -/
theorem winner_overtaken {n : ℕ} {winner : Call} {index stored : UInt64} {left : ℕ} {q : Pc}
    (h : Winner calls fetched id u n winner index left)
    (hframe : u.frames t = some (call, point)) (hmoved : Moved u v t call s' (some q))
    (hpos : 0 < storesLeft point) (hother : call.latency ≠ u.shared.minLatency)
    (hturn : storesLeft point ≤ left) (hmin : s'.minLatency = u.shared.minLatency)
    (hmessage : s'.minLatencyMessageIndex =
      if storesLeft point = 3 then stored + 1 else u.shared.minLatencyMessageIndex)
    (hsend : s'.minLatencySendTime =
      if storesLeft point = 2 then call.sendTime else u.shared.minLatencySendTime)
    (hreceive : s'.minLatencyReceiveTime =
      if storesLeft point = 1 then call.receiveTime else u.shared.minLatencyReceiveTime)
    (hfetched : ∀ n index, fetched n index → fetched' n index) :
    Winner calls fetched' id v n winner index left := by
  refine ⟨h.lookup, hfetched _ _ h.fetched, ?_, ?_, ?_, ?_, ?_, ?_, ?_⟩
  · rw [hmoved.shared, hmin]
    exact h.latency
  · intro hlt
    rw [hmoved.shared, hmessage, if_neg (by omega)]
    exact h.messageIndex hlt
  · intro hlt
    rw [hmoved.shared, hsend, if_neg (by omega)]
    exact h.sendTime hlt
  · intro hlt
    rw [hmoved.shared, hreceive, if_neg (by omega)]
    exact h.receiveTime hlt
  · intro hleft
    obtain ⟨t', point', hbusy, hstores, hid, hindex⟩ := h.busy hleft
    have hne : t' ≠ t := by
      rintro rfl
      rw [hframe] at hbusy
      cases hbusy
      exact hother h.latency
    exact ⟨t', point', (hmoved.others t' hne).trans hbusy, hstores, hid, hindex⟩
  · intro t' call' point' hframe' hpos' hlatency
    rw [hmoved.shared, hmin] at hlatency
    rcases hmoved.cases hframe' with ⟨_, rfl, _⟩ | ⟨_, hold⟩
    · exact absurd hlatency hother
    · exact h.unique t' call' point' hold hpos' hlatency
  · intro t' call' point' hframe' hpos'
    rw [hmoved.shared, hmin]
    rcases hmoved.cases hframe' with ⟨rfl, rfl, _⟩ | ⟨_, hold⟩
    · exact h.above t' call' point hframe hpos
    · exact h.above t' call' point' hold hpos'

/-- The call that holds the minimum makes its next store. -/
theorem winner_store {n : ℕ} {winner : Call} {index : UInt64} {left : ℕ} {q : Pc}
    (h : Winner calls fetched id u n winner index left)
    (hframe : u.frames t = some (winner, point)) (hmoved : Moved u v t winner s' (some q))
    (hid : id t = n) (hpos : 0 < storesLeft point) (hleft : storesLeft point = left)
    (hmin : s'.minLatency = u.shared.minLatency)
    (hmessage : s'.minLatencyMessageIndex =
      if storesLeft point = 3 then index + 1 else u.shared.minLatencyMessageIndex)
    (hsend : s'.minLatencySendTime =
      if storesLeft point = 2 then winner.sendTime else u.shared.minLatencySendTime)
    (hreceive : s'.minLatencyReceiveTime =
      if storesLeft point = 1 then winner.receiveTime else u.shared.minLatencyReceiveTime)
    (hq : storesLeft q = storesLeft point - 1)
    (hindex : countAhead (messageStage q) = some index)
    (hdistinct : ∀ t' frame, t' ≠ t → u.frames t' = some frame → id t' ≠ id t)
    (hfetched : ∀ n index, fetched n index → fetched' n index) :
    Winner calls fetched' id v n winner index (left - 1) := by
  refine ⟨h.lookup, hfetched _ _ h.fetched, ?_, ?_, ?_, ?_, ?_, ?_, ?_⟩
  · rw [hmoved.shared, hmin]
    exact h.latency
  · intro hlt
    rw [hmoved.shared, hmessage]
    split
    · rfl
    · exact h.messageIndex (by omega)
  · intro hlt
    rw [hmoved.shared, hsend]
    split
    · rfl
    · exact h.sendTime (by omega)
  · intro hlt
    rw [hmoved.shared, hreceive]
    split
    · rfl
    · exact h.receiveTime (by omega)
  · intro _
    exact ⟨t, q, hmoved.own, by rw [hq, hleft], hid, hindex⟩
  · intro t' call' point' hframe' hpos' hlatency
    rw [hmoved.shared, hmin] at hlatency
    rcases hmoved.cases hframe' with ⟨rfl, _, hnext⟩ | ⟨hne, hold⟩
    · obtain rfl := Option.some.inj hnext
      exact ⟨hid, by rw [hq, hleft]⟩
    · have hsame := (h.unique t' call' point' hold hpos' hlatency).1
      exact absurd (hsame.trans hid.symm) (hdistinct t' _ hne hold)
  · intro t' call' point' hframe' hpos'
    rw [hmoved.shared, hmin]
    rcases hmoved.cases hframe' with ⟨rfl, rfl, _⟩ | ⟨_, hold⟩
    · exact h.above t' call' point hframe hpos
    · exact h.above t' call' point' hold hpos'

end Moves

section Runs

variable {T : Type*} [DecidableEq T] {limits : Fin 10 → UInt64} {s₀ : PerformanceStats}
variable {actions : List (Action T Call)} {u v p : Pool T PerformanceStats Call Pc}

theorem held_start {calls : List Call} {fetched fetched' : ℕ → UInt64 → Prop} {id : T → ℕ}
    {t : T} {call : Call} (h : Held calls fetched id u)
    (hstep : RecorderStep T u (.start t call) v)
    (hfetched : ∀ n index, fetched n index → fetched' n index) :
    Held (calls ++ [call]) fetched' (Function.update id t calls.length) v := by
  have hcases := frame_cases_start hstep
  have hkeep := frame_of_start hstep
  obtain ⟨_, rfl⟩ := hstep
  -- the new call stores nothing yet, so whoever is storing was there before
  have hstoring : ∀ t' call' point,
      Function.update u.frames t (some (call, Pc.addMessageCount)) t' = some (call', point) →
      0 < storesLeft point → t' ≠ t ∧ u.frames t' = some (call', point) := by
    intro t' call' point hframe hpos
    rcases hcases t' call' point hframe with ⟨_, _, rfl⟩ | hold
    · cases hpos
    · exact hold
  rcases h with ⟨hmax, hnone⟩ | ⟨n, winner, index, left, hwinner⟩
  · refine Or.inl ⟨hmax, ?_⟩
    intro t' call' point hframe
    rcases hcases t' call' point hframe with ⟨_, _, rfl⟩ | ⟨_, hold⟩
    · rfl
    · exact hnone t' call' point hold
  · refine Or.inr ⟨n, winner, index, left, ?_, hfetched _ _ hwinner.fetched, hwinner.latency,
      hwinner.messageIndex, hwinner.sendTime, hwinner.receiveTime, ?_, ?_, ?_⟩
    · exact lookup_append hwinner.lookup
    · intro hleft
      obtain ⟨t', point, hbusy, hstores, hid, hindex⟩ := hwinner.busy hleft
      obtain ⟨hne, hbusy'⟩ := hkeep t' _ hbusy
      refine ⟨t', point, hbusy', hstores, ?_, hindex⟩
      rw [Function.update_of_ne hne]
      exact hid
    · intro t' call' point hframe hpos hlatency
      obtain ⟨hne, hold⟩ := hstoring t' call' point hframe hpos
      rw [Function.update_of_ne hne]
      exact hwinner.unique t' call' point hold hpos hlatency
    · intro t' call' point hframe hpos
      exact hwinner.above t' call' point (hstoring t' call' point hframe hpos).2 hpos

theorem held_advance {t : T} {sendTime receiveTime : TimestampNs} {point : Pc}
    (hrun : Run (RecorderStep T) (idle s₀) actions u)
    (hmessages : ∀ call ∈ callsOf actions,
      ∃ sendTime receiveTime, call = .recordMessageLatency sendTime receiveTime)
    (h : Held (callsOf actions) (FetchedIndex s₀ actions) (callId actions) u)
    (hframe : u.frames t = some (.recordMessageLatency sendTime receiveTime, point))
    (hstep : RecorderStep T u (.advance t) v) (hturn : InTurn u (.advance t)) :
    Held (callsOf actions) (FetchedIndex s₀ (actions ++ [.advance t])) (callId actions) v := by
  have hmoved := moved_of_step hstep hframe
  have hident := identified_run hrun
  have hkeep : ∀ n index, FetchedIndex s₀ actions n index →
      FetchedIndex s₀ (actions ++ [.advance t]) n index := fun _ _ hold => hold.snoc _
  cases min_move u.shared sendTime receiveTime point with
  | lower index hpoint hless hmin hnext =>
    rw [hnext] at hmoved
    have hfetched := fetchedIndex_run hrun hmessages t _ point index hframe (by rw [hpoint]; rfl)
    exact Or.inr ⟨_, _, index, 3, winner_lower h hmoved hless hmin
      (hident.lookup t _ _ hframe) (hkeep _ _ hfetched)⟩
  | store index q hpos hindex hmin hmessage hsend hreceive hnext hq hindex' =>
    rw [hnext] at hmoved
    obtain ⟨t', call', point', hframe', hlatency', hle⟩ := hturn t _ point rfl hframe hpos
    rcases h with ⟨_, hnone⟩ | ⟨n, winner, index', left, hwinner⟩
    · rw [hnone t _ point hframe] at hpos
      cases hpos
    · have hleft := (hwinner.unique t' call' point' hframe' (by omega) hlatency').2
      by_cases hown : (Call.recordMessageLatency sendTime receiveTime).latency =
          u.shared.minLatency
      · obtain ⟨hid, hstores⟩ := hwinner.unique t _ point hframe hpos hown
        -- the storing call is the one that holds the minimum
        have hcall := hident.lookup t _ _ hframe
        rw [hid, hwinner.lookup] at hcall
        obtain rfl := Option.some.inj hcall
        obtain ⟨t'', point'', hbusy, _, hid', hahead⟩ := hwinner.busy (by omega)
        obtain rfl := hident.distinct t'' t _ _ hbusy hframe (hid'.trans hid.symm)
        rw [hframe] at hbusy
        cases hbusy
        rw [hindex] at hahead
        obtain rfl := Option.some.inj hahead
        refine Or.inr ⟨n, _, index, left - 1, winner_store hwinner hframe hmoved hid hpos hstores
          hmin hmessage hsend hreceive hq hindex' ?_ hkeep⟩
        intro other frame hne hframe'' hsame
        exact hne (hident.distinct other _ frame _ hframe'' hframe hsame)
      · exact Or.inr ⟨n, winner, index', left, winner_overtaken hwinner hframe hmoved hpos hown
          (by omega) hmin hmessage hsend hreceive hkeep⟩
  | other hleft hsame hnext =>
    rcases h with ⟨hmax, hnone⟩ | ⟨n, winner, index, left, hwinner⟩
    · left
      rw [hmoved.shared, hsame.minLatency]
      refine ⟨hmax, ?_⟩
      intro t' call' point' hframe'
      rcases hmoved.cases hframe' with ⟨_, _, hq⟩ | ⟨_, hold⟩
      · exact hnext point' hq
      · exact hnone t' call' point' hold
    · exact Or.inr ⟨n, winner, index, left, winner_other hwinner hframe hmoved hleft hsame hnext
        hkeep⟩

/-- The minimum is held after every run of `record_message_latency` calls whose stores are made in
turn. -/
theorem held_run (hrun : Run (InTurnStep T) (idle (freshStats limits)) actions p)
    (hmessages : ∀ call ∈ callsOf actions,
      ∃ sendTime receiveTime, call = .recordMessageLatency sendTime receiveTime) :
    Held (callsOf actions) (FetchedIndex (freshStats limits) actions) (callId actions) p := by
  revert hmessages
  apply hrun.invariant (P := fun actions p =>
    (∀ call ∈ callsOf actions,
        ∃ sendTime receiveTime, call = .recordMessageLatency sendTime receiveTime) →
      Held (callsOf actions) (FetchedIndex (freshStats limits) actions) (callId actions) p)
  · intro _
    refine Or.inl ⟨rfl, ?_⟩
    intro t call point h
    cases h
  · intro actions u a v hprefix ih hstep hmessages
    have hplain : Run (RecorderStep T) (idle (freshStats limits)) actions u :=
      hprefix.mono (fun _ _ _ hstep => hstep.1)
    obtain ⟨hpool, hturn⟩ := hstep
    cases a with
    | start t call =>
      rw [callsOf_start] at hmessages ⊢
      rw [callId_start]
      exact held_start (ih (fun call hcall => hmessages call (List.mem_append_left _ hcall)))
        hpool (fun _ _ hold => hold.snoc _)
    | advance t =>
      rw [callsOf_advance] at hmessages ⊢
      rw [callId_advance]
      obtain ⟨call, point, hframe, _⟩ := id hpool
      obtain ⟨sendTime, receiveTime, rfl⟩ :=
        hmessages call (active_started hplain t call point hframe)
      exact held_advance hplain hmessages (ih hmessages) hframe hpool hturn

end Runs

/-- Any number of threads call `record_message_latency` on a fresh object of either kind. If every
store of the three fields comes while the call that holds the minimum has that store still
ahead, then with no call in progress and a minimum below the sentinel the fields are those of one
call and the difference of its times is the minimum. -/
theorem best_message {T : Type} [DecidableEq T] (initial : PerformanceStats)
    (hinitial : initial = createPerformanceStats ∨ initial = initPerformanceStats)
    (actions : List (Action T Call)) (p : Pool T PerformanceStats Call Pc)
    (hrun : Run (InTurnStep T) (idle initial) actions p)
    (hmessages : ∀ call ∈ callsOf actions,
      ∃ sendTime receiveTime, call = .recordMessageLatency sendTime receiveTime)
    (hquiet : Quiescent p) (hbelow : p.shared.minLatency < uint64Max) :
    BestRecorded (callsOf actions) (FetchedIndex initial actions) p.shared := by
  obtain ⟨limits, _, _, rfl⟩ := exists_limits initial hinitial
  rcases held_run hrun hmessages with ⟨hmax, _⟩ | ⟨n, call, index, left, h⟩
  · rw [hmax] at hbelow
    exact absurd hbelow (UInt64.lt_irrefl _)
  · have hdone : left = 0 := by
      by_contra hne
      obtain ⟨t, point, hframe, _⟩ := h.busy (Nat.pos_of_ne_zero hne)
      rw [hquiet t] at hframe
      cases hframe
    subst hdone
    obtain ⟨sendTime, receiveTime, rfl⟩ := hmessages call (List.mem_of_getElem? h.lookup)
    have hsend := h.sendTime (by decide)
    have hreceive := h.receiveTime (by decide)
    refine ⟨⟨n, sendTime, receiveTime, index, h.lookup, h.fetched, h.messageIndex (by decide),
      hsend, hreceive⟩, ?_⟩
    rw [hsend, hreceive]
    exact h.latency

/-- The storing call is the one that holds the minimum. -/
def storesOwn (p : Pool Bool PerformanceStats Call Pc) : Action Bool Call → Bool
  | .start _ _ => true
  | .advance t => (p.frames t).all (fun frame =>
      storesLeft frame.2 = 0 || frame.1.latency = p.shared.minLatency)

theorem inTurn_of_storesOwn (p : Pool Bool PerformanceStats Call Pc) (a : Action Bool Call)
    (h : storesOwn p a = true) : InTurn p a := by
  rintro t call point rfl hframe hpos
  refine ⟨t, call, point, hframe, ?_, Nat.le_refl _⟩
  simp only [storesOwn, hframe, Option.all_some, Bool.or_eq_true, decide_eq_true_eq] at h
  exact h.resolve_left (Nat.ne_of_gt hpos)

/-- The slower call has made its stores when the faster one lowers the minimum. -/
def storesInTurn : List (Action Bool Call) :=
  [.start true (.recordMessageLatency 0 5), .start false (.recordMessageLatency 10 13)] ++
    advances true 9 ++ advances false 16 ++ advances true 7

theorem storesInTurn_best :
    ∃ p, Run (InTurnStep Bool) (idle createPerformanceStats) storesInTurn p ∧
      BestRecorded (callsOf storesInTurn) (FetchedIndex createPerformanceStats storesInTurn)
        p.shared := by
  obtain ⟨p, hrun, htest⟩ := exists_run_of_execute Pc.addMessageCount advance storesOwn
    (idle createPerformanceStats) storesInTurn
    (fun p => bothIdle p && p.shared.minLatency < uint64Max) (by decide)
  simp only [Bool.and_eq_true, decide_eq_true_eq] at htest
  have hturn : Run (InTurnStep Bool) (idle createPerformanceStats) storesInTurn p :=
    hrun.mono (fun p a q hstep => ⟨hstep.1, inTurn_of_storesOwn p a hstep.2⟩)
  have hcalls : callsOf storesInTurn =
      [.recordMessageLatency 0 5, .recordMessageLatency 10 13] := rfl
  exact ⟨p, hturn, best_message createPerformanceStats (Or.inl rfl) storesInTurn p hturn
    (by simp [hcalls]) (quiescent_of_bothIdle htest.1) htest.2⟩

/-- The slower call makes its three stores when the faster one is finished. -/
def lateStores : List (Action Bool Call) :=
  [.start true (.recordMessageLatency 0 5), .start false (.recordMessageLatency 10 13)] ++
    advances true 6 ++ advances false 16 ++ advances true 10

/-- The minimum is 3, and the times stored with it are those of the message with latency 5. -/
theorem lateStores_not_best :
    ∃ p, Run (RecorderStep Bool) (idle createPerformanceStats) lateStores p ∧ Quiescent p ∧
      callsOf lateStores = [.recordMessageLatency 0 5, .recordMessageLatency 10 13] ∧
      p.shared.minLatency = 3 ∧
      ¬ BestRecorded (callsOf lateStores) (FetchedIndex createPerformanceStats lateStores)
        p.shared := by
  obtain ⟨p, hrun, htest⟩ := exists_run_of_execute Pc.addMessageCount advance (fun _ _ => true)
    (idle createPerformanceStats) lateStores
    (fun p => bothIdle p && p.shared.minLatency = 3 &&
      p.shared.minLatencyReceiveTime - p.shared.minLatencySendTime = 5) (by decide)
  simp only [Bool.and_eq_true, decide_eq_true_eq] at htest
  obtain ⟨⟨hidle, hmin⟩, htimes⟩ := htest
  refine ⟨p, hrun.mono (fun _ _ _ hstep => hstep.1), quiescent_of_bothIdle hidle, rfl, hmin, ?_⟩
  intro h
  have hlatency := h.2
  rw [htimes, hmin] at hlatency
  exact absurd hlatency (by decide)

end AeronFast.BestMessage
