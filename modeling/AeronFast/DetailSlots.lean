import AeronFast.CallHistories
import AeronFast.LockFreeAggregates
import AeronFast.RecorderAgreement

/-!
The slots of the detailed records under concurrent calls of `record_latency`.
A call reserves the next slot by a compare-and-swap that is tried only once,
and stores its latency there in a separate step. While no compare-and-swap
fails before the slots are used up, the calls that have reserved a slot stand
in a list in the order of their slots, and no call is missing from it.
-/
namespace AeronFast.DetailSlots

open CommonTypes WordArithmetic LabelledRuns Interleaving CallHistories Recorders AtomicRecorders
open LockFreeAggregates RecorderAgreement

/-- The slot that the step at this point stores something in, in any of the three arrays. -/
def slotOf : Pc → Option ℕ
  | .storeSendTime index =>
      if index.toNat < detailedRecordCount then some index.toNat else none
  | .storeReceiveTime index => some index.toNat
  | .storeMessageLatency index => some index.toNat
  | .storeLatency currentCount => some currentCount.toNat
  | _ => none

/-- In the history call number `n` stored something in slot `k`. -/
def WrittenBy {T : Type*} [DecidableEq T] (s₀ : PerformanceStats) (actions : List (Action T Call))
    (k n : ℕ) : Prop :=
  Occurred Pc.addMessageCount advance s₀
    (fun p t => ∃ call point, p.frames t = some (call, point) ∧ slotOf point = some k) actions n

/-- As many records as calls, up to the number of slots; each holds the latency of a call of its
own, and no slot was written by two calls. -/
structure DetailsIntact (calls : List Call) (written : ℕ → ℕ → Prop) (s : PerformanceStats) :
    Prop where
  recordedCount : s.recordedCount.toNat = min calls.length detailedRecordCount
  records : ∃ owners : List ℕ, owners.Nodup ∧ owners.length = s.recordedCount.toNat ∧
    ∀ k n, owners[k]? = some n → ∃ call, calls[n]? = some call ∧ s.latencies k = call.latency
  once : ∀ k n n', written k n → written k n' → n = n'

/-- No other call has come between: the count is still the one read, or there is no slot left;
and a count that is published is not below the one published before. -/
def undisturbed (s : PerformanceStats) : Pc → Bool
  | .casRecordedCount currentCount =>
      s.recordedCount = currentCount ∨ detailedRecordCount ≤ s.recordedCount.toNat
  | .storeRecordedCount index => s.recordedCount.toNat ≤ index.toNat + 1
  | _ => true

/-- The thread that steps is undisturbed. -/
def orderly {T : Type*} (p : Pool T PerformanceStats Call Pc) : Action T Call → Bool
  | .start _ _ => true
  | .advance t => (p.frames t).all (fun frame => undisturbed p.shared frame.2)

/-- An atomic step in which no other call has come between. -/
def OrderlyStep (T : Type*) [DecidableEq T] (p : Pool T PerformanceStats Call Pc)
    (a : Action T Call) (q : Pool T PerformanceStats Call Pc) : Prop :=
  RecorderStep T p a q ∧ orderly p a = true

theorem undisturbed_of_orderly {T : Type*} {p : Pool T PerformanceStats Call Pc} {t : T}
    {call : Call} {point : Pc} (h : orderly p (.advance t) = true)
    (hframe : p.frames t = some (call, point)) : undisturbed p.shared point = true := by
  simpa [orderly, hframe] using h

/-- The points of `record_message_latency` alone. -/
def messagePoint : Pc → Bool
  | .storeFirstTime _ | .storeLastTime _ | .storeMinIndex _ | .storeMinSendTime _
  | .storeMinReceiveTime _ | .storeSendTime _ | .storeReceiveTime _ | .storeMessageLatency _
  | .storeRecordedCount _ => true
  | _ => false

/-- The points of `record_latency` alone. -/
def latencyPoint : Pc → Bool
  | .loadRecordedCount | .casRecordedCount _ | .storeLatency _ => true
  | _ => false

/-- The point is one of the recorder that was called. -/
def fits : Call → Pc → Bool
  | .recordLatency _, point => !messagePoint point
  | .recordMessageLatency _ _, point => !latencyPoint point

theorem fits_next (s : PerformanceStats) (call : Call) (point : Pc) (h : fits call point = true) :
    (advance s call point).2.all (fits call) = true := by
  cases point <;> cases call <;>
    simp_all [advance, fits, messagePoint, latencyPoint, Call.afterCount, Call.afterMin,
      Call.afterMax, Call.afterBucket, apply_ite Prod.snd, apply_ite (Option.all _)]

theorem fits_run {T : Type*} [DecidableEq T] {s₀ : PerformanceStats}
    {actions : List (Action T Call)} {p : Pool T PerformanceStats Call Pc}
    (hrun : Run (RecorderStep T) (idle s₀) actions p) {t : T} {call : Call} {point : Pc}
    (hframe : p.frames t = some (call, point)) : fits call point = true := by
  refine frames_invariant (I := fun _ call point => fits call point = true) ?_ ?_ ?_ hrun t call
    point hframe
  · intro s call
    cases call
    · rfl
    · rfl
  · intro s other here call point h
    exact h
  · intro s call point next h hnext
    have hall := fits_next s call point h
    rw [hnext] at hall
    exact hall

/-- How far a call of `record_latency` is with its slot. -/
inductive LatencyStage
  | waiting
  | trying (currentCount : UInt64)
  | holding (slot : UInt64)

def latencyStage : Pc → LatencyStage
  | .casRecordedCount currentCount => .trying currentCount
  | .storeLatency currentCount => .holding currentCount
  | _ => .waiting

/-- What a step of `record_latency` does to the detailed records. -/
inductive LatencyMove (s : PerformanceStats) (call : Call) (point : Pc) (s' : PerformanceStats)
    (next : Option Pc) : Prop
  | goOn (q : Pc) (hstage : latencyStage point = .waiting) (hsame : SameDetails s s')
      (hnext : next = some q) (hq : latencyStage q = .waiting)
  | read (hstage : latencyStage point = .waiting) (hsame : SameDetails s s')
      (hroom : s.recordedCount.toNat < detailedRecordCount)
      (hnext : next = some (.casRecordedCount s.recordedCount))
  | full (hstage : latencyStage point = .waiting) (hsame : SameDetails s s')
      (hfull : detailedRecordCount ≤ s.recordedCount.toNat) (hnext : next = none)
  | reserve (hpoint : point = .casRecordedCount s.recordedCount)
      (hcount : s'.recordedCount = s.recordedCount + 1) (hslots : s'.latencies = s.latencies)
      (hnext : next = some (.storeLatency s.recordedCount))
  | miss (currentCount : UInt64) (hpoint : point = .casRecordedCount currentCount)
      (hchanged : s.recordedCount ≠ currentCount) (hsame : SameDetails s s') (hnext : next = none)
  | store (slot : UInt64) (hpoint : point = .storeLatency slot)
      (hcount : s'.recordedCount = s.recordedCount)
      (hslots : s'.latencies = Function.update s.latencies slot.toNat call.latency)
      (hnext : next = none)

theorem latency_move (s : PerformanceStats) (l : UInt64) (point : Pc)
    (hfits : fits (.recordLatency l) point = true) :
    LatencyMove s (.recordLatency l) point (advance s (.recordLatency l) point).1
      (advance s (.recordLatency l) point).2 := by
  cases point with
  | casRecordedCount currentCount =>
    by_cases hsame : s.recordedCount = currentCount
    · subst hsame
      exact .reserve rfl (by simp [advance]) (by simp [advance]) (by simp [advance])
    · exact .miss currentCount rfl hsame (by simp only [advance, if_neg hsame]; exact ⟨rfl, rfl⟩)
        (by simp [advance, hsame])
  | storeLatency slot => exact .store slot rfl rfl rfl rfl
  | loadRecordedCount =>
    by_cases hroom : s.recordedCount.toNat < detailedRecordCount
    · exact .read rfl ⟨rfl, rfl⟩ hroom (if_pos hroom)
    · exact .full rfl ⟨rfl, rfl⟩ (Nat.not_lt.mp hroom) (if_neg hroom)
  | minLoop index current =>
    simp only [advance]
    split_ifs
    · exact .goOn _ rfl ⟨rfl, rfl⟩ rfl rfl
    · exact .goOn _ rfl ⟨rfl, rfl⟩ rfl rfl
    · exact .goOn _ rfl ⟨rfl, rfl⟩ rfl rfl
  | maxLoop index current =>
    simp only [advance]
    split_ifs
    · exact .goOn _ rfl ⟨rfl, rfl⟩ rfl rfl
    · exact .goOn _ rfl ⟨rfl, rfl⟩ rfl rfl
    · exact .goOn _ rfl ⟨rfl, rfl⟩ rfl rfl
  | addMessageCount => exact .goOn _ rfl ⟨rfl, rfl⟩ rfl rfl
  | addTotalLatency index => exact .goOn _ rfl ⟨rfl, rfl⟩ rfl rfl
  | loadMin index => exact .goOn _ rfl ⟨rfl, rfl⟩ rfl rfl
  | loadMax index => exact .goOn _ rfl ⟨rfl, rfl⟩ rfl rfl
  | addBucket => exact .goOn _ rfl ⟨rfl, rfl⟩ rfl rfl
  | _ => cases hfits

/-- What the list of the calls with a slot says of call number `n` at its stage. -/
def StageHolds (holders : List ℕ) (n : ℕ) : LatencyStage → Prop
  | .waiting => n ∉ holders
  | .trying currentCount => currentCount.toNat < detailedRecordCount ∧ n ∉ holders
  | .holding slot => holders[slot.toNat]? = some n

/-- The calls that have reserved a slot, in the order of the slots. -/
structure Reserved {T : Type*} (calls : List Call) (id : T → ℕ) (written : ℕ → ℕ → Prop)
    (holders : List ℕ) (p : Pool T PerformanceStats Call Pc) : Prop where
  count : p.shared.recordedCount.toNat = holders.length
  room : holders.length ≤ detailedRecordCount
  nodup : holders.Nodup
  started : ∀ n ∈ holders, n < calls.length
  stages : ∀ t call point, p.frames t = some (call, point) →
    StageHolds holders (id t) (latencyStage point)
  slots : ∀ k n, holders[k]? = some n →
    (∃ call, calls[n]? = some call ∧ p.shared.latencies k = call.latency) ∨
      ∃ t call slot, p.frames t = some (call, .storeLatency slot) ∧ slot.toNat = k
  served : holders.length < detailedRecordCount → ∀ n < calls.length,
    n ∈ holders ∨ ∃ t frame, p.frames t = some frame ∧ id t = n
  written : ∀ k n, written k n → holders[k]? = some n

theorem reserved_fresh {T : Type*} (limits : Fin 10 → UInt64) (id : T → ℕ)
    (written : ℕ → ℕ → Prop) (hnone : ∀ k n, ¬ written k n) :
    Reserved [] id written [] (idle (freshStats limits)) := by
  refine ⟨rfl, Nat.zero_le _, List.nodup_nil, by simp, ?_, by simp, by simp, ?_⟩
  · intro t call point h
    cases h
  · intro k n h
    exact absurd h (hnone k n)

/-- A new call has the next number, which is not in the list yet. -/
theorem reserved_start {T : Type*} [DecidableEq T] {calls : List Call} {id : T → ℕ}
    {written written' : ℕ → ℕ → Prop} {holders : List ℕ}
    {u v : Pool T PerformanceStats Call Pc} {t : T} {call : Call}
    (h : Reserved calls id written holders u) (hstep : RecorderStep T u (.start t call) v)
    (hwritten : ∀ k n, written' k n → written k n) :
    Reserved (calls ++ [call]) (Function.update id t calls.length) written' holders v := by
  have hcases := frame_cases_start hstep
  have hkeep := frame_of_start hstep
  obtain ⟨_, rfl⟩ := hstep
  refine ⟨h.count, h.room, h.nodup, ?_, ?_, ?_, ?_, fun k n hk => h.written k n (hwritten k n hk)⟩
  · intro n hn
    rw [List.length_append]
    exact Nat.lt_add_right _ (h.started n hn)
  · intro t' call' point hframe
    rcases hcases t' call' point hframe with ⟨rfl, _, rfl⟩ | ⟨hne, hold⟩
    · intro hmem
      rw [Function.update_self] at hmem
      exact Nat.lt_irrefl _ (h.started _ hmem)
    · rw [Function.update_of_ne hne]
      exact h.stages t' call' point hold
  · intro k n hk
    rcases h.slots k n hk with ⟨owner, hlookup, hstored⟩ | ⟨t', call', slot, hpending, hslot⟩
    · exact Or.inl ⟨owner, lookup_append hlookup, hstored⟩
    · exact Or.inr ⟨t', call', slot, (hkeep t' _ hpending).2, hslot⟩
  · intro hroom n hn
    rw [List.length_append, List.length_singleton] at hn
    by_cases hnew : n = calls.length
    · exact Or.inr ⟨t, (call, Pc.addMessageCount), Function.update_self _ _ _, by
        rw [Function.update_self, hnew]⟩
    · rcases h.served hroom n (by omega) with hmem | ⟨t', frame, hbusy, hid⟩
      · exact Or.inl hmem
      · obtain ⟨hne, hbusy'⟩ := hkeep t' _ hbusy
        refine Or.inr ⟨t', frame, hbusy', ?_⟩
        rw [Function.update_of_ne hne]
        exact hid

section Moves

variable {T : Type*} {calls : List Call} {id : T → ℕ} {written written' : ℕ → ℕ → Prop}
variable {holders : List ℕ} {u v : Pool T PerformanceStats Call Pc} {t : T} {call : Call}
variable {s' : PerformanceStats}

/-- A step that leaves the records alone: the thread goes on without a slot, or ends its call when
there is none left. -/
theorem reserved_quiet {next : Option Pc} {point : Pc} (h : Reserved calls id written holders u)
    (hframe : u.frames t = some (call, point)) (hpoint : ∀ slot, point ≠ .storeLatency slot)
    (hmoved : Moved u v t call s' next) (hsame : SameDetails u.shared s')
    (hstage : ∀ q, next = some q → StageHolds holders (id t) (latencyStage q))
    (hend : next = none → detailedRecordCount ≤ holders.length)
    (hwritten : ∀ k n, written' k n → written k n) :
    Reserved calls id written' holders v := by
  refine ⟨?_, h.room, h.nodup, h.started, ?_, ?_, ?_, fun k n hk => h.written k n (hwritten k n hk)⟩
  · rw [hmoved.shared, ← hsame.recordedCount]
    exact h.count
  · intro t' call' point' hframe'
    rcases hmoved.cases hframe' with ⟨rfl, _, hnext⟩ | ⟨_, hold⟩
    · exact hstage point' hnext
    · exact h.stages t' call' point' hold
  · intro k n hk
    rcases h.slots k n hk with hstored | ⟨t', call', slot, hpending, hslot⟩
    · left
      rwa [hmoved.shared, ← hsame.latencies]
    · have hne : t' ≠ t := by
        rintro rfl
        rw [hframe] at hpending
        cases hpending
        exact hpoint slot rfl
      exact Or.inr ⟨t', call', slot, (hmoved.others t' hne).trans hpending, hslot⟩
  · intro hroom n hn
    rcases h.served hroom n hn with hmem | ⟨t', frame, hbusy, hid⟩
    · exact Or.inl hmem
    · right
      by_cases ht : t' = t
      · subst ht
        cases hnext : next with
        | none => exact absurd (hend hnext) (Nat.not_le.mpr hroom)
        | some q =>
          refine ⟨t', (call, q), ?_, hid⟩
          rw [hmoved.own, hnext]
          rfl
      · exact ⟨t', frame, (hmoved.others t' ht).trans hbusy, hid⟩

theorem reserved_goOn {q point : Pc} (h : Reserved calls id written holders u)
    (hframe : u.frames t = some (call, point)) (hpoint : ∀ slot, point ≠ .storeLatency slot)
    (hmoved : Moved u v t call s' (some q)) (hsame : SameDetails u.shared s')
    (hstage : StageHolds holders (id t) (latencyStage q))
    (hwritten : ∀ k n, written' k n → written k n) :
    Reserved calls id written' holders v := by
  refine reserved_quiet h hframe hpoint hmoved hsame ?_ ?_ hwritten
  · intro q' hq'
    obtain rfl := Option.some.inj hq'
    exact hstage
  · intro hnone
    cases hnone

theorem reserved_end {point : Pc} (h : Reserved calls id written holders u)
    (hframe : u.frames t = some (call, point)) (hpoint : ∀ slot, point ≠ .storeLatency slot)
    (hmoved : Moved u v t call s' none) (hsame : SameDetails u.shared s')
    (hfull : detailedRecordCount ≤ u.shared.recordedCount.toNat)
    (hwritten : ∀ k n, written' k n → written k n) :
    Reserved calls id written' holders v := by
  refine reserved_quiet h hframe hpoint hmoved hsame ?_ ?_ hwritten
  · intro q' hq'
    cases hq'
  · intro _
    rw [← h.count]
    exact hfull

/-- A successful compare-and-swap appends the call to the list. -/
theorem reserved_reserve (h : Reserved calls id written holders u)
    (hframe : u.frames t = some (call, .casRecordedCount u.shared.recordedCount))
    (hmoved : Moved u v t call s' (some (.storeLatency u.shared.recordedCount)))
    (hcount : s'.recordedCount = u.shared.recordedCount + 1)
    (hslots : s'.latencies = u.shared.latencies)
    (hid : id t < calls.length)
    (hdistinct : ∀ t' frame, t' ≠ t → u.frames t' = some frame → id t' ≠ id t)
    (hwritten : ∀ k n, written' k n → written k n) :
    Reserved calls id written' (holders ++ [id t]) v := by
  obtain ⟨hroom, hnew⟩ := h.stages t call _ hframe
  have hlength := h.count
  refine ⟨?_, ?_, ?_, ?_, ?_, ?_, ?_, ?_⟩
  · rw [hmoved.shared, hcount, toNat_add_one _ (Nat.lt_trans (Nat.succ_lt_succ hroom) (by decide)),
      List.length_append, List.length_singleton, hlength]
  · rw [List.length_append, List.length_singleton]
    omega
  · exact List.nodup_append.mpr ⟨h.nodup, List.nodup_singleton _, by
      intro a ha b hb hab
      rw [hab, List.mem_singleton.mp hb] at ha
      exact hnew ha⟩
  · intro n hn
    rcases List.mem_append.mp hn with hold | hlast
    · exact h.started n hold
    · rw [List.mem_singleton.mp hlast]
      exact hid
  · intro t' call' point' hframe'
    rcases hmoved.cases hframe' with ⟨rfl, _, hnext⟩ | ⟨hne, hold⟩
    · obtain rfl := Option.some.inj hnext
      change (holders ++ [id t'])[u.shared.recordedCount.toNat]? = _
      rw [hlength, List.getElem?_concat_length]
    · have hother := hdistinct t' _ hne hold
      have hstage := h.stages t' call' point' hold
      cases hpoint : latencyStage point' with
      | waiting =>
        rw [hpoint] at hstage
        simp only [StageHolds, List.mem_append, List.mem_singleton, not_or]
        exact ⟨hstage, hother⟩
      | trying currentCount =>
        rw [hpoint] at hstage
        simp only [StageHolds, List.mem_append, List.mem_singleton, not_or]
        exact ⟨hstage.1, hstage.2, hother⟩
      | holding slot =>
        rw [hpoint] at hstage
        have hlt := (List.getElem?_eq_some_iff.mp hstage).1
        change (holders ++ [id t])[slot.toNat]? = _
        rw [List.getElem?_append_left hlt]
        exact hstage
  · intro k n hk
    by_cases hlast : k = holders.length
    · refine Or.inr ⟨t, call, u.shared.recordedCount, ?_, hlength.trans hlast.symm⟩
      rw [hmoved.own]
      rfl
    · have hlt : k < holders.length := by
        have hbound := (List.getElem?_eq_some_iff.mp hk).1
        rw [List.length_append, List.length_singleton] at hbound
        omega
      rw [List.getElem?_append_left hlt] at hk
      rcases h.slots k n hk with hstored | ⟨t', call', slot, hpending, hslot⟩
      · left
        rwa [hmoved.shared, hslots]
      · have hne : t' ≠ t := by
          rintro rfl
          rw [hframe] at hpending
          cases hpending
        exact Or.inr ⟨t', call', slot, (hmoved.others t' hne).trans hpending, hslot⟩
  · intro hmore n hn
    rcases h.served (by omega) n hn with hmem | ⟨t', frame, hbusy, hid'⟩
    · exact Or.inl (List.mem_append_left _ hmem)
    · by_cases ht : t' = t
      · left
        rw [← hid', ht]
        exact List.mem_append_right _ (List.mem_singleton_self _)
      · exact Or.inr ⟨t', frame, (hmoved.others t' ht).trans hbusy, hid'⟩
  · intro k n hk
    exact lookup_append (h.written k n (hwritten k n hk))

/-- The store fills the slot that the call holds. -/
theorem reserved_store {slot : UInt64} (h : Reserved calls id written holders u)
    (hframe : u.frames t = some (call, .storeLatency slot)) (hmoved : Moved u v t call s' none)
    (hcount : s'.recordedCount = u.shared.recordedCount)
    (hslots : s'.latencies = Function.update u.shared.latencies slot.toNat call.latency)
    (hlookup : calls[id t]? = some call)
    (hwritten : ∀ k n, written' k n → written k n ∨ slot.toNat = k ∧ id t = n) :
    Reserved calls id written' holders v := by
  have hholds : holders[slot.toNat]? = some (id t) := h.stages t call _ hframe
  have hothers : ∀ t' call' point', v.frames t' = some (call', point') →
      u.frames t' = some (call', point') := by
    intro t' call' point' hframe'
    rcases hmoved.cases hframe' with ⟨_, _, hnext⟩ | ⟨_, hold⟩
    · cases hnext
    · exact hold
  refine ⟨?_, h.room, h.nodup, h.started, ?_, ?_, ?_, ?_⟩
  · rw [hmoved.shared, hcount]
    exact h.count
  · intro t' call' point' hframe'
    exact h.stages t' call' point' (hothers t' call' point' hframe')
  · intro k n hk
    rw [hmoved.shared, hslots]
    by_cases hown : k = slot.toNat
    · subst hown
      rw [hholds] at hk
      obtain rfl := Option.some.inj hk
      exact Or.inl ⟨call, hlookup, Function.update_self _ _ _⟩
    · rw [Function.update_of_ne hown]
      rcases h.slots k n hk with hstored | ⟨t', call', slot', hpending, hslot⟩
      · exact Or.inl hstored
      · have hne : t' ≠ t := by
          rintro rfl
          rw [hframe] at hpending
          cases hpending
          exact hown hslot.symm
        exact Or.inr ⟨t', call', slot', (hmoved.others t' hne).trans hpending, hslot⟩
  · intro hroom n hn
    rcases h.served hroom n hn with hmem | ⟨t', frame, hbusy, hid⟩
    · exact Or.inl hmem
    · by_cases ht : t' = t
      · left
        rw [← hid, ht]
        exact List.mem_of_getElem? hholds
      · exact Or.inr ⟨t', frame, (hmoved.others t' ht).trans hbusy, hid⟩
  · intro k n hk
    rcases hwritten k n hk with hold | ⟨rfl, rfl⟩
    · exact h.written k n hold
    · exact hholds

end Moves

section Runs

variable {T : Type*} [DecidableEq T] {limits : Fin 10 → UInt64}
variable {actions : List (Action T Call)} {u v p : Pool T PerformanceStats Call Pc}

/-- Who has written a slot after one more step. -/
theorem writtenBy_snoc {s₀ : PerformanceStats} (hrun : Run (RecorderStep T) (idle s₀) actions u)
    {a : Action T Call} {k n : ℕ} (h : WrittenBy s₀ (actions ++ [a]) k n) :
    WrittenBy s₀ actions k n ∨
      ∃ t call point, a = .advance t ∧ u.frames t = some (call, point) ∧
        slotOf point = some k ∧ callId actions t = n := by
  rcases occurred_snoc_cases hrun h with hold | ⟨t, ha, ⟨call, point, hframe, hslot⟩, hid⟩
  · exact Or.inl hold
  · exact Or.inr ⟨t, call, point, ha, hframe, hslot, hid⟩

/-- Only the thread that moves writes, and only in the slot of its point. -/
theorem writtenBy_advance {s₀ : PerformanceStats}
    (hrun : Run (RecorderStep T) (idle s₀) actions u) {t : T} {call : Call} {point : Pc}
    (hframe : u.frames t = some (call, point)) (k n : ℕ)
    (h : WrittenBy s₀ (actions ++ [.advance t]) k n) :
    WrittenBy s₀ actions k n ∨ slotOf point = some k ∧ callId actions t = n := by
  rcases writtenBy_snoc hrun h with hold | ⟨t', call', point', ha, hframe', hslot, hid⟩
  · exact Or.inl hold
  · cases ha
    rw [hframe] at hframe'
    cases hframe'
    exact Or.inr ⟨hslot, hid⟩

theorem not_storing_of_waiting {point : Pc} (h : latencyStage point = .waiting) (slot : UInt64) :
    point ≠ .storeLatency slot := by
  rintro rfl
  cases h

theorem slotOf_waiting (l : UInt64) (point : Pc) (hfits : fits (.recordLatency l) point = true)
    (hpoint : ∀ slot, point ≠ .storeLatency slot) : slotOf point = none := by
  cases point with
  | storeLatency slot => exact absurd rfl (hpoint slot)
  | storeSendTime index => cases hfits
  | storeReceiveTime index => cases hfits
  | storeMessageLatency index => cases hfits
  | _ => rfl

theorem reserved_advance {t : T} {l : UInt64} {point : Pc} {holders : List ℕ}
    (hrun : Run (RecorderStep T) (idle (freshStats limits)) actions u)
    (h : Reserved (callsOf actions) (callId actions) (WrittenBy (freshStats limits) actions)
      holders u)
    (hframe : u.frames t = some (.recordLatency l, point))
    (hstep : RecorderStep T u (.advance t) v) (horder : undisturbed u.shared point = true) :
    ∃ holders, Reserved (callsOf actions) (callId actions)
      (WrittenBy (freshStats limits) (actions ++ [.advance t])) holders v := by
  have hmoved := moved_of_step hstep hframe
  have hfits := fits_run hrun hframe
  have hident := identified_run hrun
  have hwritten := writtenBy_advance hrun hframe
  have hquiet (hpoint : ∀ slot, point ≠ .storeLatency slot) (k n : ℕ)
      (hk : WrittenBy (freshStats limits) (actions ++ [.advance t]) k n) :
      WrittenBy (freshStats limits) actions k n := by
    rcases hwritten k n hk with hold | ⟨hslot, _⟩
    · exact hold
    · rw [slotOf_waiting l point hfits hpoint] at hslot
      cases hslot
  have hstage := h.stages t _ point hframe
  cases latency_move u.shared l point hfits with
  | goOn q hwaiting hsame hnext hq =>
    have hpoint := not_storing_of_waiting hwaiting
    rw [hnext] at hmoved
    rw [hwaiting] at hstage
    exact ⟨holders, reserved_goOn h hframe hpoint hmoved hsame (by rw [hq]; exact hstage)
      (hquiet hpoint)⟩
  | read hwaiting hsame hroom hnext =>
    have hpoint := not_storing_of_waiting hwaiting
    rw [hnext] at hmoved
    rw [hwaiting] at hstage
    exact ⟨holders, reserved_goOn h hframe hpoint hmoved hsame ⟨hroom, hstage⟩ (hquiet hpoint)⟩
  | full hwaiting hsame hfull hnext =>
    have hpoint := not_storing_of_waiting hwaiting
    rw [hnext] at hmoved
    exact ⟨holders, reserved_end h hframe hpoint hmoved hsame hfull (hquiet hpoint)⟩
  | reserve hpoint hcount hslots hnext =>
    subst hpoint
    rw [hnext] at hmoved
    refine ⟨_, reserved_reserve h hframe hmoved hcount hslots (hident.lt hframe) ?_
      (hquiet (fun slot hslot => by cases hslot))⟩
    intro t' frame hne hframe' hsame
    exact hne (hident.distinct t' t frame _ hframe' hframe hsame)
  | miss currentCount hpoint hchanged hsame hnext =>
    subst hpoint
    rw [hnext] at hmoved
    exact ⟨holders, reserved_end h hframe (fun slot hslot => by cases hslot) hmoved hsame
      ((of_decide_eq_true horder).resolve_left hchanged)
      (hquiet (fun slot hslot => by cases hslot))⟩
  | store slot hpoint hcount hslots hnext =>
    subst hpoint
    rw [hnext] at hmoved
    refine ⟨holders, reserved_store h hframe hmoved hcount hslots
      (hident.lookup t _ _ hframe) ?_⟩
    intro k n hk
    rcases hwritten k n hk with hold | ⟨hslot, hid⟩
    · exact Or.inl hold
    · exact Or.inr ⟨Option.some.inj hslot, hid⟩

theorem orderly_run (h : Run (OrderlyStep T) (idle (freshStats limits)) actions p) :
    Run (RecorderStep T) (idle (freshStats limits)) actions p := h.mono (fun _ _ _ hstep => hstep.1)

theorem writtenBy_start {s₀ : PerformanceStats} (hrun : Run (RecorderStep T) (idle s₀) actions u)
    {t : T} {call : Call} (k n : ℕ) (h : WrittenBy s₀ (actions ++ [.start t call]) k n) :
    WrittenBy s₀ actions k n := by
  rcases writtenBy_snoc hrun h with hold | ⟨_, _, _, ha, _⟩
  · exact hold
  · cases ha

/-- The list exists after every run of `record_latency` calls whose steps are undisturbed. -/
theorem reserved_run (hrun : Run (OrderlyStep T) (idle (freshStats limits)) actions p)
    (hcalls : ∀ call ∈ callsOf actions, ∃ l, call = .recordLatency l) :
    ∃ holders, Reserved (callsOf actions) (callId actions) (WrittenBy (freshStats limits) actions)
      holders p := by
  revert hcalls
  apply hrun.invariant (P := fun actions p =>
    (∀ call ∈ callsOf actions, ∃ l, call = .recordLatency l) →
      ∃ holders, Reserved (callsOf actions) (callId actions)
        (WrittenBy (freshStats limits) actions) holders p)
  · intro _
    exact ⟨[], reserved_fresh limits _ _ (fun _ _ => not_occurred_nil)⟩
  · intro actions u a v hprefix ih hstep hcalls
    have hplain := orderly_run hprefix
    obtain ⟨hpool, horder⟩ := hstep
    cases a with
    | start t call =>
      rw [callsOf_start] at hcalls ⊢
      rw [callId_start]
      obtain ⟨holders, h⟩ := ih (fun call hcall => hcalls call (List.mem_append_left _ hcall))
      exact ⟨holders, reserved_start h hpool (writtenBy_start hplain)⟩
    | advance t =>
      rw [callsOf_advance] at hcalls ⊢
      rw [callId_advance]
      obtain ⟨holders, h⟩ := ih hcalls
      obtain ⟨call, point, hframe, _⟩ := id hpool
      obtain ⟨l, rfl⟩ := hcalls call (active_started hplain t call point hframe)
      exact reserved_advance hplain h hframe hpool
        (undisturbed_of_orderly horder hframe)

end Runs

/-- With no call in progress every holder has stored its latency, and every call is a holder
unless the slots are used up. -/
theorem intact_of_reserved {T : Type*} {calls : List Call} {id : T → ℕ}
    {written : ℕ → ℕ → Prop} {holders : List ℕ} {p : Pool T PerformanceStats Call Pc}
    (h : Reserved calls id written holders p) (hquiet : Quiescent p) :
    DetailsIntact calls written p.shared := by
  have hlength := h.count
  refine ⟨?_, ⟨holders, h.nodup, hlength.symm, ?_⟩, ?_⟩
  · have hle := length_le_of_lt h.nodup h.started
    have hbound := h.room
    by_cases hroom : holders.length < detailedRecordCount
    · have hall : ∀ n < calls.length, n ∈ holders := by
        intro n hn
        rcases h.served hroom n hn with hmem | ⟨t, frame, hbusy, _⟩
        · exact hmem
        · rw [hquiet t] at hbusy
          cases hbusy
      have heq := length_eq_of_covers h.nodup h.started hall
      omega
    · omega
  · intro k n hk
    rcases h.slots k n hk with hstored | ⟨t, _, _, hbusy, _⟩
    · exact hstored
    · rw [hquiet t] at hbusy
      cases hbusy
  · intro k n n' hn hn'
    have hfirst := h.written k n hn
    rw [h.written k n' hn'] at hfirst
    exact (Option.some.inj hfirst).symm

end AeronFast.DetailSlots
