import AeronFast.AtomicRecorders
import Mathlib.Data.UInt

/-!
The aggregates of the statistics object under any interleaving of its
recorders. Each call deposits one message, its latency and one bucket entry,
so the counters account for every call; the minimum and the maximum only move
towards the latencies of started calls, and each call waits in its loop until
they have passed its own. With no call in progress the aggregates depend on
the latencies alone.
-/
namespace AeronFast.LockFreeAggregates

open CommonTypes WordArithmetic LabelledRuns Interleaving Recorders AtomicRecorders

/-- The atomic steps of any number of threads on one statistics object. -/
abbrev RecorderStep (T : Type*) [DecidableEq T] :=
  PoolStep (T := T) Pc.addMessageCount advance

def latenciesOf (calls : List Call) : List UInt64 := calls.map Call.latency

/-- The bucket counter of a fresh object is empty. -/
theorem tally_fresh (limits : Fin 10 → UInt64) : tally (freshStats limits).latencyBuckets = 0 := by
  simp [tally, freshStats]

theorem exists_bucket (limits : Fin 10 → UInt64) (h : limits 9 = uint64Max) (call : Call) :
    ∃ i, call.bucket limits = some i := by
  cases call with
  | recordLatency l => exact exists_latencyBucket limits h l
  | recordMessageLatency sendTime receiveTime => exact exists_messageLatencyBucket limits h _

section Accounts

variable {T : Type*} [DecidableEq T] [Fintype T] {limits : Fin 10 → UInt64}
variable {actions : List (Action T Call)} {p : Pool T PerformanceStats Call Pc}

theorem sum_ones (calls : List Call) : (calls.map (fun _ => 1)).sum = calls.length := by
  simp

theorem count_account
    (hrun : Run (RecorderStep T) (idle (freshStats limits)) actions p)
    (hcalls : (callsOf actions).length < 2 ^ 64) :
    p.shared.messageCount.toNat + ∑ t, outstanding countDue (fun _ => 1) (p.frames t) =
      (callsOf actions).length := by
  have h := deposits countDue (fun _ => 1) (fun _ => True) (fun s => s.messageCount.toNat)
    countDue (fun n => n < 2 ^ 64) (fun a b h => by omega) rfl (fun _ h => h) countDue_next
    (fun s call point h => by
      simp only [advance_messageCount, h, Bool.false_eq_true, if_false])
    (fun s call point _ h hfits => by
      simp only [advance_messageCount, h, if_true]
      exact toNat_add_one _ hfits)
    trivial (fun _ _ _ _ => trivial) hrun
  rw [sum_ones] at h
  exact (h (by simpa [freshStats] using hcalls)).trans (by simp [freshStats])

open scoped UInt64.CommRing in
theorem total_account
    (hrun : Run (RecorderStep T) (idle (freshStats limits)) actions p) :
    p.shared.totalLatency + ∑ t, outstanding totalDue Call.latency (p.frames t) =
      (latenciesOf (callsOf actions)).sum := by
  have h := deposits totalDue Call.latency (fun _ => True) (fun s => s.totalLatency)
    addsTotal (fun _ => True) (fun _ _ _ => trivial) rfl totalDue_of_adds totalDue_next
    (fun s call point h => by
      simp only [advance_totalLatency, h, Bool.false_eq_true, if_false])
    (fun s call point _ h _ => by simp only [advance_totalLatency, h, if_true])
    trivial (fun _ _ _ _ => trivial) hrun trivial
  exact h.trans (zero_add _)

theorem tally_account (hlimit : limits 9 = uint64Max)
    (hrun : Run (RecorderStep T) (idle (freshStats limits)) actions p)
    (hcalls : (callsOf actions).length < 2 ^ 64) :
    tally p.shared.latencyBuckets + ∑ t, outstanding bucketDue (fun _ => 1) (p.frames t) =
      (callsOf actions).length := by
  have h := deposits bucketDue (fun _ => 1) (fun s => s.latencyBucketLimits 9 = uint64Max)
    (fun s => tally s.latencyBuckets) addsBucket (fun n => n < 2 ^ 64)
    (fun a b h => by omega) rfl bucketDue_of_adds bucketDue_next
    (fun s call point h => by
      simp only [advance_latencyBuckets, h, Bool.false_eq_true, if_false])
    (fun s call point hI h hfits => by
      obtain ⟨i, hi⟩ := exists_bucket s.latencyBucketLimits hI call
      have hcell := cell_le_tally s.latencyBuckets i
      simp only [advance_latencyBuckets, h, if_true, hi]
      exact tally_bump _ i (by omega))
    hlimit (fun s call point h => by rw [advance_latencyBucketLimits]; exact h) hrun
  rw [sum_ones, tally_fresh, Nat.zero_add] at h
  exact h hcalls

/-- Each bucket on its own. -/
theorem bucket_account (i : Fin 10)
    (hrun : Run (RecorderStep T) (idle (freshStats limits)) actions p)
    (hcalls : (callsOf actions).length < 2 ^ 64) :
    (p.shared.latencyBuckets i).toNat +
        ∑ t, outstanding bucketDue (fun call => if call.bucket limits = some i then 1 else 0)
          (p.frames t) =
      (callsOf actions).countP (fun call => call.bucket limits = some i) := by
  have hsum : ∀ calls : List Call,
      (calls.map (fun call => if call.bucket limits = some i then 1 else 0)).sum =
        calls.countP (fun call => call.bucket limits = some i) := by
    intro calls
    induction calls with
    | nil => rfl
    | cons call rest ih =>
      rw [List.map_cons, List.sum_cons, ih, List.countP_cons, Nat.add_comm]
      simp
  have h := deposits bucketDue (fun call => if call.bucket limits = some i then 1 else 0)
    (fun s => s.latencyBucketLimits = limits) (fun s => (s.latencyBuckets i).toNat) addsBucket
    (fun n => n < 2 ^ 64) (fun a b h => by omega) rfl bucketDue_of_adds bucketDue_next
    (fun s call point h => by
      simp only [advance_latencyBuckets, h, Bool.false_eq_true, if_false])
    (fun s call point hI h hfits => by
      simp only [advance_latencyBuckets, h, if_true, hI]
      cases hb : call.bucket limits with
      | none => simp [bumpBucket]
      | some j =>
        by_cases hij : j = i
        · subst hij
          rw [hb, if_pos rfl] at hfits
          simp only [bumpBucket, bump, Function.update_self, if_true]
          exact toNat_add_one _ hfits
        · have hij' : i ≠ j := fun heq => hij heq.symm
          simp [bumpBucket, bump, Function.update_of_ne hij', hij])
    rfl (fun s call point h => by rw [advance_latencyBucketLimits]; exact h) hrun
  have hzero : ((freshStats limits).latencyBuckets i).toNat = 0 := rfl
  rw [hsum, hzero, Nat.zero_add] at h
  exact h (Nat.lt_of_le_of_lt List.countP_le_length hcalls)

/-- A call that has raised a bucket has raised the counter before. -/
theorem tally_le_messageCount (hlimit : limits 9 = uint64Max)
    (hrun : Run (RecorderStep T) (idle (freshStats limits)) actions p)
    (hcalls : (callsOf actions).length < 2 ^ 64) :
    tally p.shared.latencyBuckets ≤ p.shared.messageCount.toNat := by
  have hcount := count_account hrun hcalls
  have htally := tally_account hlimit hrun hcalls
  have hle : ∑ t, outstanding countDue (fun _ => 1) (p.frames t) ≤
      ∑ t, outstanding bucketDue (fun _ => 1) (p.frames t) := by
    apply Finset.sum_le_sum
    intro t _
    cases p.frames t with
    | none => exact Nat.le_refl _
    | some frame =>
      simp only [outstanding]
      cases hdue : countDue frame.2 with
      | false => simp
      | true => simp [bucketDue_of_count frame.2 hdue]
  omega

end Accounts

section Extremes

/-- A step never raises the minimum and never lowers the maximum. -/
theorem advance_min_le (s : PerformanceStats) (call : Call) (point : Pc) :
    (advance s call point).1.minLatency ≤ s.minLatency := by
  rcases advance_minLatency s call point with h | ⟨hless, h⟩
  · rw [h]
    exact UInt64.le_refl _
  · rw [h]
    exact UInt64.le_of_lt hless

theorem le_advance_max (s : PerformanceStats) (call : Call) (point : Pc) :
    s.maxLatency ≤ (advance s call point).1.maxLatency := by
  rcases advance_maxLatency s call point with h | ⟨hless, h⟩
  · rw [h]
    exact UInt64.le_refl _
  · rw [h]
    exact UInt64.le_of_lt hless

/-- On its way to a minimum that is not above its latency. In the loop the value read is one
the minimum had before. -/
def MinAhead (s : PerformanceStats) (_ : Call) : Pc → Prop
  | .minLoop _ currentMin => s.minLatency ≤ currentMin
  | .addMessageCount | .storeFirstTime _ | .storeLastTime _ | .addTotalLatency _
  | .loadMin _ => True
  | _ => False

def MaxAhead (s : PerformanceStats) (_ : Call) : Pc → Prop
  | .maxLoop _ currentMax => currentMax ≤ s.maxLatency
  | .addMessageCount | .storeFirstTime _ | .storeLastTime _ | .addTotalLatency _
  | .loadMin _ | .minLoop _ _ | .storeMinIndex _ | .storeMinSendTime _ | .storeMinReceiveTime _
  | .loadMax _ => True
  | _ => False

theorem minAhead_stable (s : PerformanceStats) (other : Call) (point : Pc) (call : Call)
    (here : Pc) (h : MinAhead s call here) : MinAhead (advance s other point).1 call here := by
  cases here with
  | minLoop index currentMin => exact UInt64.le_trans (advance_min_le s other point) h
  | _ => exact h

theorem maxAhead_stable (s : PerformanceStats) (other : Call) (point : Pc) (call : Call)
    (here : Pc) (h : MaxAhead s call here) : MaxAhead (advance s other point).1 call here := by
  cases here with
  | maxLoop index currentMax => exact UInt64.le_trans h (le_advance_max s other point)
  | _ => exact h

theorem minAhead_advance (s : PerformanceStats) (call : Call) (point : Pc)
    (h : MinAhead s call point) :
    (advance s call point).1.minLatency ≤ call.latency ∨
      ∃ next, (advance s call point).2 = some next ∧
        MinAhead (advance s call point).1 call next := by
  cases point with
  | addMessageCount =>
    refine Or.inr ⟨_, rfl, ?_⟩
    cases call with
    | recordLatency l => trivial
    | recordMessageLatency sendTime receiveTime => trivial
  | storeFirstTime index => exact Or.inr ⟨_, rfl, trivial⟩
  | storeLastTime index => exact Or.inr ⟨_, rfl, trivial⟩
  | addTotalLatency index => exact Or.inr ⟨_, rfl, trivial⟩
  | loadMin index => exact Or.inr ⟨_, rfl, UInt64.le_refl _⟩
  | minLoop index currentMin =>
    simp only [advance]
    split_ifs with hless hsame
    · exact Or.inl (UInt64.le_refl _)
    · exact Or.inr ⟨_, rfl, UInt64.le_refl _⟩
    · exact Or.inl (UInt64.le_trans h (UInt64.not_lt.mp hless))
  | _ => exact absurd h id

theorem maxAhead_advance (s : PerformanceStats) (call : Call) (point : Pc)
    (h : MaxAhead s call point) :
    call.latency ≤ (advance s call point).1.maxLatency ∨
      ∃ next, (advance s call point).2 = some next ∧
        MaxAhead (advance s call point).1 call next := by
  cases point with
  | addMessageCount =>
    refine Or.inr ⟨_, rfl, ?_⟩
    cases call with
    | recordLatency l => trivial
    | recordMessageLatency sendTime receiveTime => trivial
  | minLoop index currentMin =>
    right
    simp only [advance]
    split_ifs with hless hsame
    · refine ⟨_, rfl, ?_⟩
      cases call with
      | recordLatency l => trivial
      | recordMessageLatency sendTime receiveTime => trivial
    · exact ⟨_, rfl, trivial⟩
    · exact ⟨_, rfl, trivial⟩
  | loadMax index => exact Or.inr ⟨_, rfl, UInt64.le_refl _⟩
  | maxLoop index currentMax =>
    simp only [advance]
    split_ifs with hless hsame
    · exact Or.inl (UInt64.le_refl _)
    · exact Or.inr ⟨_, rfl, UInt64.le_refl _⟩
    · exact Or.inl (UInt64.le_trans (UInt64.not_lt.mp hless) h)
  | storeFirstTime index => exact Or.inr ⟨_, rfl, trivial⟩
  | storeLastTime index => exact Or.inr ⟨_, rfl, trivial⟩
  | addTotalLatency index => exact Or.inr ⟨_, rfl, trivial⟩
  | loadMin index => exact Or.inr ⟨_, rfl, trivial⟩
  | storeMinIndex index => exact Or.inr ⟨_, rfl, trivial⟩
  | storeMinSendTime index => exact Or.inr ⟨_, rfl, trivial⟩
  | storeMinReceiveTime index => exact Or.inr ⟨_, rfl, trivial⟩
  | _ => exact absurd h id

variable {T : Type*} [DecidableEq T] {limits : Fin 10 → UInt64}
variable {actions : List (Action T Call)} {p : Pool T PerformanceStats Call Pc}

theorem extremes_started
    (hrun : Run (RecorderStep T) (idle (freshStats limits)) actions p) :
    (p.shared.minLatency = uint64Max ∨
        p.shared.minLatency ∈ latenciesOf (callsOf actions)) ∧
      (p.shared.maxLatency = 0 ∨ p.shared.maxLatency ∈ latenciesOf (callsOf actions)) := by
  apply history_invariant (P := fun calls s =>
    (s.minLatency = uint64Max ∨ s.minLatency ∈ latenciesOf calls) ∧
      (s.maxLatency = 0 ∨ s.maxLatency ∈ latenciesOf calls)) _ _ _ hrun
  · exact ⟨Or.inl rfl, Or.inl rfl⟩
  · intro calls call s h
    simp only [latenciesOf, List.map_append, List.mem_append] at h ⊢
    exact ⟨h.1.imp_right Or.inl, h.2.imp_right Or.inl⟩
  · intro calls call point s hcall h
    have hmem : call.latency ∈ latenciesOf calls := List.mem_map_of_mem hcall
    constructor
    · rcases advance_minLatency s call point with hsame | ⟨_, hnew⟩
      · rw [hsame]
        exact h.1
      · rw [hnew]
        exact Or.inr hmem
    · rcases advance_maxLatency s call point with hsame | ⟨_, hnew⟩
      · rw [hsame]
        exact h.2
      · rw [hnew]
        exact Or.inr hmem

theorem extremes_of_quiescent
    (hrun : Run (RecorderStep T) (idle (freshStats limits)) actions p) (hquiet : Quiescent p) :
    Extremes p.shared.minLatency p.shared.maxLatency (latenciesOf (callsOf actions)) := by
  obtain ⟨hmin, hmax⟩ := extremes_started hrun
  have hlow := service (fun s call => s.minLatency ≤ call.latency) MinAhead hrun
    (fun _ _ => trivial)
    (fun s other point call h => UInt64.le_trans (advance_min_le s other point) h)
    minAhead_stable minAhead_advance
  have hhigh := service (fun s call => call.latency ≤ s.maxLatency) MaxAhead hrun
    (fun _ _ => trivial)
    (fun s other point call h => UInt64.le_trans h (le_advance_max s other point))
    maxAhead_stable maxAhead_advance
  refine ⟨?_, hmin, ?_, hmax⟩
  · intro l hl
    obtain ⟨call, hcall, rfl⟩ := List.mem_map.mp hl
    exact served_of_quiescent (fun s call => s.minLatency ≤ call.latency) MinAhead hquiet
      (hlow call hcall)
  · intro l hl
    obtain ⟨call, hcall, rfl⟩ := List.mem_map.mp hl
    exact served_of_quiescent (fun s call => call.latency ≤ s.maxLatency) MaxAhead hquiet
      (hhigh call hcall)

end Extremes

/-- The aggregates are those of the calls: how many there were, the sum of their latencies in
words, their exact extremes and one bucket entry each. -/
structure AggregatesExact (calls : List Call) (s : PerformanceStats) : Prop where
  messageCount : s.messageCount.toNat = calls.length
  totalLatency : s.totalLatency.toNat = wordSum (latenciesOf calls) % 2 ^ 64
  untouched : calls = [] → s.minLatency = uint64Max ∧ s.maxLatency = 0
  attained : calls ≠ [] →
    s.minLatency ∈ latenciesOf calls ∧ s.maxLatency ∈ latenciesOf calls
  bounds : ∀ l ∈ latenciesOf calls, s.minLatency ≤ l ∧ l ≤ s.maxLatency
  buckets : ∑ i, (s.latencyBuckets i).toNat = calls.length

open scoped UInt64.CommRing in
theorem toNat_sum (words : List UInt64) : words.sum.toNat = wordSum words % 2 ^ 64 := by
  induction words with
  | nil => rfl
  | cons a rest ih =>
    rw [List.sum_cons, UInt64.toNat_add, ih, Nat.add_mod_mod]
    rfl

theorem exact_of_extremes {calls : List Call} {s : PerformanceStats}
    (hcount : s.messageCount.toNat = calls.length)
    (htotal : s.totalLatency.toNat = wordSum (latenciesOf calls) % 2 ^ 64)
    (hextremes : Extremes s.minLatency s.maxLatency (latenciesOf calls))
    (hbuckets : ∑ i, (s.latencyBuckets i).toNat = calls.length) : AggregatesExact calls s := by
  refine ⟨hcount, htotal, ?_, ?_, ?_, hbuckets⟩
  · intro hnone
    rw [hnone] at hextremes
    exact ⟨hextremes.low_mem.resolve_right List.not_mem_nil,
      hextremes.high_mem.resolve_right List.not_mem_nil⟩
  · intro hne
    exact extremes_attained hextremes (by simpa [latenciesOf] using hne)
  · intro l hl
    exact ⟨hextremes.low_le l hl, hextremes.le_high l hl⟩

/-- More samples can only widen the bounds. -/
theorem extremes_widen {low high low' high' : UInt64} {samples samples' : List UInt64}
    (h : Extremes low high samples) (h' : Extremes low' high' samples')
    (hsub : ∀ l ∈ samples', l ∈ samples) : low ≤ low' ∧ high' ≤ high := by
  constructor
  · rcases h'.low_mem with hmax | hmem
    · rw [hmax]
      exact le_uint64Max low
    · exact h.low_le low' (hsub low' hmem)
  · rcases h'.high_mem with hzero | hmem
    · rw [hzero]
      exact UInt64.zero_le
    · exact h.le_high high' (hsub high' hmem)

theorem extremes_unique {low high low' high' : UInt64} {samples samples' : List UInt64}
    (h : Extremes low high samples) (h' : Extremes low' high' samples')
    (hmem : ∀ l, l ∈ samples ↔ l ∈ samples') : low = low' ∧ high = high' := by
  obtain ⟨hlow, hhigh⟩ := extremes_widen h h' (fun l hl => (hmem l).mpr hl)
  obtain ⟨hlow', hhigh'⟩ := extremes_widen h' h (fun l hl => (hmem l).mp hl)
  exact ⟨UInt64.le_antisymm hlow hlow', UInt64.le_antisymm hhigh' hhigh⟩

section Quiescence

variable {T : Type*} [DecidableEq T] [Fintype T] {limits : Fin 10 → UInt64}
variable {actions : List (Action T Call)} {p : Pool T PerformanceStats Call Pc}

theorem exact_of_quiescent (hlimit : limits 9 = uint64Max)
    (hrun : Run (RecorderStep T) (idle (freshStats limits)) actions p)
    (hcalls : (callsOf actions).length < 2 ^ 64) (hquiet : Quiescent p) :
    AggregatesExact (callsOf actions) p.shared := by
  have hcount := count_account hrun hcalls
  rw [sum_outstanding_of_quiescent _ _ p hquiet, Nat.add_zero] at hcount
  have htotal := total_account hrun
  rw [sum_outstanding_of_quiescent _ _ p hquiet] at htotal
  have htally := tally_account hlimit hrun hcalls
  rw [sum_outstanding_of_quiescent _ _ p hquiet, Nat.add_zero] at htally
  apply exact_of_extremes hcount _ (extremes_of_quiescent hrun hquiet) htally
  rw [← toNat_sum, ← htotal]
  simp

theorem bucket_of_quiescent (i : Fin 10)
    (hrun : Run (RecorderStep T) (idle (freshStats limits)) actions p)
    (hcalls : (callsOf actions).length < 2 ^ 64) (hquiet : Quiescent p) :
    (p.shared.latencyBuckets i).toNat =
      (callsOf actions).countP (fun call => call.bucket limits = some i) := by
  have h := bucket_account i hrun hcalls
  rwa [sum_outstanding_of_quiescent _ _ p hquiet, Nat.add_zero] at h

end Quiescence

/-- All the calls are calls of one and the same recorder. -/
def OneRecorder (calls : List Call) : Prop :=
  (∀ call ∈ calls, ∃ l, call = .recordLatency l) ∨
    ∀ call ∈ calls, ∃ sendTime receiveTime, call = .recordMessageLatency sendTime receiveTime

/-- Calls of one recorder choose their bucket by the latency alone. -/
theorem bucket_of_oneRecorder (limits : Fin 10 → UInt64) (calls : List Call)
    (h : OneRecorder calls) :
    ∃ f : UInt64 → Option (Fin 10), ∀ call ∈ calls, call.bucket limits = f call.latency := by
  rcases h with h | h
  · refine ⟨latencyBucket limits, ?_⟩
    intro call hcall
    obtain ⟨l, rfl⟩ := h call hcall
    rfl
  · refine ⟨messageLatencyBucket limits, ?_⟩
    intro call hcall
    obtain ⟨sendTime, receiveTime, rfl⟩ := h call hcall
    rfl

theorem countP_latencies (limits : Fin 10 → UInt64) (f : UInt64 → Option (Fin 10)) (i : Fin 10)
    (calls : List Call) (h : ∀ call ∈ calls, call.bucket limits = f call.latency) :
    calls.countP (fun call => call.bucket limits = some i) =
      (latenciesOf calls).countP (fun l => f l = some i) := by
  rw [latenciesOf, List.countP_map]
  apply List.countP_congr
  intro call hcall
  simp [h call hcall]

/-- The aggregates of two objects are the same. -/
structure SameAggregates (s s' : PerformanceStats) : Prop where
  messageCount : s.messageCount = s'.messageCount
  totalLatency : s.totalLatency = s'.totalLatency
  minLatency : s.minLatency = s'.minLatency
  maxLatency : s.maxLatency = s'.maxLatency
  buckets : ∑ i, (s.latencyBuckets i).toNat = ∑ i, (s'.latencyBuckets i).toNat

section Independence

variable {T U : Type*} [DecidableEq T] [Fintype T] [DecidableEq U] [Fintype U]
variable {limits : Fin 10 → UInt64}
variable {actions : List (Action T Call)} {p : Pool T PerformanceStats Call Pc}
variable {actions' : List (Action U Call)} {p' : Pool U PerformanceStats Call Pc}

theorem same_of_perm (hlimit : limits 9 = uint64Max)
    (hrun : Run (RecorderStep T) (idle (freshStats limits)) actions p)
    (hrun' : Run (RecorderStep U) (idle (freshStats limits)) actions' p')
    (hcalls : (callsOf actions).length < 2 ^ 64) (hquiet : Quiescent p) (hquiet' : Quiescent p')
    (hperm : (latenciesOf (callsOf actions)).Perm (latenciesOf (callsOf actions'))) :
    SameAggregates p.shared p'.shared ∧
      (OneRecorder (callsOf actions ++ callsOf actions') →
        p.shared.latencyBuckets = p'.shared.latencyBuckets) := by
  have hlength : (callsOf actions).length = (callsOf actions').length := by
    simpa [latenciesOf] using hperm.length_eq
  have hcalls' : (callsOf actions').length < 2 ^ 64 := by omega
  have hexact := exact_of_quiescent hlimit hrun hcalls hquiet
  have hexact' := exact_of_quiescent hlimit hrun' hcalls' hquiet'
  obtain ⟨hmin, hmax⟩ := extremes_unique (extremes_of_quiescent hrun hquiet)
    (extremes_of_quiescent hrun' hquiet') (fun l => hperm.mem_iff)
  constructor
  · refine ⟨?_, ?_, hmin, hmax, ?_⟩
    · apply UInt64.toNat_inj.mp
      rw [hexact.messageCount, hexact'.messageCount, hlength]
    · apply UInt64.toNat_inj.mp
      rw [hexact.totalLatency, hexact'.totalLatency, wordSum, wordSum,
        (hperm.map UInt64.toNat).sum_eq]
    · rw [hexact.buckets, hexact'.buckets, hlength]
  · intro hone
    obtain ⟨f, hf⟩ := bucket_of_oneRecorder limits _ hone
    funext i
    apply UInt64.toNat_inj.mp
    rw [bucket_of_quiescent i hrun hcalls hquiet, bucket_of_quiescent i hrun' hcalls' hquiet',
      countP_latencies limits f i _ (fun call h => hf call (List.mem_append_left _ h)),
      countP_latencies limits f i _ (fun call h => hf call (List.mem_append_right _ h)),
      hperm.countP_eq]

end Independence

/-- Any number of threads interleave any calls of the two recorders on one fresh object, fewer
than 2^64 calls in all. Along every run the minimum only falls and the maximum only rises; in
every state the minimum is untouched or the latency of a started call, and the buckets hold no
more than the counter; with no call in progress the aggregates are exact, and the same for
every run whose calls have the same latencies. -/
theorem aggregates_lose_no_update {T U : Type} [DecidableEq T] [Fintype T] [DecidableEq U]
    [Fintype U] (initial : PerformanceStats)
    (hinitial : initial = createPerformanceStats ∨ initial = initPerformanceStats)
    (actions : List (Action T Call)) (p : Pool T PerformanceStats Call Pc)
    (hrun : Run (RecorderStep T) (idle initial) actions p)
    (hcalls : (callsOf actions).length < 2 ^ 64) :
    (∀ earlier later q, actions = earlier ++ later →
        Run (RecorderStep T) (idle initial) earlier q → Run (RecorderStep T) q later p →
        p.shared.minLatency ≤ q.shared.minLatency ∧
          q.shared.maxLatency ≤ p.shared.maxLatency) ∧
      (p.shared.minLatency = uint64Max ∨
        ∃ call ∈ callsOf actions, p.shared.minLatency = call.latency) ∧
      ∑ i, (p.shared.latencyBuckets i).toNat ≤ p.shared.messageCount.toNat ∧
      (Quiescent p → AggregatesExact (callsOf actions) p.shared) ∧
      ∀ (actions' : List (Action U Call)) (p' : Pool U PerformanceStats Call Pc),
        Run (RecorderStep U) (idle initial) actions' p' → Quiescent p → Quiescent p' →
        (latenciesOf (callsOf actions)).Perm (latenciesOf (callsOf actions')) →
        SameAggregates p.shared p'.shared ∧
          (OneRecorder (callsOf actions ++ callsOf actions') →
            p.shared.latencyBuckets = p'.shared.latencyBuckets) := by
  obtain ⟨limits, hlimit, rfl⟩ : ∃ limits : Fin 10 → UInt64,
      limits 9 = uint64Max ∧ initial = freshStats limits := by
    rcases hinitial with rfl | rfl
    · exact ⟨_, rfl, rfl⟩
    · exact ⟨_, rfl, rfl⟩
  refine ⟨?_, ?_, ?_, ?_, ?_⟩
  · intro earlier later q _ _ hlater
    constructor
    · exact shared_rel (R := fun a b => b.minLatency ≤ a.minLatency)
        (fun _ => UInt64.le_refl _) (fun _ _ _ hab hbd => UInt64.le_trans hbd hab)
        advance_min_le hlater
    · exact shared_rel (R := fun a b => a.maxLatency ≤ b.maxLatency)
        (fun _ => UInt64.le_refl _) (fun _ _ _ hab hbd => UInt64.le_trans hab hbd)
        le_advance_max hlater
  · rcases (extremes_started hrun).1 with hmax | hmem
    · exact Or.inl hmax
    · obtain ⟨call, hcall, hlatency⟩ := List.mem_map.mp hmem
      exact Or.inr ⟨call, hcall, hlatency.symm⟩
  · exact tally_le_messageCount hlimit hrun hcalls
  · exact exact_of_quiescent hlimit hrun hcalls
  · intro actions' p' hrun' hquiet hquiet' hperm
    exact same_of_perm hlimit hrun hrun' hcalls hquiet hquiet' hperm

/-- No call of the two threads is in progress. -/
def bothIdle (p : Pool Bool PerformanceStats Call Pc) : Bool :=
  (p.frames true).isNone && (p.frames false).isNone

theorem quiescent_of_bothIdle {p : Pool Bool PerformanceStats Call Pc} (h : bothIdle p = true) :
    Quiescent p := by
  simp only [bothIdle, Bool.and_eq_true, Option.isNone_iff_eq_none] at h
  intro t
  cases t with
  | false => exact h.2
  | true => exact h.1

/-- A thread steps so many times. -/
def advances (t : Bool) (steps : ℕ) : List (Action Bool Call) := List.replicate steps (.advance t)

/-- Two threads read the untouched minimum; the slower call lowers it first. -/
def racedMinimum : List (Action Bool Call) :=
  [.start true (.recordLatency 5), .advance true, .advance true, .advance true,
    .start false (.recordLatency 7), .advance false, .advance false, .advance false,
    .advance false]

/-- The faster call tries again and ends, then the slower one. -/
def racedRest : List (Action Bool Call) := advances true 8 ++ advances false 6

/-- The compare-and-swap of the first thread meets a minimum that the second has lowered since.
Once both calls have ended the aggregates are exact. -/
theorem racedCalls_exact :
    ∃ q p, Run (RecorderStep Bool) (idle createPerformanceStats) racedMinimum q ∧
      q.frames true = some (.recordLatency 5, .minLoop 0 uint64Max) ∧ q.shared.minLatency = 7 ∧
      Run (RecorderStep Bool) q racedRest p ∧ Quiescent p ∧
      p.shared.minLatency ≤ q.shared.minLatency ∧
      AggregatesExact [.recordLatency 5, .recordLatency 7] p.shared := by
  obtain ⟨q, hearlier, htest⟩ := exists_run_of_execute Pc.addMessageCount advance
    (fun _ _ => true) (idle createPerformanceStats) racedMinimum
    (fun q => q.frames true = some (Call.recordLatency 5, Pc.minLoop 0 uint64Max) &&
      q.shared.minLatency = 7 &&
      (execute Pc.addMessageCount advance (fun _ _ => true) q racedRest).any bothIdle) (by decide)
  simp only [Bool.and_eq_true, decide_eq_true_eq] at htest
  obtain ⟨⟨hframe, hmin⟩, hrest⟩ := htest
  obtain ⟨p, hlater, hidle⟩ := exists_run_of_execute Pc.addMessageCount advance
    (fun _ _ => true) q racedRest bothIdle hrest
  have hquiet : Quiescent p := quiescent_of_bothIdle hidle
  have hbefore : Run (RecorderStep Bool) (idle createPerformanceStats) racedMinimum q :=
    hearlier.mono (fun _ _ _ hstep => hstep.1)
  have hafter : Run (RecorderStep Bool) q racedRest p := hlater.mono (fun _ _ _ hstep => hstep.1)
  have h := aggregates_lose_no_update (U := Bool) createPerformanceStats (Or.inl rfl)
    (racedMinimum ++ racedRest) p (hbefore.append hafter) (by decide)
  exact ⟨q, p, hbefore, hframe, hmin, hafter, hquiet, (h.1 _ _ q rfl hbefore hafter).1,
    h.2.2.2.1 hquiet⟩

end AeronFast.LockFreeAggregates
