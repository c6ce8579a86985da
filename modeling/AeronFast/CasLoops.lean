import AeronFast.LockFreeAggregates
import AeronFast.RetryLoops

/-!
The compare-and-swap loops of the two recorders end under any interference.
The shared minimum only falls, so what a loop has read of it is never below
it, and a failed compare-and-swap met a value that is strictly smaller; the
maximum likewise. What was read first therefore bounds the number of
compare-and-swaps of a loop, and one more step is enough to leave it.
-/
namespace AeronFast.CasLoops

open CommonTypes LabelledRuns Interleaving RetryLoops Recorders AtomicRecorders
open LockFreeAggregates

def inMinLoop : Pc → Bool
  | .minLoop _ _ => true
  | _ => false

def inMaxLoop : Pc → Bool
  | .maxLoop _ _ => true
  | _ => false

/-- The loop test passes, so the next step is a compare-and-swap on the minimum. -/
def casMin (call : Call) : Pc → Bool
  | .minLoop _ currentMin => call.latency < currentMin
  | _ => false

def casMax (call : Call) : Pc → Bool
  | .maxLoop _ currentMax => currentMax < call.latency
  | _ => false

/-- How far the value last read is above the latency. -/
def minGauge (call : Call) : Pc → ℕ
  | .minLoop _ currentMin => currentMin.toNat - call.latency.toNat
  | _ => 0

def maxGauge (call : Call) : Pc → ℕ
  | .maxLoop _ currentMax => call.latency.toNat - currentMax.toNat
  | _ => 0

/-- What a loop has read of the minimum or the maximum is a value it had before. -/
def ReadBefore (s : PerformanceStats) (_ : Call) : Pc → Prop
  | .minLoop _ currentMin => s.minLatency ≤ currentMin
  | .maxLoop _ currentMax => currentMax ≤ s.maxLatency
  | _ => True

theorem readBefore_stable (s : PerformanceStats) (other : Call) (point : Pc) (call : Call)
    (here : Pc) (h : ReadBefore s call here) :
    ReadBefore (advance s other point).1 call here := by
  cases here with
  | minLoop index currentMin => exact UInt64.le_trans (advance_min_le s other point) h
  | maxLoop index currentMax => exact UInt64.le_trans h (le_advance_max s other point)
  | _ => trivial

/-- A step leads into the minimum loop by reading the minimum: at the load before it, or in a
compare-and-swap that failed. -/
theorem enters_minLoop (s : PerformanceStats) (call : Call) (point : Pc) (index current : UInt64)
    (h : (advance s call point).2 = some (.minLoop index current)) :
    (advance s call point).1 = s ∧ current = s.minLatency ∧
      (point = .loadMin index ∨
        ∃ old, point = .minLoop index old ∧ call.latency < old ∧ s.minLatency ≠ old) := by
  cases point with
  | loadMin index' =>
    cases h
    exact ⟨rfl, rfl, Or.inl rfl⟩
  | minLoop index' old =>
    simp only [advance] at h ⊢
    split_ifs at h ⊢ with hless hsame
    · cases call <;> cases h
    · cases h
      exact ⟨rfl, rfl, Or.inr ⟨old, rfl, hless, hsame⟩⟩
    · cases h
  | maxLoop index' old =>
    simp only [advance] at h
    split_ifs at h
    all_goals cases call <;> cases h
  | storeSendTime index' =>
    simp only [advance] at h
    split_ifs at h
    all_goals cases h
  | _ => cases call <;> simp [advance, Call.afterCount, Call.afterBucket, apply_ite Prod.snd] at h

theorem enters_maxLoop (s : PerformanceStats) (call : Call) (point : Pc) (index current : UInt64)
    (h : (advance s call point).2 = some (.maxLoop index current)) :
    (advance s call point).1 = s ∧ current = s.maxLatency ∧
      (point = .loadMax index ∨
        ∃ old, point = .maxLoop index old ∧ old < call.latency ∧ s.maxLatency ≠ old) := by
  cases point with
  | loadMax index' =>
    cases h
    exact ⟨rfl, rfl, Or.inl rfl⟩
  | maxLoop index' old =>
    simp only [advance] at h ⊢
    split_ifs at h ⊢ with hless hsame
    · cases call <;> cases h
    · cases h
      exact ⟨rfl, rfl, Or.inr ⟨old, rfl, hless, hsame⟩⟩
    · cases call <;> cases h
  | minLoop index' old =>
    simp only [advance] at h
    split_ifs at h
    all_goals cases call <;> cases h
  | storeSendTime index' =>
    simp only [advance] at h
    split_ifs at h
    all_goals cases h
  | _ => cases call <;> simp [advance, Call.afterCount, Call.afterBucket, apply_ite Prod.snd] at h

theorem readBefore_advance (s : PerformanceStats) (call : Call) (point next : Pc)
    (hnext : (advance s call point).2 = some next) :
    ReadBefore (advance s call point).1 call next := by
  cases next with
  | minLoop index current =>
    obtain ⟨hsame, hread, _⟩ := enters_minLoop s call point index current hnext
    rw [hsame, hread]
    exact UInt64.le_refl _
  | maxLoop index current =>
    obtain ⟨hsame, hread, _⟩ := enters_maxLoop s call point index current hnext
    rw [hsame, hread]
    exact UInt64.le_refl _
  | _ => trivial

section Runs

variable {T : Type*} [DecidableEq T] {s₀ : PerformanceStats}

/-- Some interleaving of recorder calls leads to the pool. -/
def Reached (s₀ : PerformanceStats) (p : Pool T PerformanceStats Call Pc) : Prop :=
  ∃ actions, Run (RecorderStep T) (idle s₀) actions p

theorem reached_step {p q : Pool T PerformanceStats Call Pc} {a : Action T Call}
    (h : Reached s₀ p) (hstep : RecorderStep T p a q) : Reached s₀ q := by
  obtain ⟨actions, hrun⟩ := h
  exact ⟨actions ++ [a], Run.snoc hrun hstep⟩

variable {p : Pool T PerformanceStats Call Pc} {t : T} {call : Call} {point : Pc}

theorem readBefore_reached (h : Reached s₀ p) (hframe : p.frames t = some (call, point)) :
    ReadBefore p.shared call point := by
  obtain ⟨actions, hrun⟩ := h
  have hentry : ∀ (s : PerformanceStats) (call : Call), ReadBefore s call .addMessageCount :=
    fun _ _ => trivial
  exact frames_invariant (I := ReadBefore) hentry readBefore_stable
    (fun s call point next _ hnext => readBefore_advance s call point next hnext) hrun t call
    point hframe

/-- A failed compare-and-swap has met a smaller minimum. -/
theorem failed_casMin {index current : UInt64} (h : Reached s₀ p)
    (hframe : p.frames t = some (call, .minLoop index current))
    (hfailed : p.shared.minLatency ≠ current) : p.shared.minLatency < current :=
  UInt64.lt_of_le_of_ne (readBefore_reached h hframe) hfailed

theorem failed_casMax {index current : UInt64} (h : Reached s₀ p)
    (hframe : p.frames t = some (call, .maxLoop index current))
    (hfailed : p.shared.maxLatency ≠ current) : current < p.shared.maxLatency :=
  UInt64.lt_of_le_of_ne (readBefore_reached h hframe) hfailed.symm

/-- Staying in the minimum loop takes a failed compare-and-swap, and it lowers the gauge. -/
theorem minGauge_drop (next : Pc) (h : Reached s₀ p) (hframe : p.frames t = some (call, point))
    (hin : inMinLoop point = true) (hnext : (advance p.shared call point).2 = some next)
    (hstay : inMinLoop next = true) :
    casMin call point = true ∧ minGauge call next < minGauge call point := by
  cases next with
  | minLoop index current =>
    obtain ⟨_, rfl, rfl | ⟨old, rfl, hless, hfailed⟩⟩ :=
      enters_minLoop p.shared call point index current hnext
    · cases hin
    · have hlower := UInt64.lt_iff_toNat_lt.mp (failed_casMin h hframe hfailed)
      have habove := UInt64.lt_iff_toNat_lt.mp hless
      refine ⟨decide_eq_true hless, ?_⟩
      simp only [minGauge]
      omega
  | _ => cases hstay

theorem maxGauge_drop (next : Pc) (h : Reached s₀ p) (hframe : p.frames t = some (call, point))
    (hin : inMaxLoop point = true) (hnext : (advance p.shared call point).2 = some next)
    (hstay : inMaxLoop next = true) :
    casMax call point = true ∧ maxGauge call next < maxGauge call point := by
  cases next with
  | maxLoop index current =>
    obtain ⟨_, rfl, rfl | ⟨old, rfl, hless, hfailed⟩⟩ :=
      enters_maxLoop p.shared call point index current hnext
    · cases hin
    · have hhigher := UInt64.lt_iff_toNat_lt.mp (failed_casMax h hframe hfailed)
      have hbelow := UInt64.lt_iff_toNat_lt.mp hless
      refine ⟨decide_eq_true hless, ?_⟩
      simp only [maxGauge]
      omega
  | _ => cases hstay

theorem minGauge_pos (call : Call) (point : Pc) (hin : inMinLoop point = true)
    (hcas : casMin call point = true) : 0 < minGauge call point := by
  cases point with
  | minLoop index current =>
    have hless := UInt64.lt_iff_toNat_lt.mp (of_decide_eq_true hcas)
    exact Nat.sub_pos_of_lt hless
  | _ => cases hin

theorem maxGauge_pos (call : Call) (point : Pc) (hin : inMaxLoop point = true)
    (hcas : casMax call point = true) : 0 < maxGauge call point := by
  cases point with
  | maxLoop index current =>
    have hless := UInt64.lt_iff_toNat_lt.mp (of_decide_eq_true hcas)
    exact Nat.sub_pos_of_lt hless
  | _ => cases hin

end Runs

section Loops

variable {T : Type*} [DecidableEq T] {s₀ : PerformanceStats}
variable {p q : Pool T PerformanceStats Call Pc} {t : T} {call : Call} {index : UInt64}
variable {later : List (Action T Call)} {w : Watch T PerformanceStats Call Pc}

/-- The minimum loop, watched from the load before it. -/
theorem minLoop_bounded (h : Reached s₀ p) (hframe : p.frames t = some (call, .loadMin index))
    (hload : RecorderStep T p (.advance t) q)
    (hrun : Run (WatchedStep Pc.addMessageCount advance inMinLoop casMin t) ⟨q, 0, 0⟩ later w) :
    Watched inMinLoop minGauge t call
      (p.shared.minLatency.toNat - call.latency.toNat) w := by
  have hq := reached_step h hload
  obtain ⟨call', point, hframe', rfl⟩ := hload
  rw [hframe] at hframe'
  cases hframe'
  exact watched_run (I := Reached s₀) minGauge (.minLoop index p.shared.minLatency)
    (fun _ _ _ => reached_step) (minGauge_pos call)
    (fun p point next hp hframe => minGauge_drop next hp hframe) hq
    (by simp [advance]) hrun

theorem maxLoop_bounded (h : Reached s₀ p) (hframe : p.frames t = some (call, .loadMax index))
    (hload : RecorderStep T p (.advance t) q)
    (hrun : Run (WatchedStep Pc.addMessageCount advance inMaxLoop casMax t) ⟨q, 0, 0⟩ later w) :
    Watched inMaxLoop maxGauge t call
      (call.latency.toNat - p.shared.maxLatency.toNat) w := by
  have hq := reached_step h hload
  obtain ⟨call', point, hframe', rfl⟩ := hload
  rw [hframe] at hframe'
  cases hframe'
  exact watched_run (I := Reached s₀) maxGauge (.maxLoop index p.shared.maxLatency)
    (fun _ _ _ => reached_step) (maxGauge_pos call)
    (fun p point next hp hframe => maxGauge_drop next hp hframe) hq
    (by simp [advance]) hrun

end Loops

/-- The step is a compare-and-swap that fails: nothing is written and the call goes round its loop
with the value it met. -/
def FailsAt (s : PerformanceStats) (call : Call) (point next : Pc) : Prop :=
  advance s call point = (s, some next)

/-- In every state of every interleaving of recorder calls, from an object in any state, a failed
compare-and-swap leaves the call with a strictly smaller minimum or a strictly larger maximum
than it had read. From the load before its loop on, a call makes at most as many
compare-and-swaps as the value read first is away from its latency, and takes at most one step
more in the loop; while it is still in the loop all its steps there were compare-and-swaps, and
it can take the next one. -/
theorem cas_loops_end {T : Type} [DecidableEq T] (s₀ : PerformanceStats)
    (actions : List (Action T Call)) (p : Pool T PerformanceStats Call Pc)
    (hrun : Run (RecorderStep T) (idle s₀) actions p) (t : T) (call : Call) (index : UInt64) :
    (∀ current, p.frames t = some (call, .minLoop index current) → call.latency < current →
        p.shared.minLatency ≠ current →
        FailsAt p.shared call (.minLoop index current) (.minLoop index p.shared.minLatency) ∧
          p.shared.minLatency < current) ∧
      (∀ current, p.frames t = some (call, .maxLoop index current) → current < call.latency →
        p.shared.maxLatency ≠ current →
        FailsAt p.shared call (.maxLoop index current) (.maxLoop index p.shared.maxLatency) ∧
          current < p.shared.maxLatency) ∧
      (p.frames t = some (call, .loadMin index) → ∀ q later w,
        RecorderStep T p (.advance t) q →
        Run (WatchedStep Pc.addMessageCount advance inMinLoop casMin t) ⟨q, 0, 0⟩ later w →
        w.attempts ≤ p.shared.minLatency.toNat - call.latency.toNat ∧
          w.steps ≤ w.attempts + 1 ∧
          (Looping inMinLoop t w.pool → w.steps = w.attempts ∧
            ∃ w', WatchedStep Pc.addMessageCount advance inMinLoop casMin t w (.advance t) w')) ∧
      (p.frames t = some (call, .loadMax index) → ∀ q later w,
        RecorderStep T p (.advance t) q →
        Run (WatchedStep Pc.addMessageCount advance inMaxLoop casMax t) ⟨q, 0, 0⟩ later w →
        w.attempts ≤ call.latency.toNat - p.shared.maxLatency.toNat ∧
          w.steps ≤ w.attempts + 1 ∧
          (Looping inMaxLoop t w.pool → w.steps = w.attempts ∧
            ∃ w', WatchedStep Pc.addMessageCount advance inMaxLoop casMax t w (.advance t)
              w')) := by
  have hreached : Reached s₀ p := ⟨actions, hrun⟩
  refine ⟨?_, ?_, ?_, ?_⟩
  · intro current hframe hless hfailed
    refine ⟨?_, failed_casMin hreached hframe hfailed⟩
    simp [FailsAt, advance, hless, hfailed]
  · intro current hframe hless hfailed
    refine ⟨?_, failed_casMax hreached hframe hfailed⟩
    simp [FailsAt, advance, hless, hfailed]
  · intro hframe q later w hload hlater
    have h := minLoop_bounded hreached hframe hload hlater
    exact ⟨h.attempts, h.steps, fun hloop => ⟨(h.inside hloop).1, exists_watchedStep hloop⟩⟩
  · intro hframe q later w hload hlater
    have h := maxLoop_bounded hreached hframe hload hlater
    exact ⟨h.attempts, h.steps, fun hloop => ⟨(h.inside hloop).1, exists_watchedStep hloop⟩⟩

/-- Two threads read the untouched minimum, the slower call lowers it first, and the
compare-and-swap of the faster call fails on the value 7. -/
theorem racedMinimum_fails :
    ∃ p, Run (RecorderStep Bool) (idle createPerformanceStats) racedMinimum p ∧
      p.frames true = some (.recordLatency 5, .minLoop 0 uint64Max) ∧
      FailsAt p.shared (.recordLatency 5) (.minLoop 0 uint64Max) (.minLoop 0 7) ∧
      p.shared.minLatency < uint64Max := by
  obtain ⟨p, hexecuted, htest⟩ := exists_run_of_execute Pc.addMessageCount advance
    (fun _ _ => true) (idle createPerformanceStats) racedMinimum
    (fun p => p.frames true = some (Call.recordLatency 5, Pc.minLoop 0 uint64Max) &&
      p.shared.minLatency = 7) (by decide)
  have hrun : Run (RecorderStep Bool) (idle createPerformanceStats) racedMinimum p :=
    hexecuted.mono (fun _ _ _ hstep => hstep.1)
  simp only [Bool.and_eq_true, decide_eq_true_eq] at htest
  obtain ⟨hframe, hmin⟩ := htest
  have h := (cas_loops_end createPerformanceStats racedMinimum p hrun true (.recordLatency 5)
    0).1 uint64Max hframe (by decide) (by rw [hmin]; decide)
  rw [hmin] at h
  exact ⟨p, hrun, hframe, h.1, by rw [hmin]; exact h.2⟩

end AeronFast.CasLoops
