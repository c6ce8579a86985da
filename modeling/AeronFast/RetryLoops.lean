import AeronFast.Interleaving

/-!
A thread in a retry loop among other threads. The thread is watched from a
state in which it is in the loop: its own steps are counted, and those among
them that make an attempt. If a gauge of the loop drops with every attempt
that does not leave the loop, then the first gauge bounds the attempts, and
one more own step is enough to be out, whatever the other threads do.
-/
namespace AeronFast.RetryLoops

open LabelledRuns Interleaving

variable {T σ c pc : Type*}

/-- The pool, and what the watched thread has done since the watch began. -/
structure Watch (T σ c pc : Type*) where
  pool : Pool T σ c pc
  attempts : ℕ
  steps : ℕ

/-- The thread is in the loop. -/
def Looping (inLoop : pc → Bool) (t : T) (p : Pool T σ c pc) : Prop :=
  ∃ call point, p.frames t = some (call, point) ∧ inLoop point = true

/-- The next step of the thread is an attempt. -/
def attempting (attempt : c → pc → Bool) (t : T) (p : Pool T σ c pc) : Bool :=
  (p.frames t).any (fun frame => attempt frame.1 frame.2)

section Watched

variable [DecidableEq T] (entry : pc) (advance : σ → c → pc → σ × Option pc)
variable (inLoop : pc → Bool) (attempt : c → pc → Bool) (t : T)

/-- Any step of the pool while the thread is in the loop. -/
def WatchedStep (w : Watch T σ c pc) (a : Action T c) (w' : Watch T σ c pc) : Prop :=
  PoolStep entry advance w.pool a w'.pool ∧ Looping inLoop t w.pool ∧
    w'.steps = w.steps + (if ownStep t a then 1 else 0) ∧
    w'.attempts = w.attempts + if ownStep t a && attempting attempt t w.pool then 1 else 0

variable {entry advance inLoop attempt t}

/-- A thread in the loop is not kept from its next step. -/
theorem exists_watchedStep {w : Watch T σ c pc} (h : Looping inLoop t w.pool) :
    ∃ w', WatchedStep entry advance inLoop attempt t w (.advance t) w' := by
  obtain ⟨call, point, hframe, hin⟩ := h
  exact ⟨⟨_, _, _⟩, ⟨call, point, hframe, rfl⟩, ⟨call, point, hframe, hin⟩, rfl, rfl⟩

/-- What is known of a watch that began with the thread at `first`: in the loop every own step was
an attempt and the gauge has dropped by their number; out of it the last own step may have been
no attempt. -/
structure Watched (inLoop : pc → Bool) (gauge : c → pc → ℕ) (t : T) (call : c) (first : ℕ)
    (w : Watch T σ c pc) : Prop where
  attempts : w.attempts ≤ first
  steps : w.steps ≤ w.attempts + 1
  inside : Looping inLoop t w.pool → w.steps = w.attempts ∧
    ∃ point, w.pool.frames t = some (call, point) ∧ gauge call point + w.attempts ≤ first

variable (gauge : c → pc → ℕ)

/-- An own step in the loop: an attempt is possible only while the gauge is positive, and a step
that stays in the loop lowers it. -/
theorem watched_step {I : Pool T σ c pc → Prop} {call : c} {first : ℕ}
    (hattempt : ∀ point, inLoop point = true → attempt call point = true → 0 < gauge call point)
    (hdrop : ∀ p point next, I p → p.frames t = some (call, point) → inLoop point = true →
      (advance p.shared call point).2 = some next → inLoop next = true →
      attempt call point = true ∧ gauge call next < gauge call point)
    {w w' : Watch T σ c pc} {a : Action T c} (hI : I w.pool)
    (h : Watched inLoop gauge t call first w)
    (hstep : WatchedStep entry advance inLoop attempt t w a w') :
    Watched inLoop gauge t call first w' := by
  obtain ⟨hpool, hloop, hsteps, hattempts⟩ := hstep
  obtain ⟨hsame, point, hframe, hgauge⟩ := h.inside hloop
  have hin : inLoop point = true := by
    obtain ⟨call', point', hframe', hin'⟩ := hloop
    rw [hframe] at hframe'
    cases hframe'
    exact hin'
  cases hown : ownStep t a with
  | false =>
    simp only [hown, Bool.false_and, Bool.false_eq_true, if_false, Nat.add_zero] at hsteps hattempts
    refine ⟨by omega, by omega, fun _ => ⟨by omega, point, ?_, by omega⟩⟩
    exact frame_of_other hpool hown hframe
  | true =>
    cases a with
    | start t' call' => cases hown
    | advance t' =>
      obtain rfl : t' = t := of_decide_eq_true hown
      obtain ⟨call', point', hframe', hafter⟩ := hpool
      rw [hframe] at hframe'
      cases hframe'
      have hnow : attempting attempt t' w.pool = attempt call point := by
        simp [attempting, hframe]
      rw [hown, if_pos rfl] at hsteps
      rw [hown, hnow, Bool.true_and] at hattempts
      have hroom : attempt call point = true → 0 < gauge call point := hattempt point hin
      refine ⟨?_, by omega, ?_⟩
      · cases hcas : attempt call point with
        | false =>
          rw [hcas] at hattempts
          simp only [Bool.false_eq_true, if_false] at hattempts
          omega
        | true =>
          have hpos := hroom hcas
          rw [hcas, if_pos rfl] at hattempts
          omega
      · rintro ⟨call', next, hnext, hinside⟩
        rw [hafter] at hnext
        simp only [Function.update_self] at hnext
        obtain ⟨next', hadvance, heq⟩ := Option.map_eq_some_iff.mp hnext
        cases heq
        obtain ⟨hcas, hlower⟩ := hdrop w.pool point next hI hframe hin hadvance hinside
        rw [hcas, if_pos rfl] at hattempts
        refine ⟨by omega, next, ?_, by omega⟩
        rw [hafter]
        simp only [Function.update_self, hadvance, Option.map_some]

/-- From a state in the loop with nothing counted yet, under an invariant of all the steps. -/
theorem watched_run {I : Pool T σ c pc → Prop} {call : c} (point : pc)
    (hkeep : ∀ p a q, I p → PoolStep entry advance p a q → I q)
    (hattempt : ∀ point, inLoop point = true → attempt call point = true → 0 < gauge call point)
    (hdrop : ∀ p point next, I p → p.frames t = some (call, point) → inLoop point = true →
      (advance p.shared call point).2 = some next → inLoop next = true →
      attempt call point = true ∧ gauge call next < gauge call point)
    {p : Pool T σ c pc} (hI : I p) (hframe : p.frames t = some (call, point))
    {w : Watch T σ c pc} {actions : List (Action T c)}
    (hrun : Run (WatchedStep entry advance inLoop attempt t) ⟨p, 0, 0⟩ actions w) :
    Watched inLoop gauge t call (gauge call point) w := by
  suffices h : I w.pool ∧ Watched inLoop gauge t call (gauge call point) w from h.2
  apply hrun.invariant (P := fun _ w => I w.pool ∧ Watched inLoop gauge t call _ w)
  · refine ⟨hI, Nat.zero_le _, Nat.zero_le _, ?_⟩
    intro _
    exact ⟨rfl, point, hframe, Nat.le_refl _⟩
  · intro _ u a v _ ih hstep
    exact ⟨hkeep _ _ _ ih.1 hstep.1, watched_step gauge hattempt hdrop ih.1 ih.2 hstep⟩

end Watched

end AeronFast.RetryLoops
