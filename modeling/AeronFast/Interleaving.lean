import AeronFast.LabelledRuns
import AeronFast.WordArithmetic

/-!
Threads that call a procedure on a shared state, interleaved step by step. A
call advances by atomic steps, each a function of the shared state and the
program point of the call. Three rules give what holds after every run: an
invariant of the calls started and the shared state; an account of a deposit
that each call makes in one of its steps; and a service that each call waits
for until the state has rendered it.
-/
namespace AeronFast.Interleaving

open LabelledRuns WordArithmetic

/-- The shared state and, for each thread, the call it is in and the program point reached. -/
structure Pool (T σ c pc : Type*) where
  shared : σ
  frames : T → Option (c × pc)

inductive Action (T c : Type*)
  | start (t : T) (call : c)
  | advance (t : T)

variable {T σ c pc : Type*}

def callOf : Action T c → Option c
  | .start _ call => some call
  | .advance _ => none

/-- The calls started in a history, oldest first. -/
def callsOf (actions : List (Action T c)) : List c := actions.filterMap callOf

theorem callsOf_start (actions : List (Action T c)) (t : T) (call : c) :
    callsOf (actions ++ [.start t call]) = callsOf actions ++ [call] := by
  simp [callsOf, callOf, List.filterMap_append]

theorem callsOf_advance (actions : List (Action T c)) (t : T) :
    callsOf (actions ++ [.advance t]) = callsOf actions := by
  simp [callsOf, callOf, List.filterMap_append]

/-- No call is in progress. -/
def Quiescent (p : Pool T σ c pc) : Prop := ∀ t, p.frames t = none

def idle (s : σ) : Pool T σ c pc := ⟨s, fun _ => none⟩

section Steps

variable [DecidableEq T] (entry : pc) (advance : σ → c → pc → σ × Option pc)

/-- An idle thread starts a call at the entry point, or a busy one makes its next step. -/
def PoolStep (p : Pool T σ c pc) (a : Action T c) (q : Pool T σ c pc) : Prop :=
  match a with
  | .start t call =>
      p.frames t = none ∧
        q = { p with frames := Function.update p.frames t (some (call, entry)) }
  | .advance t =>
      ∃ call point, p.frames t = some (call, point) ∧
        q = { shared := (advance p.shared call point).1
              frames := Function.update p.frames t
                ((advance p.shared call point).2.map (fun next => (call, next))) }

variable {entry advance}

/-- A preorder that every atomic step respects relates the shared states along a run. -/
theorem shared_rel {R : σ → σ → Prop} (hrefl : ∀ s, R s s)
    (htrans : ∀ a b d, R a b → R b d → R a d)
    (hadvance : ∀ s call point, R s (advance s call point).1)
    {p q : Pool T σ c pc} {actions : List (Action T c)}
    (hrun : Run (PoolStep entry advance) p actions q) : R p.shared q.shared := by
  apply hrun.rel (R := fun a b => R a.shared b.shared)
  · intro a
    exact hrefl a.shared
  · intro a b d hab hbd
    exact htrans _ _ _ hab hbd
  · intro actions u a v _ hstep
    cases a with
    | start t call =>
      obtain ⟨_, rfl⟩ := hstep
      exact hrefl u.shared
    | advance t =>
      obtain ⟨call, point, _, rfl⟩ := hstep
      exact hadvance u.shared call point

/-- One thread has moved on to the next point of its call, or has ended it. -/
structure Moved (p q : Pool T σ c pc) (t : T) (call : c) (s : σ) (next : Option pc) : Prop where
  shared : q.shared = s
  own : q.frames t = next.map (fun point => (call, point))
  others : ∀ t', t' ≠ t → q.frames t' = p.frames t'

theorem moved_of_step {p q : Pool T σ c pc} {t : T} {call : c} {point : pc}
    (hstep : PoolStep entry advance p (.advance t) q) (hframe : p.frames t = some (call, point)) :
    Moved p q t call (advance p.shared call point).1 (advance p.shared call point).2 := by
  obtain ⟨call', point', hframe', rfl⟩ := hstep
  rw [hframe] at hframe'
  cases hframe'
  exact ⟨rfl, Function.update_self _ _ _, fun t' ht => Function.update_of_ne ht _ _⟩

omit [DecidableEq T] in
theorem Moved.cases {p q : Pool T σ c pc} {t t' : T} {call call' : c} {s : σ} {next : Option pc}
    {point : pc} (h : Moved p q t call s next) (hframe : q.frames t' = some (call', point)) :
    (t' = t ∧ call' = call ∧ next = some point) ∨
      t' ≠ t ∧ p.frames t' = some (call', point) := by
  by_cases ht : t' = t
  · subst ht
    rw [h.own] at hframe
    obtain ⟨last, hlast, heq⟩ := Option.map_eq_some_iff.mp hframe
    cases heq
    exact Or.inl ⟨rfl, rfl, hlast⟩
  · rw [h.others t' ht] at hframe
    exact Or.inr ⟨ht, hframe⟩

/-- A thread that is busy after a step got there by its own step or was there before. -/
theorem frame_cases {p q : Pool T σ c pc} {t t' : T} {call : c} {point : pc}
    (hstep : PoolStep entry advance p (.advance t) q) (h : q.frames t' = some (call, point)) :
    (t' = t ∧ ∃ before, p.frames t = some (call, before) ∧
        (advance p.shared call before).2 = some point) ∨
      t' ≠ t ∧ p.frames t' = some (call, point) := by
  obtain ⟨call', before, hframe, _⟩ := id hstep
  rcases (moved_of_step hstep hframe).cases h with ⟨ht, rfl, hnext⟩ | hold
  · exact Or.inl ⟨ht, before, hframe, hnext⟩
  · exact Or.inr hold

/-- After a start a busy thread is the new one at the entry point or was busy before. -/
theorem frame_cases_start {p q : Pool T σ c pc} {t : T} {call : c}
    (hstep : PoolStep entry advance p (.start t call) q) (t' : T) (call' : c) (point : pc)
    (h : q.frames t' = some (call', point)) :
    (t' = t ∧ call' = call ∧ point = entry) ∨ t' ≠ t ∧ p.frames t' = some (call', point) := by
  obtain ⟨_, rfl⟩ := hstep
  by_cases ht : t' = t
  · subst ht
    simp only [Function.update_self] at h
    cases h
    exact Or.inl ⟨rfl, rfl, rfl⟩
  · simp only [Function.update_of_ne ht] at h
    exact Or.inr ⟨ht, h⟩

/-- A start leaves every busy thread alone, and the thread it starts was not busy. -/
theorem frame_of_start {p q : Pool T σ c pc} {t : T} {call : c}
    (hstep : PoolStep entry advance p (.start t call) q) (t' : T) (frame : c × pc)
    (h : p.frames t' = some frame) : t' ≠ t ∧ q.frames t' = some frame := by
  obtain ⟨hidle, rfl⟩ := hstep
  have hne : t' ≠ t := by
    rintro rfl
    rw [hidle] at h
    cases h
  exact ⟨hne, by simpa only [Function.update_of_ne hne] using h⟩

variable {s₀ : σ} {actions : List (Action T c)} {p : Pool T σ c pc}

/-- A call in progress is one of those started. -/
theorem active_started (hrun : Run (PoolStep entry advance) (idle s₀) actions p) :
    ∀ t call point, p.frames t = some (call, point) → call ∈ callsOf actions := by
  apply hrun.invariant (P := fun actions p =>
    ∀ t call point, p.frames t = some (call, point) → call ∈ callsOf actions)
  · intro t call point h
    cases h
  · intro actions u a v _ ih hstep t call point hframe
    cases a with
    | start t' call' =>
      rw [callsOf_start]
      rcases frame_cases_start hstep _ _ _ hframe with ⟨_, rfl, _⟩ | ⟨_, hold⟩
      · exact List.mem_append_right _ (List.mem_singleton_self _)
      · exact List.mem_append_left _ (ih t call point hold)
    | advance t' =>
      rw [callsOf_advance]
      rcases frame_cases hstep hframe with ⟨_, before, hold, _⟩ | ⟨_, hold⟩
      · exact ih t' call before hold
      · exact ih t call point hold

/-- What holds at the entry point, is kept by the steps of the call and is not disturbed by the
steps of others holds of every call in progress. -/
theorem frames_invariant {I : σ → c → pc → Prop} (hentry : ∀ s call, I s call entry)
    (hstable : ∀ s other point call here, I s call here → I (advance s other point).1 call here)
    (hadvance : ∀ s call point next, I s call point → (advance s call point).2 = some next →
      I (advance s call point).1 call next)
    (hrun : Run (PoolStep entry advance) (idle s₀) actions p) :
    ∀ t call point, p.frames t = some (call, point) → I p.shared call point := by
  apply hrun.invariant (P := fun _ p =>
    ∀ t call point, p.frames t = some (call, point) → I p.shared call point)
  · intro t call point h
    cases h
  · intro _ u a v _ ih hstep t call point hframe
    cases a with
    | start t' call' =>
      have hshared : v.shared = u.shared := by
        obtain ⟨_, rfl⟩ := hstep
        rfl
      rw [hshared]
      rcases frame_cases_start hstep _ _ _ hframe with ⟨_, _, rfl⟩ | ⟨_, hold⟩
      · exact hentry _ _
      · exact ih t call point hold
    | advance t' =>
      have hframe' := frame_cases hstep hframe
      obtain ⟨call', point', hbusy, rfl⟩ := hstep
      rcases hframe' with ⟨_, before, hold, hnext⟩ | ⟨_, hold⟩
      · rw [hbusy] at hold
        cases hold
        exact hadvance _ _ _ _ (ih t' call point' hbusy) hnext
      · exact hstable _ _ _ _ _ (ih t call point hold)

/-- The step is one of the given thread's own. -/
def ownStep (t : T) : Action T c → Bool
  | .start _ _ => false
  | .advance t' => t' = t

/-- A busy thread stays where it is while others step. -/
theorem frame_of_other {p q : Pool T σ c pc} {a : Action T c} {t : T} {frame : c × pc}
    (hstep : PoolStep entry advance p a q) (hother : ownStep t a = false)
    (hframe : p.frames t = some frame) : q.frames t = some frame := by
  cases a with
  | start t' call =>
    obtain ⟨hidle, rfl⟩ := hstep
    have hne : t ≠ t' := by
      rintro rfl
      rw [hidle] at hframe
      cases hframe
    simpa only [Function.update_of_ne hne] using hframe
  | advance t' =>
    obtain ⟨call, point, _, rfl⟩ := hstep
    have hne : t ≠ t' := fun h => of_decide_eq_false hother h.symm
    simpa only [Function.update_of_ne hne] using hframe

/-- What starting a call and the atomic steps of started calls keep holds after every run. -/
theorem history_invariant {P : List c → σ → Prop} (hinit : P [] s₀)
    (hstart : ∀ calls call s, P calls s → P (calls ++ [call]) s)
    (hadvance : ∀ calls call point s, call ∈ calls → P calls s →
      P calls (advance s call point).1)
    (hrun : Run (PoolStep entry advance) (idle s₀) actions p) :
    P (callsOf actions) p.shared := by
  apply hrun.invariant (P := fun actions p => P (callsOf actions) p.shared)
  · exact hinit
  · intro actions u a v hprefix ih hstep
    cases a with
    | start t call =>
      obtain ⟨_, rfl⟩ := hstep
      rw [callsOf_start]
      exact hstart _ call _ ih
    | advance t =>
      obtain ⟨call, point, hframe, rfl⟩ := hstep
      rw [callsOf_advance]
      exact hadvance _ call point _ (active_started hprefix t call point hframe) ih

/-- Each started call has been rendered its service or still waits for it, if a rendered service
is never withdrawn and no step of another call disturbs the waiting. -/
theorem service (served : σ → c → Prop) (waiting : σ → c → pc → Prop)
    (hrun : Run (PoolStep entry advance) (idle s₀) actions p)
    (hentry : ∀ s call, waiting s call entry)
    (hkept : ∀ s other point call, served s call → served (advance s other point).1 call)
    (hstable : ∀ s other point call here, waiting s call here →
      waiting (advance s other point).1 call here)
    (hadvance : ∀ s call point, waiting s call point →
      served (advance s call point).1 call ∨
        ∃ next, (advance s call point).2 = some next ∧
          waiting (advance s call point).1 call next) :
    ∀ call ∈ callsOf actions, served p.shared call ∨
      ∃ t point, p.frames t = some (call, point) ∧ waiting p.shared call point := by
  apply hrun.invariant (P := fun actions p => ∀ call ∈ callsOf actions,
    served p.shared call ∨
      ∃ t point, p.frames t = some (call, point) ∧ waiting p.shared call point)
  · intro call hcall
    cases hcall
  · intro actions u a v _ ih hstep call hcall
    cases a with
    | start t' call' =>
      obtain ⟨hidle, rfl⟩ := hstep
      rw [callsOf_start] at hcall
      rcases List.mem_append.mp hcall with hold | hnew
      · rcases ih call hold with hserved | ⟨t, point, hframe, hwait⟩
        · exact Or.inl hserved
        · have hne : t ≠ t' := by
            rintro rfl
            rw [hidle] at hframe
            cases hframe
          refine Or.inr ⟨t, point, ?_, hwait⟩
          simp only [Function.update_of_ne hne]
          exact hframe
      · rw [List.mem_singleton.mp hnew]
        exact Or.inr ⟨t', entry, Function.update_self _ _ _, hentry _ _⟩
    | advance t' =>
      obtain ⟨call', point', hframe', rfl⟩ := hstep
      rw [callsOf_advance] at hcall
      rcases ih call hcall with hserved | ⟨t, point, hframe, hwait⟩
      · exact Or.inl (hkept _ _ _ _ hserved)
      · by_cases ht : t = t'
        · subst ht
          rw [hframe'] at hframe
          cases hframe
          rcases hadvance u.shared call point' hwait with hserved | ⟨next, hnext, hwaits⟩
          · exact Or.inl hserved
          · refine Or.inr ⟨t, next, ?_, hwaits⟩
            simp only [Function.update_self, hnext, Option.map_some]
        · refine Or.inr ⟨t, point, ?_, hstable _ _ _ _ _ hwait⟩
          simp only [Function.update_of_ne ht]
          exact hframe

omit [DecidableEq T] in
/-- In a quiescent state every started call has been served. -/
theorem served_of_quiescent (served : σ → c → Prop) (waiting : σ → c → pc → Prop) {call : c}
    (hquiet : Quiescent p)
    (h : served p.shared call ∨
      ∃ t point, p.frames t = some (call, point) ∧ waiting p.shared call point) :
    served p.shared call := by
  rcases h with hserved | ⟨t, point, hframe, _⟩
  · exact hserved
  · rw [hquiet t] at hframe
    cases hframe

end Steps

section Schedules

variable [DecidableEq T] (entry : pc) (advance : σ → c → pc → σ × Option pc)

/-- The pool after one step, if the thread is free to take it. -/
def stepPool (p : Pool T σ c pc) : Action T c → Option (Pool T σ c pc)
  | .start t call =>
      match p.frames t with
      | none => some { p with frames := Function.update p.frames t (some (call, entry)) }
      | some _ => none
  | .advance t =>
      match p.frames t with
      | none => none
      | some (call, point) =>
          some
            { shared := (advance p.shared call point).1
              frames := Function.update p.frames t
                ((advance p.shared call point).2.map (fun next => (call, next))) }

/-- The pool after a schedule whose steps all pass the test. -/
def execute (ok : Pool T σ c pc → Action T c → Bool) (p : Pool T σ c pc) :
    List (Action T c) → Option (Pool T σ c pc)
  | [] => some p
  | a :: rest =>
      if ok p a then (stepPool entry advance p a).bind (fun q => execute ok q rest) else none

variable {entry advance}

theorem poolStep_of_stepPool {p q : Pool T σ c pc} {a : Action T c}
    (h : stepPool entry advance p a = some q) : PoolStep entry advance p a q := by
  cases a with
  | start t call =>
    simp only [stepPool] at h
    split at h
    · rename_i hidle
      exact ⟨hidle, (Option.some.inj h).symm⟩
    · cases h
  | advance t =>
    simp only [stepPool] at h
    split at h
    · cases h
    · rename_i call point hframe
      exact ⟨call, point, hframe, (Option.some.inj h).symm⟩

/-- A schedule that can be executed is a run. -/
theorem run_of_execute {ok : Pool T σ c pc → Action T c → Bool} {p q : Pool T σ c pc}
    (actions : List (Action T c)) (h : execute entry advance ok p actions = some q) :
    Run (fun p a q => PoolStep entry advance p a q ∧ ok p a = true) p actions q := by
  induction actions generalizing p with
  | nil =>
    obtain rfl := Option.some.inj h
    exact Run.nil p
  | cons a rest ih =>
    simp only [execute] at h
    split at h
    · rename_i hok
      obtain ⟨u, hu, hrest⟩ := Option.bind_eq_some_iff.mp h
      exact Run.append (Run.snoc (Run.nil p) ⟨poolStep_of_stepPool hu, hok⟩) (ih hrest)
    · cases h

theorem exists_run_of_execute (entry : pc) (advance : σ → c → pc → σ × Option pc)
    (ok : Pool T σ c pc → Action T c → Bool) (p : Pool T σ c pc) (actions : List (Action T c))
    (test : Pool T σ c pc → Bool) (h : (execute entry advance ok p actions).any test = true) :
    ∃ q, Run (fun p a q => PoolStep entry advance p a q ∧ ok p a = true) p actions q ∧
      test q = true := by
  cases hq : execute entry advance ok p actions with
  | none =>
    rw [hq] at h
    cases h
  | some q =>
    rw [hq] at h
    exact ⟨q, run_of_execute actions hq, h⟩

end Schedules

section Deposits

variable {M : Type*} [AddCommMonoid M] (due : pc → Bool) (amount : c → M)

/-- What a thread has still to deposit. -/
def outstanding : Option (c × pc) → M
  | none => 0
  | some (call, point) => if due point then amount call else 0

theorem outstanding_next (call : c) (next : Option pc) :
    outstanding due amount (next.map (fun point => (call, point))) =
      if next.any due then amount call else 0 := by
  cases next with
  | none => rfl
  | some point => rfl

theorem sum_outstanding_of_quiescent [Fintype T] (p : Pool T σ c pc) (h : Quiescent p) :
    ∑ t, outstanding due amount (p.frames t) = 0 := by
  apply Finset.sum_eq_zero
  intro t _
  rw [h t]
  rfl

variable [DecidableEq T] [Fintype T] {entry : pc} {advance : σ → c → pc → σ × Option pc}
variable {s₀ : σ} {actions : List (Action T c)} {p : Pool T σ c pc}

theorem sum_outstanding_update (frames : T → Option (c × pc)) (t : T) :
    ∃ rest : M, ∑ u, outstanding due amount (frames u) =
        outstanding due amount (frames t) + rest ∧
      ∀ frame, ∑ u, outstanding due amount (Function.update frames t frame u) =
        outstanding due amount frame + rest := by
  obtain ⟨rest, hsum, hupdate⟩ :=
    sum_update_split (fun u => outstanding due amount (frames u)) t
  refine ⟨rest, hsum, ?_⟩
  intro frame
  rw [← hupdate]
  apply Finset.sum_congr rfl
  intro u _
  exact congrFun (Function.comp_update (outstanding due amount) frames t frame) u

/-- Every call deposits its amount in one step, the one at which the deposit is due and `fires`.
Then the value of the shared state and what is outstanding together are the amounts of the
started calls. A deposit may rely on an invariant `I` of the shared state and on `fits`, which
holds of every part of a total it holds of. -/
theorem deposits (I : σ → Prop) (value : σ → M) (fires : pc → Bool) (fits : M → Prop)
    (hfits : ∀ a b, fits (a + b) → fits a) (hentry : due entry = true)
    (hdue : ∀ point, fires point = true → due point = true)
    (hnext : ∀ s call point, (advance s call point).2.any due = (due point && !fires point))
    (hquiet : ∀ s call point, fires point = false → value (advance s call point).1 = value s)
    (hfire : ∀ s call point, I s → fires point = true → fits (value s + amount call) →
      value (advance s call point).1 = value s + amount call)
    (hinit : I s₀) (hinvariant : ∀ s call point, I s → I (advance s call point).1)
    (hrun : Run (PoolStep entry advance) (idle s₀) actions p)
    (htotal : fits (value s₀ + ((callsOf actions).map amount).sum)) :
    value p.shared + ∑ t, outstanding due amount (p.frames t) =
      value s₀ + ((callsOf actions).map amount).sum := by
  suffices h : I p.shared ∧ (fits (value s₀ + ((callsOf actions).map amount).sum) →
      value p.shared + ∑ t, outstanding due amount (p.frames t) =
        value s₀ + ((callsOf actions).map amount).sum) from h.2 htotal
  apply hrun.invariant (P := fun actions p => I p.shared ∧
    (fits (value s₀ + ((callsOf actions).map amount).sum) →
      value p.shared + ∑ t, outstanding due amount (p.frames t) =
        value s₀ + ((callsOf actions).map amount).sum))
  · refine ⟨hinit, fun _ => ?_⟩
    rw [sum_outstanding_of_quiescent due amount (idle s₀ : Pool T σ c pc) (fun _ => rfl)]
    rfl
  · intro actions u a v _ ih hstep
    obtain ⟨hI, hsum⟩ := ih
    cases a with
    | start t call =>
      obtain ⟨hidle, rfl⟩ := hstep
      refine ⟨hI, ?_⟩
      intro hfit
      obtain ⟨rest, hold, hnew⟩ := sum_outstanding_update due amount u.frames t
      rw [callsOf_start, List.map_append, List.sum_append, ← add_assoc] at hfit ⊢
      rw [← hsum (hfits _ _ hfit), hold, hnew, hidle, outstanding, outstanding, hentry, if_pos rfl,
        List.map_singleton, List.sum_singleton, zero_add, add_assoc, add_comm (amount call)]
    | advance t =>
      obtain ⟨call, point, hframe, rfl⟩ := hstep
      refine ⟨hinvariant _ _ _ hI, ?_⟩
      intro hfit
      rw [callsOf_advance] at hfit ⊢
      obtain ⟨rest, hold, hnew⟩ := sum_outstanding_update due amount u.frames t
      have hbefore := hsum hfit
      rw [hold, hframe, outstanding, ← add_assoc] at hbefore
      rw [← hbefore] at hfit ⊢
      rw [hnew, outstanding_next, hnext, ← add_assoc]
      cases hf : fires point with
      | false =>
        rw [hquiet _ _ _ hf, Bool.not_false, Bool.and_true]
      | true =>
        rw [hdue point hf, if_pos rfl] at hfit ⊢
        rw [hfire _ _ _ hI hf (hfits _ _ hfit), Bool.not_true, Bool.and_false,
          if_neg Bool.false_ne_true, add_zero]

end Deposits

section Solo

variable (advance : σ → c → pc → σ × Option pc)

/-- A call that no other thread disturbs: from one state and program point to its end. -/
inductive Solo (call : c) : σ → pc → σ → Prop
  | last {s s' : σ} {point : pc} : advance s call point = (s', none) → Solo call s point s'
  | step {s s' s'' : σ} {point next : pc} :
      advance s call point = (s', some next) → Solo call s' next s'' → Solo call s point s''

variable {advance} [DecidableEq T] (entry : pc)

theorem solo_frames {call : c} {s s' : σ} {point : pc} (h : Solo advance call s point s') (t : T) :
    ∃ actions : List (Action T c), callsOf actions = [] ∧
      Run (PoolStep entry advance)
        ⟨s, Function.update (fun _ => none) t (some (call, point))⟩ actions (idle s') := by
  induction h with
  | @last s s' point hlast =>
    refine ⟨[] ++ [.advance t], rfl, Run.snoc (Run.nil _) ?_⟩
    refine ⟨call, point, by simp, ?_⟩
    rw [hlast]
    simp [idle, Function.update_idem]
  | @step s s' s'' point next hstep _ ih =>
    obtain ⟨actions, hcalls, hrun⟩ := ih
    refine ⟨([] ++ [.advance t]) ++ actions, by simpa [callsOf, callOf] using hcalls, ?_⟩
    refine Run.append (Run.snoc (Run.nil _) ?_) hrun
    refine ⟨call, point, by simp, ?_⟩
    rw [hstep]
    simp [Function.update_idem]

variable {entry}

/-- An undisturbed call is one of the runs of the pool. -/
theorem solo_run {call : c} {s s' : σ} (h : Solo advance call s entry s') (t : T) :
    ∃ actions : List (Action T c), callsOf actions = [call] ∧
      Run (PoolStep entry advance) (idle s) actions (idle s') := by
  obtain ⟨actions, hcalls, hrun⟩ := solo_frames entry h t
  refine ⟨([] ++ [.start t call]) ++ actions, ?_, ?_⟩
  · simp only [callsOf] at hcalls
    simp [callsOf, callOf, hcalls]
  · exact Run.append (Run.snoc (Run.nil _) ⟨rfl, rfl⟩) hrun

end Solo

end AeronFast.Interleaving
