import AeronFast.LabelledRuns

/-!
Threads that share one mutex. A section is a list of statements that its thread
executes one by one while it holds the mutex; between them the other threads
may execute their unprotected statements. If those cannot tell whether a
statement of the section has been executed, except for one statement at which
the section commits, then the sections happen as a whole, in the order of
their commits. What the statements of a section leave alone anyway changes only
at the unlocks; that bounds a run without any such condition. A section that
has begun can always go on to its end.
-/
namespace AeronFast.LockedSections

open LabelledRuns

/-- `owner` is the thread a section belongs to; `enter` holds while that thread stands at the
section, `leave` moves it on at the unlock. `free` are the unprotected statements. -/
structure Program (σ T E U : Type*) where
  owner : E → T
  enter : E → σ → Bool
  statements : E → List (σ → σ)
  leave : E → σ → σ
  free : T → U → σ → Option σ

/-- The memory, and who holds the mutex: the section and how many of its statements are done. -/
structure Memory (σ E : Type*) where
  shared : σ
  holder : Option (E × ℕ)

inductive Action (T E U : Type*)
  | lock (e : E)
  | statement (e : E) (index : ℕ)
  | unlock (e : E)
  | free (t : T) (u : U)
  deriving DecidableEq, Repr

/-- The steps when every section is indivisible. -/
inductive Whole (T E U : Type*)
  | whole (e : E)
  | free (t : T) (u : U)
  deriving DecidableEq, Repr

variable {σ T E U : Type*}

def execute (statements : List (σ → σ)) (s : σ) : σ := statements.foldl (fun s f => f s) s

@[simp] theorem execute_nil (s : σ) : execute [] s = s := rfl

@[simp] theorem execute_cons (f : σ → σ) (rest : List (σ → σ)) (s : σ) :
    execute (f :: rest) s = execute rest (f s) := rfl

theorem execute_drop {statements : List (σ → σ)} {k : ℕ} {f : σ → σ}
    (hf : statements[k]? = some f) (s : σ) :
    execute (statements.drop k) s = execute (statements.drop (k + 1)) (f s) := by
  obtain ⟨hlt, hget⟩ := List.getElem?_eq_some_iff.mp hf
  rw [List.drop_eq_getElem_cons hlt, execute_cons, hget]

section Steps

variable (P : Program σ T E U)

/-- One statement of one thread. A thread blocks at the lock while the mutex is held, and the
holder executes nothing but its section. -/
def Step (m : Memory σ E) : Action T E U → Memory σ E → Prop
  | .lock e, n => m.holder = none ∧ P.enter e m.shared = true ∧ n = ⟨m.shared, some (e, 0)⟩
  | .statement e k, n => m.holder = some (e, k) ∧
      ∃ f, (P.statements e)[k]? = some f ∧ n = ⟨f m.shared, some (e, k + 1)⟩
  | .unlock e, n =>
      m.holder = some (e, (P.statements e).length) ∧ n = ⟨P.leave e m.shared, none⟩
  | .free t u, n => (∀ e k, m.holder = some (e, k) → P.owner e ≠ t) ∧
      ∃ s, P.free t u m.shared = some s ∧ n = ⟨s, m.holder⟩

/-- The section from its lock to its unlock. -/
def runSection (e : E) (s : σ) : σ := P.leave e (execute (P.statements e) s)

def WholeStep (s : σ) : Whole T E U → σ → Prop
  | .whole e, s' => P.enter e s = true ∧ s' = runSection P e s
  | .free t u, s' => P.free t u s = some s'

/-- The unprotected statements of the other threads cannot tell whether the owner of the section
has executed `f`. -/
def Invisible (e : E) (f : σ → σ) : Prop :=
  ∀ t u s, t ≠ P.owner e → P.enter e s = true → P.free t u (f s) = (P.free t u s).map f

/-- A thread stays at its section until the unlock, and no other thread moves it. -/
structure Stays : Prop where
  stays : ∀ e s, ∀ f ∈ P.statements e, P.enter e s = true → P.enter e (f s) = true
  waits : ∀ e t u s s', t ≠ P.owner e → P.free t u s = some s' → P.enter e s = true →
    P.enter e s' = true

/-- Each section has one statement at which it commits, and the rest of it is invisible. -/
structure Commits (commit : E → ℕ) : Prop extends Stays P where
  inside : ∀ e, commit e < (P.statements e).length
  invisible : ∀ e k f, (P.statements e)[k]? = some f → k ≠ commit e → Invisible P e f
  invisible_leave : ∀ e, Invisible P e (P.leave e)

/-- The holder of the mutex is inside its section. -/
def Held (m : Memory σ E) : Prop :=
  ∀ e k, m.holder = some (e, k) → k ≤ (P.statements e).length ∧ P.enter e m.shared = true

/-- What is left of an indivisible step without the statements of its section. -/
def Released (s : σ) : Whole T E U → σ → Prop
  | .whole e, s' => P.enter e s = true ∧ s' = P.leave e s
  | .free t u, s' => P.free t u s = some s'

end Steps

/-- A guarded statement that neither its guard nor its effect tells from `f`. -/
theorem guarded_map {f : σ → σ} {c d : Prop} [Decidable c] [Decidable d] {s s' : σ} (hc : c ↔ d)
    (hs : s = f s') : (if c then some s else none) = (if d then some s' else none).map f := by
  by_cases hd : d
  · rw [if_pos (hc.mpr hd), if_pos hd, hs]
    rfl
  · rw [if_neg (mt hc.mp hd), if_neg hd]
    rfl

variable {P : Program σ T E U} {commit : E → ℕ}

section Reduction

/-- The indivisible step that takes place with a given statement. -/
def committed (commit : E → ℕ) : Action T E U → Option (Whole T E U)
  | .lock _ => none
  | .statement e k => if k = commit e then some (.whole e) else none
  | .unlock _ => none
  | .free t u => some (.free t u)

def commits (commit : E → ℕ) (actions : List (Action T E U)) : List (Whole T E U) :=
  actions.filterMap (committed commit)

theorem commits_snoc (commit : E → ℕ) (actions : List (Action T E U)) (a : Action T E U) :
    commits commit (actions ++ [a]) = commits commit actions ++ (committed commit a).toList := by
  rw [commits, List.filterMap_append, commits]
  cases h : committed commit a with
  | none => simp [h]
  | some w => simp [h]

theorem commits_append (commit : E → ℕ) (left right : List (Action T E U)) :
    commits commit (left ++ right) = commits commit left ++ commits commit right := by
  rw [commits, List.filterMap_append, commits, commits]

end Reduction

section Releases

theorem held_free (s : σ) : Held P ⟨s, none⟩ := by
  intro e k hholder
  cases hholder

theorem held_step (h : Stays P) {m n : Memory σ E} {a : Action T E U} (hheld : Held P m)
    (hstep : Step P m a n) : Held P n := by
  cases a with
  | lock e =>
    obtain ⟨_, henter, rfl⟩ := hstep
    intro e' k hholder
    cases hholder
    exact ⟨Nat.zero_le _, henter⟩
  | statement e k =>
    obtain ⟨hholder, f, hf, rfl⟩ := hstep
    intro e' k' hholder'
    cases hholder'
    have hlt : k < (P.statements e).length := (List.getElem?_eq_some_iff.mp hf).1
    exact ⟨hlt, h.stays e m.shared f (List.mem_of_getElem? hf) (hheld e k hholder).2⟩
  | unlock e =>
    obtain ⟨_, rfl⟩ := hstep
    exact held_free _
  | free t u =>
    obtain ⟨hother, s, hfree, rfl⟩ := hstep
    intro e k hholder
    obtain ⟨hlen, henter⟩ := hheld e k hholder
    exact ⟨hlen, h.waits e t u _ _ (fun heq => hother e k hholder heq.symm) hfree henter⟩

/-- The indivisible step that is over with a given statement: a section with its unlock. -/
def released : Action T E U → Option (Whole T E U)
  | .lock _ => none
  | .statement _ _ => none
  | .unlock e => some (.whole e)
  | .free t u => some (.free t u)

def releases (actions : List (Action T E U)) : List (Whole T E U) := actions.filterMap released

theorem releases_snoc (actions : List (Action T E U)) (a : Action T E U) :
    releases (actions ++ [a]) = releases actions ++ (released a).toList := by
  rw [releases, List.filterMap_append, releases]
  cases h : released a with
  | none => simp [h]
  | some w => simp [h]

/-- A property that the statements of the sections keep is a matter of the releases. -/
theorem release_invariant (h : Stays P) {J : List (Whole T E U) → σ → Prop} {m₀ m : Memory σ E}
    {actions : List (Action T E U)} (hheld : Held P m₀) (hinit : J [] m₀.shared)
    (hstatement : ∀ labels e, ∀ f ∈ P.statements e, ∀ s, J labels s → J labels (f s))
    (hreleased : ∀ labels s w s', J labels s → Released P s w s' → J (labels ++ [w]) s')
    (hrun : Run (Step P) m₀ actions m) : J (releases actions) m.shared ∧ Held P m := by
  refine hrun.invariant (P := fun actions m => J (releases actions) m.shared ∧ Held P m) ?_ ?_
  · exact ⟨hinit, hheld⟩
  · rintro actions m a n _ ⟨hJ, hheld⟩ hstep
    refine ⟨?_, held_step h hheld hstep⟩
    rw [releases_snoc]
    cases a with
    | lock e =>
      obtain ⟨_, _, rfl⟩ := hstep
      simpa [released] using hJ
    | statement e k =>
      obtain ⟨_, f, hf, rfl⟩ := hstep
      simpa [released] using hstatement _ e f (List.mem_of_getElem? hf) _ hJ
    | unlock e =>
      obtain ⟨hholder, rfl⟩ := hstep
      exact hreleased _ _ _ _ hJ ⟨(hheld e _ hholder).2, rfl⟩
    | free t u =>
      obtain ⟨_, s, hfree, rfl⟩ := hstep
      exact hreleased _ _ _ _ hJ hfree

/-- No run blocks in a memory in which a thread may lock the mutex or go on without it. -/
theorem exists_step {m : Memory σ E} (ok : Whole T E U → Prop) (hheld : Held P m)
    (hreleased : m.holder = none → ∃ w s, Released P m.shared w s ∧ ok w) :
    ∃ a n, Step P m a n ∧ ∀ t u, a = .free t u → ok (.free t u) := by
  cases hholder : m.holder with
  | some held =>
    obtain ⟨e, k⟩ := held
    obtain ⟨hlen, _⟩ := hheld e k hholder
    rcases Nat.lt_or_ge k (P.statements e).length with hlt | hge
    · exact ⟨.statement e k, _, ⟨hholder, _, List.getElem?_eq_getElem hlt, rfl⟩, by simp⟩
    · obtain rfl : k = (P.statements e).length := Nat.le_antisymm hlen hge
      exact ⟨.unlock e, _, ⟨hholder, rfl⟩, by simp⟩
  | none =>
    obtain ⟨w, s, hstep, hok⟩ := hreleased hholder
    cases w with
    | whole e => exact ⟨.lock e, _, ⟨hholder, hstep.1, rfl⟩, by simp⟩
    | free t u =>
      refine ⟨.free t u, _, ⟨?_, s, hstep, rfl⟩, ?_⟩
      · intro e k hk
        rw [hholder] at hk
        cases hk
      · rintro _ _ ⟨⟩
        exact hok

/-- The actions of the section that is not over. -/
def begun : Option (E × ℕ) → ℕ
  | none => 0
  | some (_, k) => k + 1

theorem begun_le {width : ℕ} (hwidth : ∀ e, (P.statements e).length + 2 ≤ width)
    {m : Memory σ E} (hheld : Held P m) : begun m.holder ≤ width - 1 := by
  cases hholder : m.holder with
  | none => exact Nat.zero_le _
  | some held =>
    have hlen := (hheld held.1 held.2 hholder).1
    have hw := hwidth held.1
    simp only [begun]
    omega

/-- The actions that count: the statements of the sections, and the unprotected ones that pass. -/
def counts (ok : Whole T E U → Bool) : Action T E U → Bool
  | .free t u => ok (.free t u)
  | _ => true

/-- A run has at most as many actions as the sections and unprotected statements that are over
need, with what has begun of one more. -/
theorem counts_le (ok : Whole T E U → Bool) (hok : ∀ e, ok (.whole e) = true) {width : ℕ}
    (hpos : 0 < width) (hwidth : ∀ e, (P.statements e).length + 2 ≤ width) {m₀ m : Memory σ E}
    {actions : List (Action T E U)} (hrun : Run (Step P) m₀ actions m) :
    actions.countP (counts ok) + begun m₀.holder ≤
      width * (releases actions).countP ok + begun m.holder := by
  refine hrun.invariant (P := fun actions m => actions.countP (counts ok) + begun m₀.holder ≤
    width * (releases actions).countP ok + begun m.holder) ?_ ?_
  · simp [releases]
  · intro actions m a n _ ih hstep
    rw [releases_snoc, List.countP_append, List.countP_append, Nat.mul_add, List.countP_singleton]
    cases a with
    | lock e =>
      obtain ⟨hnone, _, rfl⟩ := hstep
      simp only [hnone, begun] at ih
      simp only [released, Option.toList_none, List.countP_nil, begun, counts, if_true]
      omega
    | statement e k =>
      obtain ⟨hholder, f, hf, rfl⟩ := hstep
      simp only [hholder, begun] at ih
      simp only [released, Option.toList_none, List.countP_nil, begun, counts, if_true]
      omega
    | unlock e =>
      obtain ⟨hholder, rfl⟩ := hstep
      have hw := hwidth e
      simp only [hholder, begun] at ih
      simp only [released, Option.toList_some, List.countP_singleton, hok, begun, counts, if_true]
      omega
    | free t u =>
      obtain ⟨_, s, _, rfl⟩ := hstep
      have hcounts : counts ok (.free t u : Action T E U) = ok (.free t u) := rfl
      simp only [released, Option.toList_some, List.countP_singleton, hcounts]
      cases ok (.free t u) with
      | false =>
        simp only [Bool.false_eq_true, if_false]
        omega
      | true =>
        simp only [if_true]
        omega

/-- A section that passes, has committed and is not over. -/
def underway (commit : E → ℕ) (ok : Whole T E U → Bool) : Option (E × ℕ) → ℕ
  | none => 0
  | some (e, k) => if ok (.whole e) = true ∧ commit e < k then 1 else 0

/-- Every section that commits is over at last, or still under way. -/
theorem commits_releases (hinside : ∀ e, commit e < (P.statements e).length)
    (ok : Whole T E U → Bool) {m₀ m : Memory σ E} {actions : List (Action T E U)}
    (hrun : Run (Step P) m₀ actions m) :
    (commits commit actions).countP ok + underway commit ok m₀.holder =
      (releases actions).countP ok + underway commit ok m.holder := by
  refine hrun.invariant (P := fun actions m =>
    (commits commit actions).countP ok + underway commit ok m₀.holder =
      (releases actions).countP ok + underway commit ok m.holder) ?_ ?_
  · simp [commits, releases]
  · intro actions m a n _ ih hstep
    rw [commits_snoc, releases_snoc, List.countP_append, List.countP_append]
    cases a with
    | lock e =>
      obtain ⟨hnone, _, rfl⟩ := hstep
      rw [hnone] at ih
      simpa [committed, released, underway] using ih
    | statement e k =>
      obtain ⟨hholder, f, _, rfl⟩ := hstep
      rw [hholder] at ih
      simp only [underway] at ih ⊢
      by_cases hk : k = commit e
      · have hnot : ¬commit e < k := by omega
        have hnext : commit e < k + 1 := by omega
        simp only [hnot, and_false, if_false] at ih
        simp only [committed, if_pos hk, released, Option.toList_some, Option.toList_none,
          List.countP_singleton, List.countP_nil, hnext, and_true]
        omega
      · have hsame : commit e < k + 1 ↔ commit e < k := by omega
        simp only [committed, if_neg hk, released, Option.toList_none, List.countP_nil, hsame]
        omega
    | unlock e =>
      obtain ⟨hholder, rfl⟩ := hstep
      rw [hholder] at ih
      simp only [underway, hinside e, and_true] at ih
      simp only [committed, released, Option.toList_some, Option.toList_none,
        List.countP_singleton, List.countP_nil, underway]
      omega
    | free t u =>
      obtain ⟨_, s, _, rfl⟩ := hstep
      simp only [committed, released, Option.toList_some, List.countP_singleton]
      omega

end Releases

section Schedules

/-- A section that nobody disturbs, from the statement with the given index on. -/
theorem exists_run_of_rest (h : Commits P commit) (e : E) (rest k : ℕ) (s : σ)
    (hk : k + rest = (P.statements e).length) :
    ∃ actions, commits commit actions = (if k ≤ commit e then [.whole e] else []) ∧
      Run (Step P) ⟨s, some (e, k)⟩ actions
        ⟨P.leave e (execute ((P.statements e).drop k) s), none⟩ := by
  induction rest generalizing k s with
  | zero =>
    have hinside := h.inside e
    obtain rfl : k = (P.statements e).length := hk
    refine ⟨[] ++ [.unlock e], ?_, Run.snoc (Run.nil _) ?_⟩
    · rw [if_neg (by omega)]
      rfl
    · rw [List.drop_length, execute_nil]
      exact ⟨rfl, rfl⟩
  | succ rest ih =>
    have hlt : k < (P.statements e).length := by omega
    have hf := List.getElem?_eq_getElem hlt
    obtain ⟨actions, hcommits, hrun⟩ := ih (k + 1) ((P.statements e)[k] s) (by omega)
    refine ⟨([] ++ [.statement e k]) ++ actions, ?_, ?_⟩
    · rw [commits_append, commits_snoc, hcommits]
      rcases Nat.lt_trichotomy k (commit e) with hlow | heq | hhigh
      · have hne : ¬k = commit e := by omega
        rw [committed, if_neg hne, if_pos (by omega), if_pos (by omega)]
        rfl
      · rw [committed, if_pos heq, if_neg (by omega), if_pos (by omega)]
        rfl
      · have hne : ¬k = commit e := by omega
        rw [committed, if_neg hne, if_neg (by omega), if_neg (by omega)]
        rfl
    · rw [execute_drop hf]
      exact Run.append (Run.snoc (Run.nil _) ⟨rfl, _, hf, rfl⟩) hrun

/-- A run of indivisible sections is one in which nobody disturbs a section. -/
theorem exists_run_of_whole (h : Commits P commit) {s₀ s : σ} {labels : List (Whole T E U)}
    (hrun : Run (WholeStep P) s₀ labels s) :
    ∃ actions, commits commit actions = labels ∧ Run (Step P) ⟨s₀, none⟩ actions ⟨s, none⟩ := by
  induction hrun with
  | nil => exact ⟨[], rfl, Run.nil _⟩
  | @snoc r s labels w _ hlast ih =>
    obtain ⟨actions, hcommits, hactions⟩ := ih
    cases w with
    | whole e =>
      obtain ⟨henter, rfl⟩ := hlast
      obtain ⟨rest, hrest, hsection⟩ :=
        exists_run_of_rest h e (P.statements e).length 0 r (Nat.zero_add _)
      refine ⟨(actions ++ [.lock e]) ++ rest, ?_, ?_⟩
      · rw [commits_append, commits_snoc, hcommits, hrest]
        simp [committed]
      · exact Run.append (Run.snoc hactions ⟨rfl, henter, rfl⟩) hsection
    | free t u =>
      have hstep : Step P ⟨r, none⟩ (.free t u) ⟨s, none⟩ := by
        refine ⟨?_, s, hlast, rfl⟩
        intro e k hk
        cases hk
      refine ⟨actions ++ [.free t u], ?_, Run.snoc hactions hstep⟩
      rw [commits_snoc, hcommits]
      rfl

section Execution

variable [DecidableEq T] [DecidableEq E]

/-- The memory after an action, if the mutex and the thread allow it. -/
def next (P : Program σ T E U) (m : Memory σ E) : Action T E U → Option (Memory σ E)
  | .lock e =>
      if m.holder = none ∧ P.enter e m.shared = true then some ⟨m.shared, some (e, 0)⟩ else none
  | .statement e k =>
      if m.holder = some (e, k) then
        ((P.statements e)[k]?).map (fun f => ⟨f m.shared, some (e, k + 1)⟩)
      else none
  | .unlock e =>
      if m.holder = some (e, (P.statements e).length) then some ⟨P.leave e m.shared, none⟩
      else none
  | .free t u =>
      if m.holder.all (fun held => P.owner held.1 ≠ t) then
        (P.free t u m.shared).map (fun s => ⟨s, m.holder⟩)
      else none

theorem step_of_next {m n : Memory σ E} {a : Action T E U} (h : next P m a = some n) :
    Step P m a n := by
  cases a with
  | lock e =>
    obtain ⟨⟨hnone, henter⟩, hn⟩ := Option.ite_none_right_eq_some.mp h
    exact ⟨hnone, henter, (Option.some.inj hn).symm⟩
  | statement e k =>
    obtain ⟨hholder, hn⟩ := Option.ite_none_right_eq_some.mp h
    obtain ⟨f, hf, hn⟩ := Option.map_eq_some_iff.mp hn
    exact ⟨hholder, f, hf, hn.symm⟩
  | unlock e =>
    obtain ⟨hholder, hn⟩ := Option.ite_none_right_eq_some.mp h
    exact ⟨hholder, (Option.some.inj hn).symm⟩
  | free t u =>
    obtain ⟨hother, hn⟩ := Option.ite_none_right_eq_some.mp h
    obtain ⟨s, hs, hn⟩ := Option.map_eq_some_iff.mp hn
    refine ⟨?_, s, hs, hn.symm⟩
    intro e k hholder
    rw [hholder] at hother
    exact of_decide_eq_true hother

/-- Executing the actions gives a run, with a condition that holds of all of them anywhere. -/
theorem run_of_next {K : Memory σ E → Action T E U → Prop} (m₀ : Memory σ E)
    {m : Memory σ E} (actions : List (Action T E U)) (hK : ∀ n, ∀ a ∈ actions, K n a)
    (h : actions.foldlM (next P) m₀ = some m) :
    Run (fun m a n => Step P m a n ∧ K m a) m₀ actions m := by
  induction actions using List.reverseRecOn generalizing m with
  | nil =>
    cases h
    exact Run.nil _
  | append_singleton actions a ih =>
    rw [List.foldlM_append] at h
    obtain ⟨n, hn, hlast⟩ := Option.bind_eq_some_iff.mp h
    have hbefore := ih (fun n b hb => hK n b (List.mem_append_left _ hb)) hn
    have hstep : next P n a = some m := by simpa using hlast
    exact hbefore.snoc ⟨step_of_next hstep, hK n a (by simp)⟩

end Execution

/-- The indivisible step, if its thread is at the place for it. -/
def nextWhole (P : Program σ T E U) (s : σ) : Whole T E U → Option σ
  | .whole e => if P.enter e s then some (runSection P e s) else none
  | .free t u => P.free t u s

theorem run_of_nextWhole {s₀ s : σ} {labels : List (Whole T E U)}
    (h : labels.foldlM (nextWhole P) s₀ = some s) : Run (WholeStep P) s₀ labels s := by
  refine (Run.of_foldlM h).mono ?_
  intro a w b hnext
  cases w with
  | whole e =>
    obtain ⟨henter, hb⟩ := Option.ite_none_right_eq_some.mp hnext
    exact ⟨henter, (Option.some.inj hb).symm⟩
  | free t u => exact hnext

end Schedules

end AeronFast.LockedSections
