import Mathlib.Data.List.Induction
import Mathlib.Data.Nat.Init

/-!
Finite runs of a labelled transition relation, and while loops whose every
iteration consumes one element of an input stream. A run keeps the list of
its labels, oldest first, so that an invariant can speak about the history.
The fuelled interpreter of a loop agrees with the runs of its step relation,
and a measure that drops in every iteration bounds the number of iterations.
-/
namespace AeronFast.LabelledRuns

variable {σ ι : Type*}

inductive Run (step : σ → ι → σ → Prop) : σ → List ι → σ → Prop
  | nil (s : σ) : Run step s [] s
  | snoc {s t u : σ} {labels : List ι} {i : ι} :
      Run step s labels t → step t i u → Run step s (labels ++ [i]) u

namespace Run

variable {step : σ → ι → σ → Prop} {s t u : σ}

theorem snoc_inv {labels : List ι} {i : ι} (h : Run step s (labels ++ [i]) u) :
    ∃ t, Run step s labels t ∧ step t i u := by
  generalize hl : labels ++ [i] = all at h
  cases h with
  | nil => simp at hl
  | snoc hrun hstep =>
    obtain ⟨rfl, hi⟩ := List.append_inj' hl rfl
    cases hi
    exact ⟨_, hrun, hstep⟩

/-- A property of the history and the state that every step keeps holds after every run. -/
theorem invariant {P : List ι → σ → Prop} (hinit : P [] s)
    (hstep : ∀ labels t i u, Run step s labels t → P labels t → step t i u →
      P (labels ++ [i]) u)
    {labels : List ι} (h : Run step s labels u) : P labels u := by
  induction h with
  | nil => exact hinit
  | snoc hrun hlast ih => exact hstep _ _ _ _ hrun ih hlast

theorem append {left right : List ι} (hl : Run step s left t) (hr : Run step t right u) :
    Run step s (left ++ right) u := by
  induction hr with
  | nil => simpa using hl
  | snoc _ hlast ih =>
    rw [← List.append_assoc]
    exact Run.snoc ih hlast

theorem split {left right : List ι} (h : Run step s (left ++ right) u) :
    ∃ t, Run step s left t ∧ Run step t right u := by
  induction right using List.reverseRecOn generalizing u with
  | nil => exact ⟨u, by simpa using h, Run.nil u⟩
  | append_singleton right i ih =>
    rw [← List.append_assoc] at h
    obtain ⟨v, hv, hlast⟩ := snoc_inv h
    obtain ⟨t, ht, htv⟩ := ih hv
    exact ⟨t, ht, Run.snoc htv hlast⟩

theorem mono {step' : σ → ι → σ → Prop} (himp : ∀ a i b, step a i b → step' a i b)
    {labels : List ι} (h : Run step s labels u) : Run step' s labels u := by
  induction h with
  | nil => exact Run.nil _
  | snoc _ hlast ih => exact Run.snoc ih (himp _ _ _ hlast)

/-- A run is mapped label by label when every step of it is. -/
theorem map {τ κ : Type*} {step' : τ → κ → τ → Prop} (f : σ → τ) (g : ι → κ)
    (himp : ∀ a i b, step a i b → step' (f a) (g i) (f b)) {labels : List ι}
    (h : Run step s labels u) : Run step' (f s) (labels.map g) (f u) := by
  induction h with
  | nil => exact Run.nil _
  | snoc _ hlast ih =>
    rw [List.map_append]
    exact Run.snoc ih (himp _ _ _ hlast)

theorem nil_inv (h : Run step s [] u) : u = s := by
  generalize hl : ([] : List ι) = all at h
  cases h with
  | nil => rfl
  | snoc _ _ => simp at hl

/-- Steps that are functions of the state and the label have one run along given labels. -/
theorem unique (hstep : ∀ a i b b', step a i b → step a i b' → b = b') {labels : List ι}
    (ht : Run step s labels t) (hu : Run step s labels u) : t = u := by
  induction ht generalizing u with
  | nil => exact (nil_inv hu).symm
  | snoc _ hlast ih =>
    obtain ⟨v, hv, hlast'⟩ := snoc_inv hu
    rw [← ih hv] at hlast'
    exact hstep _ _ _ _ hlast hlast'

/-- Executing a partial step function label by label gives a run of its graph. -/
theorem of_foldlM {f : σ → ι → Option σ} {labels : List ι}
    (h : labels.foldlM f s = some u) : Run (fun a i b => f a i = some b) s labels u := by
  induction labels using List.reverseRecOn generalizing u with
  | nil =>
    cases h
    exact Run.nil s
  | append_singleton labels i ih =>
    rw [List.foldlM_append] at h
    obtain ⟨v, hv, hlast⟩ := Option.bind_eq_some_iff.mp h
    exact Run.snoc (ih hv) (by simpa using hlast)

/-- A preorder that every step respects relates the two ends of every run. -/
theorem rel {R : σ → σ → Prop} (hrefl : ∀ a, R a a) (htrans : ∀ a b c, R a b → R b c → R a c)
    (hstep : ∀ labels t i u, Run step s labels t → step t i u → R t u)
    {labels : List ι} (h : Run step s labels u) : R s u :=
  h.invariant (P := fun _ v => R s v) (hrefl s)
    (fun labels t i v hrun ih hlast => htrans _ _ _ ih (hstep labels t i v hrun hlast))

end Run

theorem countP_snoc_pos {f : ι → Bool} (labels : List ι) {i : ι} (h : f i = true) :
    (labels ++ [i]).countP f = labels.countP f + 1 := by
  simp [List.countP_append, h]

theorem countP_snoc_neg {f : ι → Bool} (labels : List ι) {i : ι} (h : f i = false) :
    (labels ++ [i]).countP f = labels.countP f := by
  simp [List.countP_append, h]

section Loops

variable (guard : σ → Bool) (body : ι → σ → σ)

/-- One iteration: the loop test holds and the body consumes the label. -/
def LoopStep (s : σ) (i : ι) (t : σ) : Prop :=
  guard s = true ∧ t = body i s

/-- Iterate with the inputs of the stream from index `i` on. The result is the
number of inputs consumed and the state in which the loop test failed. -/
def whileLoop (env : ℕ → ι) : ℕ → ℕ → σ → Option (ℕ × σ)
  | 0, i, s => if guard s then none else some (i, s)
  | fuel + 1, i, s =>
      if guard s then whileLoop env fuel (i + 1) (body (env i) s) else some (i, s)

def streamPrefix (env : ℕ → ι) (k : ℕ) : List ι := (List.range k).map env

@[simp] theorem streamPrefix_zero (env : ℕ → ι) : streamPrefix env 0 = [] := rfl

theorem streamPrefix_succ (env : ℕ → ι) (k : ℕ) :
    streamPrefix env (k + 1) = streamPrefix env k ++ [env k] := by
  simp [streamPrefix, List.range_succ]

theorem mem_streamPrefix {env : ℕ → ι} {k : ℕ} {i : ι} :
    i ∈ streamPrefix env k ↔ ∃ j, j < k ∧ env j = i := by
  simp [streamPrefix]

theorem streamPrefix_extends (env : ℕ → ι) {i j : ℕ} (h : i ≤ j) :
    ∃ rest, streamPrefix env j = streamPrefix env i ++ rest := by
  obtain ⟨d, rfl⟩ := Nat.exists_eq_add_of_le h
  refine ⟨((List.range d).map (i + ·)).map env, ?_⟩
  rw [streamPrefix, List.range_add, List.map_append]
  rfl

theorem countP_streamPrefix_mono (f : ι → Bool) (env : ℕ → ι) {i j : ℕ} (h : i ≤ j) :
    (streamPrefix env i).countP f ≤ (streamPrefix env j).countP f := by
  obtain ⟨rest, hrest⟩ := streamPrefix_extends env h
  rw [hrest, List.countP_append]
  exact Nat.le_add_right _ _

theorem exists_shorter_run {step : σ → ι → σ → Prop} {env : ℕ → ι} {s u : σ} {i j : ℕ}
    (hij : i ≤ j) (h : Run step s (streamPrefix env j) u) :
    ∃ t, Run step s (streamPrefix env i) t := by
  obtain ⟨rest, hrest⟩ := streamPrefix_extends env hij
  rw [hrest] at h
  obtain ⟨t, ht, _⟩ := Run.split h
  exact ⟨t, ht⟩

variable {guard body}

/-- The body is a function, so the consumed inputs determine the state. -/
theorem loop_run_eq_foldl {s t : σ} {labels : List ι} (h : Run (LoopStep guard body) s labels t) :
    t = labels.foldl (fun q i => body i q) s := by
  induction h with
  | nil => rfl
  | snoc _ hlast ih =>
    rw [List.foldl_append, ← ih]
    exact hlast.2

theorem loop_run_unique {s t u : σ} {labels : List ι}
    (ht : Run (LoopStep guard body) s labels t) (hu : Run (LoopStep guard body) s labels u) :
    t = u := (loop_run_eq_foldl ht).trans (loop_run_eq_foldl hu).symm

/-- Before its last input a run of the loop was in a state that passed the loop test. -/
theorem guard_of_longer_run {env : ℕ → ι} {s t u : σ} {i j : ℕ} (hij : i < j)
    (ht : Run (LoopStep guard body) s (streamPrefix env i) t)
    (hu : Run (LoopStep guard body) s (streamPrefix env j) u) : guard t = true := by
  induction j generalizing u with
  | zero => omega
  | succ j ih =>
    rw [streamPrefix_succ] at hu
    obtain ⟨v, hv, hstep⟩ := Run.snoc_inv hu
    by_cases hlt : i < j
    · exact ih hlt hv
    · obtain rfl : i = j := by omega
      rw [loop_run_unique ht hv]
      exact hstep.1

/-- A halted state stays the last one: no run along the same stream is longer. -/
theorem eq_of_halted {env : ℕ → ι} {s t u : σ} {i j : ℕ} (hij : i ≤ j)
    (ht : Run (LoopStep guard body) s (streamPrefix env i) t) (hhalt : guard t = false)
    (hu : Run (LoopStep guard body) s (streamPrefix env j) u) : j = i ∧ u = t := by
  have hji : j = i := by
    by_contra hne
    have hguard := guard_of_longer_run (by omega) ht hu
    simp [hhalt] at hguard
  subst hji
  exact ⟨rfl, loop_run_unique hu ht⟩

/-- Along a stream the loop either takes a given number of turns or halts before. -/
theorem exists_run_or_halt (guard : σ → Bool) (body : ι → σ → σ) (env : ℕ → ι) (s : σ) (k : ℕ) :
    (∃ t, Run (LoopStep guard body) s (streamPrefix env k) t) ∨
      ∃ j t, j < k ∧ Run (LoopStep guard body) s (streamPrefix env j) t ∧ guard t = false := by
  induction k with
  | zero => exact Or.inl ⟨s, Run.nil s⟩
  | succ k ih =>
    rcases ih with ⟨t, ht⟩ | ⟨j, t, hj, ht, hhalt⟩
    · cases hg : guard t with
      | false => exact Or.inr ⟨k, t, by omega, ht, hg⟩
      | true =>
        refine Or.inl ⟨body (env k) t, ?_⟩
        rw [streamPrefix_succ]
        exact Run.snoc ht ⟨hg, rfl⟩
    · exact Or.inr ⟨j, t, by omega, ht, hhalt⟩

/-- From a state reached with the first `i` inputs, the interpreter returns exactly the
halted runs that consume at most `fuel` further inputs. -/
theorem whileLoop_eq_some_iff (guard : σ → Bool) (body : ι → σ → σ) (env : ℕ → ι) {s₀ t : σ}
    {j : ℕ} (fuel i : ℕ) (s : σ)
    (hs : Run (LoopStep guard body) s₀ (streamPrefix env i) s) :
    whileLoop guard body env fuel i s = some (j, t) ↔
      i ≤ j ∧ j ≤ i + fuel ∧ Run (LoopStep guard body) s₀ (streamPrefix env j) t ∧
        guard t = false := by
  induction fuel generalizing i s with
  | zero =>
    cases hg : guard s with
    | true =>
      simp only [whileLoop, hg, if_true, reduceCtorEq, Nat.add_zero, false_iff]
      rintro ⟨hij, hji, hrun, hhalt⟩
      obtain rfl : i = j := by omega
      simp [loop_run_unique hrun hs, hg] at hhalt
    | false =>
      simp only [whileLoop, hg, Bool.false_eq_true, if_false, Option.some.injEq, Prod.mk.injEq]
      constructor
      · rintro ⟨rfl, rfl⟩
        exact ⟨Nat.le_refl _, Nat.le_refl _, hs, hg⟩
      · rintro ⟨hij, _, hrun, _⟩
        obtain ⟨rfl, rfl⟩ := eq_of_halted hij hs hg hrun
        exact ⟨rfl, rfl⟩
  | succ fuel ih =>
    cases hg : guard s with
    | true =>
      have hnext : Run (LoopStep guard body) s₀ (streamPrefix env (i + 1)) (body (env i) s) := by
        rw [streamPrefix_succ]
        exact Run.snoc hs ⟨hg, rfl⟩
      simp only [whileLoop, hg, if_true]
      refine (ih (i + 1) _ hnext).trans ?_
      constructor
      · rintro ⟨hij, hji, hrun, hhalt⟩
        exact ⟨by omega, by omega, hrun, hhalt⟩
      · rintro ⟨hij, hji, hrun, hhalt⟩
        have hne : i ≠ j := by
          rintro rfl
          simp [loop_run_unique hrun hs, hg] at hhalt
        exact ⟨by omega, by omega, hrun, hhalt⟩
    | false =>
      simp only [whileLoop, hg, Bool.false_eq_true, if_false, Option.some.injEq, Prod.mk.injEq]
      constructor
      · rintro ⟨rfl, rfl⟩
        exact ⟨Nat.le_refl _, by omega, hs, hg⟩
      · rintro ⟨hij, _, hrun, _⟩
        obtain ⟨rfl, rfl⟩ := eq_of_halted hij hs hg hrun
        exact ⟨rfl, rfl⟩

/-- A measure that drops in every iteration of the actual run bounds the run. -/
theorem exists_halt (guard : σ → Bool) (body : ι → σ → σ) (env : ℕ → ι) {s : σ} (μ : σ → ℕ)
    (hdec : ∀ k t, Run (LoopStep guard body) s (streamPrefix env k) t → guard t = true →
      μ (body (env k) t) < μ t) :
    ∃ k t, k ≤ μ s ∧ Run (LoopStep guard body) s (streamPrefix env k) t ∧ guard t = false := by
  have aux : ∀ m k t, Run (LoopStep guard body) s (streamPrefix env k) t → μ t = m →
      ∃ j u, j ≤ k + m ∧ Run (LoopStep guard body) s (streamPrefix env j) u ∧
        guard u = false := by
    intro m
    induction m using Nat.strong_induction_on with
    | h m ih =>
      intro k t hrun hm
      cases hg : guard t with
      | false => exact ⟨k, t, by omega, hrun, hg⟩
      | true =>
        have hlt := hdec k t hrun hg
        have hnext : Run (LoopStep guard body) s (streamPrefix env (k + 1)) (body (env k) t) := by
          rw [streamPrefix_succ]
          exact Run.snoc hrun ⟨hg, rfl⟩
        obtain ⟨j, u, hj, hu, hhalt⟩ := ih _ (by omega) (k + 1) _ hnext rfl
        exact ⟨j, u, by omega, hu, hhalt⟩
  obtain ⟨k, t, hk, hrun, hhalt⟩ := aux (μ s) 0 s (Run.nil s) rfl
  exact ⟨k, t, by omega, hrun, hhalt⟩

end Loops

section Fuel

variable {α β : Type*} {f : ℕ → Option α} {g : α → ℕ → Option β}

/-- An interpreter that returns the same with more fuel. -/
def Fuelled (f : ℕ → Option α) : Prop :=
  ∀ fuel more x, fuel ≤ more → f fuel = some x → f more = some x

/-- The interpreter returns the value, with enough fuel. -/
def Yields (f : ℕ → Option α) (x : α) : Prop := ∃ fuel, f fuel = some x

theorem fuelled_const (o : Option α) : Fuelled (fun _ => o) := fun _ _ _ _ h => h

theorem Fuelled.bind (hf : Fuelled f) (hg : ∀ x, Fuelled (g x)) :
    Fuelled (fun fuel => (f fuel).bind (fun x => g x fuel)) := by
  intro fuel more y hle h
  obtain ⟨x, hx, hy⟩ := Option.bind_eq_some_iff.mp h
  exact Option.bind_eq_some_iff.mpr ⟨x, hf fuel more x hle hx, hg x fuel more y hle hy⟩

theorem Fuelled.unique (hf : Fuelled f) {x y : α} (hx : Yields f x) (hy : Yields f y) : x = y := by
  obtain ⟨m, hm⟩ := hx
  obtain ⟨n, hn⟩ := hy
  have hleft := hf m (max m n) x (Nat.le_max_left m n) hm
  have hright := hf n (max m n) y (Nat.le_max_right m n) hn
  exact Option.some.inj (hleft.symm.trans hright)

/-- One after the other, both return with the larger of their fuels. -/
theorem yields_bind_iff (hf : Fuelled f) (hg : ∀ x, Fuelled (g x)) {y : β} :
    Yields (fun fuel => (f fuel).bind (fun x => g x fuel)) y ↔
      ∃ x, Yields f x ∧ Yields (g x) y := by
  constructor
  · rintro ⟨fuel, h⟩
    obtain ⟨x, hx, hy⟩ := Option.bind_eq_some_iff.mp h
    exact ⟨x, ⟨fuel, hx⟩, fuel, hy⟩
  · rintro ⟨x, ⟨m, hm⟩, n, hn⟩
    exact ⟨max m n, Option.bind_eq_some_iff.mpr ⟨x, hf m _ x (Nat.le_max_left m n) hm,
      hg x n _ y (Nat.le_max_right m n) hn⟩⟩

variable {guard : σ → Bool} {body : ι → σ → σ} {env : ℕ → ι} {s t : σ} {k : ℕ}

theorem fuelled_whileLoop : Fuelled (fun fuel => whileLoop guard body env fuel 0 s) := by
  rintro fuel more ⟨j, t⟩ hle h
  obtain ⟨hij, hji, hrest⟩ := (whileLoop_eq_some_iff guard body env fuel 0 s (Run.nil s)).mp h
  exact (whileLoop_eq_some_iff guard body env more 0 s (Run.nil s)).mpr ⟨hij, by omega, hrest⟩

/-- The loop returns with some fuel exactly if it halts. -/
theorem yields_whileLoop_iff :
    Yields (fun fuel => whileLoop guard body env fuel 0 s) (k, t) ↔
      Run (LoopStep guard body) s (streamPrefix env k) t ∧ guard t = false := by
  constructor
  · rintro ⟨fuel, h⟩
    exact ((whileLoop_eq_some_iff guard body env fuel 0 s (Run.nil s)).mp h).2.2
  · intro h
    exact ⟨k, (whileLoop_eq_some_iff guard body env k 0 s (Run.nil s)).mpr
      ⟨Nat.zero_le k, by omega, h⟩⟩

/-- A loop returns as soon as some number of turns cannot all pass its test. -/
theorem exists_yields_whileLoop
    (hstop : ∀ t, Run (LoopStep guard body) s (streamPrefix env k) t → guard t = false) :
    ∃ x, Yields (fun fuel => whileLoop guard body env fuel 0 s) x := by
  rcases exists_run_or_halt guard body env s k with ⟨t, hrun⟩ | ⟨j, t, _, hrun, hhalt⟩
  · exact ⟨_, yields_whileLoop_iff.mpr ⟨hrun, hstop t hrun⟩⟩
  · exact ⟨_, yields_whileLoop_iff.mpr ⟨hrun, hhalt⟩⟩

end Fuel

end AeronFast.LabelledRuns
