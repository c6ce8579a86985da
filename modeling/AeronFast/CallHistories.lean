import AeronFast.Interleaving
import Mathlib.Data.List.Nodup

/-!
Who did what in a history of interleaved calls. A call is identified by its
number among the started ones, so that two calls with the same arguments are
told apart. An event of a history is a step some thread took from a state
with a given property; it is attributed to the call the thread was in.
-/
namespace AeronFast.CallHistories

open LabelledRuns Interleaving

variable {T σ c pc : Type*} [DecidableEq T]

/-- The number of calls started and the latest of each thread. -/
def registerCall (register : ℕ × (T → ℕ)) : Action T c → ℕ × (T → ℕ)
  | .start t _ => (register.1 + 1, Function.update register.2 t register.1)
  | .advance _ => register

def register (actions : List (Action T c)) : ℕ × (T → ℕ) :=
  actions.foldl registerCall (0, fun _ => 0)

/-- The number of the latest call of a thread. -/
def callId (actions : List (Action T c)) : T → ℕ := (register actions).2

theorem register_fst (actions : List (Action T c)) :
    (register actions).1 = (callsOf actions).length := by
  induction actions using List.reverseRecOn with
  | nil => rfl
  | append_singleton earlier a ih =>
    rw [register, List.foldl_append, ← register]
    cases a with
    | start t call => simp [registerCall, callsOf_start, ih]
    | advance t => simp [registerCall, callsOf_advance, ih]

theorem callId_start (actions : List (Action T c)) (t : T) (call : c) :
    callId (actions ++ [.start t call]) =
      Function.update (callId actions) t (callsOf actions).length := by
  rw [callId, register, List.foldl_append, ← register, ← register_fst]
  rfl

theorem callId_advance (actions : List (Action T c)) (t : T) :
    callId (actions ++ [.advance t]) = callId actions := by
  rw [callId, register, List.foldl_append, ← register]
  rfl

/-- What stands at an index of a list stands there when the list has grown. -/
theorem lookup_append {α : Type*} {left right : List α} {i : ℕ} {a : α}
    (h : left[i]? = some a) : (left ++ right)[i]? = some a := by
  rw [List.getElem?_append_left (List.getElem?_eq_some_iff.mp h).1]
  exact h

section Identity

variable {entry : pc} {advance : σ → c → pc → σ × Option pc} {s₀ : σ}
variable {actions : List (Action T c)} {p : Pool T σ c pc}

/-- Every busy thread is in the call of its number, and no two are in the same. -/
structure Identified (actions : List (Action T c)) (p : Pool T σ c pc) : Prop where
  lookup : ∀ t call point, p.frames t = some (call, point) →
    (callsOf actions)[callId actions t]? = some call
  distinct : ∀ t t' frame frame', p.frames t = some frame → p.frames t' = some frame' →
    callId actions t = callId actions t' → t = t'

theorem Identified.lt (h : Identified actions p) {t : T} {call : c} {point : pc}
    (hframe : p.frames t = some (call, point)) : callId actions t < (callsOf actions).length :=
  (List.getElem?_eq_some_iff.mp (h.lookup t call point hframe)).1

theorem identified_start {u : Pool T σ c pc} {t : T} {call : c} (h : Identified actions u) :
    Identified (actions ++ [.start t call])
      { u with frames := Function.update u.frames t (some (call, entry)) } := by
  have hold : ∀ t', t' ≠ t → ∀ frame, u.frames t' = some frame →
      callId actions t' ≠ (callsOf actions).length := by
    intro t' _ frame hframe heq
    obtain ⟨call', point⟩ := frame
    have hlt := h.lt hframe
    omega
  constructor
  · intro t' call' point hframe
    rw [callsOf_start, callId_start]
    by_cases ht : t' = t
    · subst ht
      simp only [Function.update_self] at hframe ⊢
      cases hframe
      exact List.getElem?_concat_length
    · simp only [Function.update_of_ne ht] at hframe ⊢
      rw [List.getElem?_append_left (h.lt hframe)]
      exact h.lookup t' call' point hframe
  · intro t' t'' frame frame' hframe hframe' hsame
    rw [callId_start] at hsame
    by_cases ht : t' = t
    · by_cases ht' : t'' = t
      · rw [ht, ht']
      · simp only [Function.update_of_ne ht'] at hframe' hsame
        rw [ht, Function.update_self] at hsame
        exact absurd hsame.symm (hold t'' ht' frame' hframe')
    · simp only [Function.update_of_ne ht] at hframe hsame
      by_cases ht' : t'' = t
      · rw [ht', Function.update_self] at hsame
        exact absurd hsame (hold t' ht frame hframe)
      · simp only [Function.update_of_ne ht'] at hframe' hsame
        exact h.distinct t' t'' frame frame' hframe hframe' hsame

theorem identified_advance {u v : Pool T σ c pc} {t : T} (h : Identified actions u)
    (hstep : PoolStep entry advance u (.advance t) v) :
    Identified (actions ++ [.advance t]) v := by
  -- a thread that is busy now was busy before, in the same call
  have hbusy : ∀ t' call point, v.frames t' = some (call, point) →
      ∃ point', u.frames t' = some (call, point') := by
    intro t' call point hframe
    rcases frame_cases hstep hframe with ⟨rfl, before, hold, _⟩ | ⟨_, hold⟩
    · exact ⟨before, hold⟩
    · exact ⟨point, hold⟩
  constructor
  · intro t' call point hframe
    obtain ⟨point', hold⟩ := hbusy t' call point hframe
    rw [callsOf_advance, callId_advance]
    exact h.lookup t' call point' hold
  · intro t' t'' frame frame' hframe hframe' hsame
    obtain ⟨point, hold⟩ := hbusy t' frame.1 frame.2 hframe
    obtain ⟨point', hold'⟩ := hbusy t'' frame'.1 frame'.2 hframe'
    rw [callId_advance] at hsame
    exact h.distinct t' t'' _ _ hold hold' hsame

theorem identified_run (hrun : Run (PoolStep entry advance) (idle s₀) actions p) :
    Identified actions p := by
  apply hrun.invariant (P := Identified)
  · constructor
    · intro t call point h
      cases h
    · intro t t' frame frame' h
      cases h
  · intro actions u a v _ ih hstep
    cases a with
    | start t call =>
      obtain ⟨_, rfl⟩ := hstep
      exact identified_start ih
    | advance t => exact identified_advance ih hstep

end Identity

section Events

variable (entry : pc) (advance : σ → c → pc → σ × Option pc) (s₀ : σ)

/-- In the history call number `n` took a step from a state with the property. -/
def Occurred (event : Pool T σ c pc → T → Prop) (actions : List (Action T c)) (n : ℕ) : Prop :=
  ∃ before t after q, actions = before ++ .advance t :: after ∧
    Run (PoolStep entry advance) (idle s₀) before q ∧ event q t ∧ callId before t = n

variable {entry advance s₀} {event : Pool T σ c pc → T → Prop}
variable {actions : List (Action T c)} {u : Pool T σ c pc} {n : ℕ}

theorem poolStep_unique (p : Pool T σ c pc) (a : Action T c) (q q' : Pool T σ c pc)
    (h : PoolStep entry advance p a q) (h' : PoolStep entry advance p a q') : q = q' := by
  cases a with
  | start t call =>
    obtain ⟨_, rfl⟩ := h
    obtain ⟨_, rfl⟩ := h'
    rfl
  | advance t =>
    obtain ⟨call, point, hframe, rfl⟩ := h
    obtain ⟨call', point', hframe', rfl⟩ := h'
    rw [hframe] at hframe'
    cases hframe'
    rfl

theorem not_occurred_nil : ¬ Occurred entry advance s₀ event [] n := by
  rintro ⟨before, t, after, q, hsplit, _⟩
  simp at hsplit

theorem Occurred.snoc (h : Occurred entry advance s₀ event actions n) (a : Action T c) :
    Occurred entry advance s₀ event (actions ++ [a]) n := by
  obtain ⟨before, t, after, q, rfl, hrun, hevent, hid⟩ := h
  exact ⟨before, t, after ++ [a], q, by simp, hrun, hevent, hid⟩

theorem occurred_last (hrun : Run (PoolStep entry advance) (idle s₀) actions u) (t : T)
    (hevent : event u t) :
    Occurred entry advance s₀ event (actions ++ [.advance t]) (callId actions t) :=
  ⟨actions, t, [], u, rfl, hrun, hevent, rfl⟩

/-- An event occurred before the last step or in it. -/
theorem occurred_snoc_cases (hrun : Run (PoolStep entry advance) (idle s₀) actions u)
    {a : Action T c} (h : Occurred entry advance s₀ event (actions ++ [a]) n) :
    Occurred entry advance s₀ event actions n ∨
      ∃ t, a = .advance t ∧ event u t ∧ callId actions t = n := by
  obtain ⟨before, t, after, q, hsplit, hq, hevent, hid⟩ := h
  rcases List.eq_nil_or_concat after with rfl | ⟨rest, last, rfl⟩
  · obtain ⟨rfl, hlast⟩ := List.append_inj' hsplit rfl
    refine Or.inr ⟨t, (List.cons.inj hlast).1, ?_, hid⟩
    rwa [hrun.unique poolStep_unique hq]
  · left
    rw [List.concat_eq_append, ← List.cons_append, ← List.append_assoc] at hsplit
    obtain ⟨rfl, _⟩ := List.append_inj' hsplit rfl
    exact ⟨before, t, rest, q, rfl, hq, hevent, hid⟩

end Events

theorem length_le_of_lt {owners : List ℕ} {bound : ℕ} (hnodup : owners.Nodup)
    (hlt : ∀ n ∈ owners, n < bound) : owners.length ≤ bound := by
  have hle := hnodup.length_le_of_subset (fun n hn => List.mem_range.mpr (hlt n hn))
  rwa [List.length_range] at hle

/-- Numbers below a bound, each once and all of them, are as many as the bound. -/
theorem length_eq_of_covers {owners : List ℕ} {bound : ℕ} (hnodup : owners.Nodup)
    (hlt : ∀ n ∈ owners, n < bound) (hall : ∀ n < bound, n ∈ owners) :
    owners.length = bound := by
  apply Nat.le_antisymm
  · exact length_le_of_lt hnodup hlt
  · have hle := (List.nodup_range (n := bound)).length_le_of_subset
      (fun n hn => hall n (List.mem_range.mp hn))
    rwa [List.length_range] at hle

end AeronFast.CallHistories
