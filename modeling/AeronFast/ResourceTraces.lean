import Mathlib.Data.List.Nodup

/-!
Traces of calls that obtain, use and close handles. While a trace runs it
holds the handles obtained and not yet closed, the latest first; a trace that
closes the latest one it holds until it holds none has released every handle
once, in the reverse of the order in which it obtained them.
-/
namespace AeronFast.ResourceTraces

variable {γ α : Type*}

structure Footprint (α : Type*) where
  obtains : Option α
  uses : List α
  closes : Option α

section Traces

variable (footprint : γ → Footprint α)

def obtained (calls : List γ) : List α :=
  calls.filterMap (fun call => (footprint call).obtains)

def closed (calls : List γ) : List α :=
  calls.filterMap (fun call => (footprint call).closes)

theorem obtained_snoc (calls : List γ) (call : γ) :
    obtained footprint (calls ++ [call]) =
      obtained footprint calls ++ (footprint call).obtains.toList := by
  rw [obtained, List.filterMap_append]
  cases h : (footprint call).obtains with
  | none => simp [obtained, h]
  | some a => simp [obtained, h]

theorem closed_snoc (calls : List γ) (call : γ) :
    closed footprint (calls ++ [call]) =
      closed footprint calls ++ (footprint call).closes.toList := by
  rw [closed, List.filterMap_append]
  cases h : (footprint call).closes with
  | none => simp [closed, h]
  | some a => simp [closed, h]

/-- Every handle obtained is closed once and the latest first; a handle is closed only after it
was obtained, and used only between the two. -/
structure Released [DecidableEq α] (calls : List γ) : Prop where
  once : ∀ a ∈ obtained footprint calls, (closed footprint calls).count a = 1
  reversed : closed footprint calls = (obtained footprint calls).reverse
  closes_obtained : ∀ before call after a, calls = before ++ call :: after →
    (footprint call).closes = some a → a ∈ obtained footprint before
  uses_open : ∀ before call after a, calls = before ++ call :: after →
    a ∈ (footprint call).uses → a ∈ obtained footprint before ∧ a ∉ closed footprint before

/-- The trace so far behaves, and the handles in `held` are left to close. -/
structure Holds (calls : List γ) (held : List α) : Prop where
  nodup : (closed footprint calls ++ held).Nodup
  obtained_eq : obtained footprint calls = (closed footprint calls ++ held).reverse
  closes_obtained : ∀ before call after a, calls = before ++ call :: after →
    (footprint call).closes = some a → a ∈ obtained footprint before
  uses_open : ∀ before call after a, calls = before ++ call :: after →
    a ∈ (footprint call).uses → a ∈ obtained footprint before ∧ a ∉ closed footprint before

end Traces

/-- A position of an extended trace is one of the trace itself or the new last one. -/
theorem snoc_split {calls before after : List γ} {last call : γ}
    (h : calls ++ [last] = before ++ call :: after) :
    (∃ rest, calls = before ++ call :: rest) ∨ before = calls ∧ call = last := by
  rcases List.eq_nil_or_concat after with rfl | ⟨rest, final, rfl⟩
  · obtain ⟨rfl, hlast⟩ := List.append_inj' h rfl
    cases hlast
    exact Or.inr ⟨rfl, rfl⟩
  · refine Or.inl ⟨rest, ?_⟩
    rw [List.concat_eq_append, ← List.cons_append, ← List.append_assoc] at h
    exact (List.append_inj' h rfl).1

namespace Holds

variable {footprint : γ → Footprint α} {calls : List γ} {held : List α} {call : γ} {a : α}

theorem nil : Holds footprint [] [] where
  nodup := List.nodup_nil
  obtained_eq := rfl
  closes_obtained := by simp
  uses_open := by simp

theorem held_open (h : Holds footprint calls held) (ha : a ∈ held) :
    a ∈ obtained footprint calls ∧ a ∉ closed footprint calls := by
  constructor
  · rw [h.obtained_eq]
    simp [ha]
  · intro hclosed
    exact (List.nodup_append.mp h.nodup).2.2 a hclosed a ha rfl

/-- What a new last call has to keep, whatever it does to the handles held. -/
theorem extend (h : Holds footprint calls held) {held' : List α}
    (huses : ∀ a ∈ (footprint call).uses, a ∈ held)
    (hcloses : ∀ a, (footprint call).closes = some a → a ∈ held)
    (hnodup : (closed footprint (calls ++ [call]) ++ held').Nodup)
    (hobtained : obtained footprint (calls ++ [call]) =
      (closed footprint (calls ++ [call]) ++ held').reverse) :
    Holds footprint (calls ++ [call]) held' where
  nodup := hnodup
  obtained_eq := hobtained
  closes_obtained := by
    intro before c after a heq hc
    rcases snoc_split heq with ⟨rest, hrest⟩ | ⟨rfl, rfl⟩
    · exact h.closes_obtained before c rest a hrest hc
    · exact (h.held_open (hcloses a hc)).1
  uses_open := by
    intro before c after a heq hc
    rcases snoc_split heq with ⟨rest, hrest⟩ | ⟨rfl, rfl⟩
    · exact h.uses_open before c rest a hrest hc
    · exact h.held_open (huses a hc)

theorem use (h : Holds footprint calls held) (hobtains : (footprint call).obtains = none)
    (hcloses : (footprint call).closes = none)
    (huses : ∀ a ∈ (footprint call).uses, a ∈ held) :
    Holds footprint (calls ++ [call]) held := by
  have hclosed : closed footprint (calls ++ [call]) = closed footprint calls := by
    simp [closed_snoc, hcloses]
  apply h.extend huses
  · simp [hcloses]
  · rw [hclosed]
    exact h.nodup
  · rw [hclosed, obtained_snoc, hobtains, ← h.obtained_eq]
    simp

/-- Handles are obtained before any is closed. -/
theorem obtain_handle (h : Holds footprint calls held) (hopen : closed footprint calls = [])
    (hobtains : (footprint call).obtains = some a) (hcloses : (footprint call).closes = none)
    (huses : ∀ b ∈ (footprint call).uses, b ∈ held) (hnew : a ∉ held) :
    Holds footprint (calls ++ [call]) (a :: held) := by
  have hnodup := h.nodup
  have heq := h.obtained_eq
  rw [hopen, List.nil_append] at hnodup heq
  have hclosed : closed footprint (calls ++ [call]) = [] := by
    simp [closed_snoc, hcloses, hopen]
  apply h.extend huses
  · simp [hcloses]
  · rw [hclosed]
    exact List.nodup_cons.mpr ⟨hnew, hnodup⟩
  · rw [hclosed, obtained_snoc, hobtains, heq]
    simp

theorem close_handle (h : Holds footprint calls (a :: held))
    (hobtains : (footprint call).obtains = none) (hcloses : (footprint call).closes = some a)
    (huses : ∀ b ∈ (footprint call).uses, b ∈ a :: held) :
    Holds footprint (calls ++ [call]) held := by
  have hclosed : closed footprint (calls ++ [call]) ++ held =
      closed footprint calls ++ a :: held := by
    simp [closed_snoc, hcloses]
  apply h.extend huses
  · intro b hb
    rw [hcloses] at hb
    cases hb
    exact List.mem_cons_self
  · rw [hclosed]
    exact h.nodup
  · rw [hclosed, obtained_snoc, hobtains, ← h.obtained_eq]
    simp

/-- One call for each handle held, in the order in which they are held, closes them all. -/
theorem close_all (h : Holds footprint calls held) {more : List γ}
    (hmore : more.map footprint = held.map (fun a => ⟨none, [a], some a⟩)) :
    Holds footprint (calls ++ more) [] := by
  induction held generalizing calls more with
  | nil =>
    rw [List.map_nil, List.map_eq_nil_iff] at hmore
    simpa [hmore] using h
  | cons a held ih =>
    obtain ⟨call, rest, rfl, hcall, hrest⟩ := List.map_eq_cons_iff.mp hmore
    have hnext : Holds footprint (calls ++ [call]) held := by
      apply h.close_handle
      · rw [hcall]
      · rw [hcall]
      · simp [hcall]
    rw [List.append_cons]
    exact ih hnext hrest

theorem released [DecidableEq α] (h : Holds footprint calls []) : Released footprint calls := by
  have heq := h.obtained_eq
  have hnodup := h.nodup
  rw [List.append_nil] at heq hnodup
  refine ⟨?_, ?_, h.closes_obtained, h.uses_open⟩
  · intro a ha
    rw [heq, List.mem_reverse] at ha
    exact List.count_eq_one_of_mem hnodup ha
  · rw [heq, List.reverse_reverse]

end Holds

end AeronFast.ResourceTraces
