import AeronFast.LockedSections
import AeronFast.ReporterProtocol

/-!
Programs with one mutex whose threads are a worker and a reporter. The state is
mapped to the control of the two: the statements of a section leave it alone,
the end of a section and an unprotected statement are steps of it. What the
control says of a cleared flag then holds of every run of the program, statement
by statement.
-/
namespace AeronFast.ControlledPrograms

open LabelledRuns LockedSections ReporterProtocol

variable {σ T E U : Type*}

/-- The program follows the control, and its reporter stands at the report in the sections that
report. Each section commits with one of its statements. -/
structure Controlled (P : Program σ T E U) (commit : E → ℕ) (control : σ → Control)
    (event : Whole T E U → Event) : Prop extends Stays P where
  inside : ∀ e, commit e < (P.statements e).length
  frame : ∀ e, ∀ f ∈ P.statements e, ∀ s, control (f s) = control s
  released : ∀ s w s', Released P s w s' →
    ReporterProtocol.Step (control s) (event w) (control s')
  reports : ∀ e s, P.enter e s = true → isReport (event (.whole e)) = true →
    (control s).reporter = .report

variable {P : Program σ T E U} {commit : E → ℕ} {control : σ → Control}
variable {event : Whole T E U → Event} {m n : Memory σ E} {actions : List (Action T E U)}

theorem control_run (h : Controlled P commit control event) (hheld : Held P m)
    (hrun : Run (LockedSections.Step P) m actions n) :
    Run ReporterProtocol.Step (control m.shared) ((releases actions).map event)
        (control n.shared) ∧ Held P n := by
  refine release_invariant h.toStays (J := fun labels s =>
    Run ReporterProtocol.Step (control m.shared) (labels.map event) (control s))
    hheld (Run.nil _) ?_ ?_ hrun
  · intro labels e f hf s hs
    rw [h.frame e f hf s]
    exact hs
  · intro labels s w s' hs hreleased
    rw [List.map_append]
    exact hs.snoc (h.released s w s' hreleased)

/-- Once the flag is cleared, every release finds it cleared. -/
theorem stopped_invariant (h : Controlled P commit control event)
    {J : List (Whole T E U) → σ → Prop} (hheld : Held P m)
    (hstopped : (control m.shared).running = false) (hinit : J [] m.shared)
    (hstatement : ∀ labels e, ∀ f ∈ P.statements e, ∀ s, J labels s → J labels (f s))
    (hreleased : ∀ labels s w s', (control s).running = false → J labels s →
      Released P s w s' → J (labels ++ [w]) s')
    (hrun : Run (LockedSections.Step P) m actions n) : J (releases actions) n.shared := by
  refine (release_invariant h.toStays
    (J := fun labels s => (control s).running = false ∧ J labels s) hheld ⟨hstopped, hinit⟩
    ?_ ?_ hrun).1.2
  · rintro labels e f hf s ⟨hrunning, hs⟩
    rw [h.frame e f hf s]
    exact ⟨hrunning, hstatement labels e f hf s hs⟩
  · rintro labels s w s' ⟨hrunning, hs⟩ hstep
    exact ⟨stopped_step hrunning (h.released s w s' hstep),
      hreleased labels s w s' hrunning hs hstep⟩

/-- A report that has committed is due until it is over. -/
theorem underway_le_due (h : Controlled P commit control event) (hheld : Held P m) :
    underway commit (isReport ∘ event) m.holder ≤ due (control m.shared).reporter := by
  cases hholder : m.holder with
  | none => exact Nat.zero_le _
  | some held =>
    obtain ⟨e, k⟩ := held
    obtain ⟨_, henter⟩ := hheld e k hholder
    simp only [underway]
    split_ifs with hopen
    · rw [h.reports e m.shared henter hopen.1]
      exact Nat.le_refl _
    · exact Nat.zero_le _

/-- With the flag cleared only the report that is due may still be made. -/
theorem reports_le_due (h : Controlled P commit control event) (hheld : Held P m)
    (hstopped : (control m.shared).running = false)
    (hrun : Run (LockedSections.Step P) m actions n) :
    ((commits commit actions).map event).countP isReport ≤ due (control m.shared).reporter := by
  obtain ⟨hcontrol, hheld'⟩ := control_run h hheld hrun
  have hreports := (stopped_run_counts hstopped hcontrol).1
  have hcommits := commits_releases h.inside (isReport ∘ event) hrun
  have hopen := underway_le_due h hheld'
  rw [List.countP_map] at hreports ⊢
  omega

/-- Behind the join no report is made. -/
theorem no_report_of_joined (h : Controlled P commit control event) (hheld : Held P m)
    (hordered : Ordered (control m.shared))
    (hjoined : (control m.shared).worker = .finalReport ∨ (control m.shared).worker = .done)
    (hrun : Run (LockedSections.Step P) m actions n) :
    ((commits commit actions).map event).countP isReport = 0 := by
  obtain ⟨hstopped, hdue⟩ := due_of_joined hordered hjoined
  have hreports := reports_le_due h hheld hstopped hrun
  omega

/-- With the flag cleared the threads take at most eight steps besides the work. -/
theorem awake_le (h : Controlled P commit control event) (hheld : Held P m)
    (hstopped : (control m.shared).running = false)
    (hrun : Run (LockedSections.Step P) m actions n) :
    (releases actions).countP (noSignal ∘ event) ≤
      8 + (releases actions).countP (isWork ∘ event) := by
  have hrank := (stopped_run_counts hstopped (control_run h hheld hrun).1).2
  have hrank' := rank_le_eight (control m.shared)
  have hsplit := countP_noSignal ((releases actions).map event)
  rw [List.countP_map, List.countP_map] at hsplit
  rw [List.countP_map] at hsplit
  rw [List.countP_map] at hrank
  omega

end AeronFast.ControlledPrograms
