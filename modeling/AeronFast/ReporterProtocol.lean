import AeronFast.LabelledRuns

/-!
The control of a program that works in one thread and reports in a second one.
The reporter loops while a flag stands: it tests the flag, perhaps a second
condition, sleeps, tests the flag again and reports. The worker leaves its loop
at some time, clears the flag, joins the reporter and makes a final report. A
signal may clear the flag at any time, and nothing sets it again. Once it is
cleared at most one report is still made, both threads are bounded, and the
final report comes after all the others.
-/
namespace AeronFast.ReporterProtocol

open LabelledRuns

inductive Thread
  | main
  | stats
  | signal
  deriving DecidableEq, Repr

inductive ReporterPoint
  | loopTest
  | countTest
  | sleeping
  | runningTest
  | report
  | finished
  deriving DecidableEq, Repr

inductive WorkerPoint
  | working
  | stopping
  | joining
  | finalReport
  | done
  deriving DecidableEq, Repr

structure Control where
  running : Bool
  reporter : ReporterPoint
  worker : WorkerPoint
  deriving DecidableEq, Repr

inductive Event
  | work
  | signal
  | loopEnds
  | stop
  | join
  | finalReport
  | reporter
  | report
  deriving DecidableEq, Repr

/-- Where an unprotected statement of the reporter may lead. -/
inductive ReporterMove : Bool → ReporterPoint → ReporterPoint → Prop
  | count : ReporterMove true .loopTest .countTest
  | sleep : ReporterMove true .loopTest .sleeping
  | stop : ReporterMove false .loopTest .finished
  | countSleep (running : Bool) : ReporterMove running .countTest .sleeping
  | countStop (running : Bool) : ReporterMove running .countTest .finished
  | wake (running : Bool) : ReporterMove running .sleeping .runningTest
  | report : ReporterMove true .runningTest .report
  | again : ReporterMove false .runningTest .loopTest

inductive Step : Control → Event → Control → Prop
  /-- The work may clear the flag, but not set it. -/
  | work {c : Control} {running : Bool} : c.worker = .working →
      (c.running = false → running = false) → Step c .work { c with running := running }
  | signal (c : Control) : Step c .signal { c with running := false }
  | loopEnds {c : Control} : c.worker = .working → Step c .loopEnds { c with worker := .stopping }
  | stop {c : Control} : c.worker = .stopping →
      Step c .stop { c with running := false, worker := .joining }
  | join {c : Control} : c.worker = .joining → c.reporter = .finished →
      Step c .join { c with worker := .finalReport }
  | finalReport {c : Control} : c.worker = .finalReport →
      Step c .finalReport { c with worker := .done }
  | reporter {c : Control} {next : ReporterPoint} : ReporterMove c.running c.reporter next →
      Step c .reporter { c with reporter := next }
  | report {c : Control} : c.reporter = .report →
      Step c .report { c with reporter := .loopTest }

/-- The worker has cleared the flag, and has waited for the reporter. -/
structure Ordered (c : Control) : Prop where
  stopped : c.worker = .joining ∨ c.worker = .finalReport ∨ c.worker = .done →
    c.running = false
  joined : c.worker = .finalReport ∨ c.worker = .done → c.reporter = .finished

/-- A finished reporter makes no step. -/
theorem not_reporterMove_finished {running : Bool} {next : ReporterPoint} :
    ¬ReporterMove running .finished next := by
  intro h
  cases h

theorem ordered_of_working {c : Control} (h : c.worker = .working) : Ordered c := by
  constructor
  · intro hc
    simp [h] at hc
  · intro hc
    simp [h] at hc

theorem ordered_step {c d : Control} {e : Event} (h : Ordered c) (hstep : Step c e d) :
    Ordered d := by
  cases hstep with
  | work hworking _ => exact ordered_of_working hworking
  | signal => exact ⟨fun _ => rfl, h.joined⟩
  | loopEnds hworking => exact ⟨by simp, by simp⟩
  | stop hstopping => exact ⟨fun _ => rfl, by simp⟩
  | join hjoining hfinished => exact ⟨fun _ => h.stopped (Or.inl hjoining), fun _ => hfinished⟩
  | finalReport hfinal =>
    exact ⟨fun _ => h.stopped (Or.inr (Or.inl hfinal)), fun _ => h.joined (Or.inl hfinal)⟩
  | reporter hmove =>
    refine ⟨h.stopped, fun hpast => ?_⟩
    rw [h.joined hpast] at hmove
    exact absurd hmove not_reporterMove_finished
  | report hreport =>
    refine ⟨h.stopped, fun hpast => ?_⟩
    have hfinished := h.joined hpast
    simp [hreport] at hfinished

theorem ordered_run {c d : Control} {events : List Event} (h : Ordered c)
    (hrun : Run Step c events d) : Ordered d :=
  hrun.invariant (P := fun _ d => Ordered d) h
    (fun _ _ _ _ _ ih hstep => ordered_step ih hstep)

/-- Nothing sets the flag again. -/
theorem stopped_step {c d : Control} {e : Event} (h : c.running = false) (hstep : Step c e d) :
    d.running = false := by
  cases hstep with
  | work _ hkeeps => exact hkeeps h
  | signal => rfl
  | stop => rfl
  | loopEnds => exact h
  | join => exact h
  | finalReport => exact h
  | reporter => exact h
  | report => exact h

theorem stopped_run {c d : Control} {events : List Event} (h : c.running = false)
    (hrun : Run Step c events d) : d.running = false :=
  hrun.invariant (P := fun _ d => d.running = false) h
    (fun _ _ _ _ _ ih hstep => stopped_step ih hstep)

/-- A report that the reporter is bound to make. -/
def due : ReporterPoint → ℕ
  | .report => 1
  | _ => 0

def reporterRank : ReporterPoint → ℕ
  | .finished => 0
  | .loopTest => 1
  | .runningTest => 2
  | .report => 2
  | .sleeping => 3
  | .countTest => 4

def workerRank : WorkerPoint → ℕ
  | .done => 0
  | .finalReport => 1
  | .joining => 2
  | .stopping => 3
  | .working => 4

/-- The steps both threads have still to take outside the work, once the flag is cleared. -/
def rank (c : Control) : ℕ := reporterRank c.reporter + workerRank c.worker

def isReport (e : Event) : Bool := e = .report

/-- The steps that lead to the end. -/
def ending : Event → Bool
  | .work => false
  | .signal => false
  | _ => true

def isWork (e : Event) : Bool := e = .work

def noSignal (e : Event) : Bool := e ≠ .signal

theorem countP_noSignal (events : List Event) :
    events.countP noSignal = events.countP ending + events.countP isWork := by
  induction events with
  | nil => rfl
  | cons e rest ih =>
    rw [List.countP_cons, ih, List.countP_cons, List.countP_cons]
    cases e <;> simp [noSignal, ending, isWork] <;> omega

/-- With the flag cleared, the reporter turns to its end. -/
theorem reporterMove_stopped {r next : ReporterPoint} (h : ReporterMove false r next) :
    due next = 0 ∧ due r = 0 ∧ reporterRank next < reporterRank r := by
  cases h with
  | stop => decide
  | countSleep => decide
  | countStop => decide
  | wake => decide
  | again => decide

theorem stopped_step_counts {c d : Control} {e : Event} (h : c.running = false)
    (hstep : Step c e d) :
    (if isReport e then 1 else 0) + due d.reporter ≤ due c.reporter ∧
      (if ending e then 1 else 0) + rank d ≤ rank c := by
  cases hstep with
  | work _ _ => exact ⟨by simp [isReport], by simp [ending, rank]⟩
  | signal => exact ⟨by simp [isReport], by simp [ending, rank]⟩
  | loopEnds hworking =>
    refine ⟨by simp [isReport], ?_⟩
    simp only [ending, if_true, rank, hworking, workerRank]
    omega
  | stop hstopping =>
    refine ⟨by simp [isReport], ?_⟩
    simp only [ending, if_true, rank, hstopping, workerRank]
    omega
  | join hjoining _ =>
    refine ⟨by simp [isReport], ?_⟩
    simp only [ending, if_true, rank, hjoining, workerRank]
    omega
  | finalReport hfinal =>
    refine ⟨by simp [isReport], ?_⟩
    simp only [ending, if_true, rank, hfinal, workerRank]
    omega
  | reporter hmove =>
    rw [h] at hmove
    obtain ⟨hnext, hnow, hlt⟩ := reporterMove_stopped hmove
    refine ⟨?_, ?_⟩
    · simp [isReport, hnext, hnow]
    · simp only [ending, if_true, rank]
      omega
  | report hreport =>
    refine ⟨?_, ?_⟩
    · simp [isReport, hreport, due]
    · simp only [ending, if_true, rank, hreport, reporterRank]
      omega

/-- Once the flag is cleared, at most the report that was due is still made, and both threads
together take at most as many steps as their places rank. -/
theorem stopped_run_counts {c d : Control} {events : List Event} (h : c.running = false)
    (hrun : Run Step c events d) :
    events.countP isReport + due d.reporter ≤ due c.reporter ∧
      events.countP ending + rank d ≤ rank c := by
  refine hrun.invariant (P := fun events d =>
    events.countP isReport + due d.reporter ≤ due c.reporter ∧
      events.countP ending + rank d ≤ rank c) ?_ ?_
  · simp
  · rintro events u e d hprefix ⟨hreports, hrank⟩ hstep
    obtain ⟨hreports', hrank'⟩ := stopped_step_counts (stopped_run h hprefix) hstep
    rw [List.countP_append, List.countP_append, List.countP_singleton, List.countP_singleton]
    omega

theorem due_le_one (r : ReporterPoint) : due r ≤ 1 := by
  cases r <;> decide

theorem rank_le_eight (c : Control) : rank c ≤ 8 := by
  have hreporter : reporterRank c.reporter ≤ 4 := by
    cases c.reporter <;> decide
  have hworker : workerRank c.worker ≤ 4 := by
    cases c.worker <;> decide
  rw [rank]
  omega

/-- Behind the join no report is due. -/
theorem due_of_joined {c : Control} (h : Ordered c)
    (hjoined : c.worker = .finalReport ∨ c.worker = .done) :
    c.running = false ∧ due c.reporter = 0 := by
  refine ⟨h.stopped (Or.inr hjoined), ?_⟩
  rw [h.joined hjoined]
  rfl

end AeronFast.ReporterProtocol
