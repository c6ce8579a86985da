import AeronFast.ControlledPrograms
import AeronFast.PublisherStartup

/-!
How the publisher comes to its end, for every interleaving of the statements of
its two threads with a signal, from `pthread_create` on. The threads follow the
control of a worker with a reporter; there the flag `running` bounds what is
still to come, and the mutex adds at most the length of its sections.
-/
namespace AeronFast.PublisherShutdown

open CommonTypes ByteBuffers ConfigParser BinaryPublisher PublisherRuns LabelledRuns
open LockedSections ReporterProtocol ControlledPrograms ThreadedPublisher PublisherStartup

variable (host : ByteOrder) (config : Config)

def workerPoint : SendPoint → WorkerPoint
  | .startTime => .working
  | .lastStatsTime => .working
  | .loopTest => .working
  | .publish _ => .working
  | .published _ => .working
  | .stopping => .stopping
  | .joining => .joining
  | .finalReport => .finalReport
  | .done => .done

def controlOf (s : SendThreads) : Control := ⟨s.publisher.running, s.reporter, workerPoint s.point⟩

def eventOf : SendLabel → Event
  | .whole (.account _) => .work
  | .whole (.report _) => .report
  | .whole (.final _) => .finalReport
  | .free _ (.startTime _) => .work
  | .free _ .lastStatsTime => .work
  | .free _ (.turn _ _) => .work
  | .free _ .loopEnds => .loopEnds
  | .free _ .skipAccount => .work
  | .free _ .afterPublish => .work
  | .free _ .stop => .stop
  | .free _ .join => .join
  | .free _ .reporter => .reporter
  | .free _ .signal => .signal

theorem statsThread_move {running : Bool} {r next : ReporterPoint}
    (h : statsThread running r = some next) : ReporterMove running r next := by
  cases r with
  | loopTest =>
    cases running with
    | true =>
      cases h
      exact .sleep
    | false =>
      cases h
      exact .stop
  | sleeping =>
    cases h
    exact .wake running
  | runningTest =>
    cases running with
    | true =>
      cases h
      exact .report
    | false =>
      cases h
      exact .again
  | countTest => cases h
  | report => cases h
  | finished => cases h

theorem afterPublish_running (p : Publisher) (code : Int) :
    (afterPublish config p code).running = p.running := by
  unfold afterPublish
  split_ifs <;> rfl

/-- The work of the main thread up to the end of the send loop. -/
theorem control_work {s s' : SendThreads} (hs : workerPoint s.point = .working)
    (hs' : workerPoint s'.point = .working) (hreporter : s'.reporter = s.reporter)
    (hrunning : s'.publisher.running = s.publisher.running) :
    ReporterProtocol.Step (controlOf s) .work (controlOf s') := by
  have hcontrol : controlOf s' = { controlOf s with running := s.publisher.running } := by
    simp [controlOf, hs, hs', hreporter, hrunning]
  rw [hcontrol]
  exact .work hs (fun h => h)

/-- The end of a section and every unprotected statement is a step of the control. -/
theorem control_released {s s' : SendThreads} {w : SendLabel}
    (h : Released (program host config) s w s') :
    ReporterProtocol.Step (controlOf s) (eventOf w) (controlOf s') := by
  cases w with
  | whole e =>
    obtain ⟨henter, rfl⟩ := h
    cases e with
    | account result =>
      have hpoint := (of_decide_eq_true henter).1
      exact control_work (by rw [hpoint]; rfl) rfl rfl rfl
    | report now => exact .report (c := controlOf s) (of_decide_eq_true henter)
    | final now =>
      have hpoint : s.point = .finalReport := of_decide_eq_true henter
      exact .finalReport (c := controlOf s) (by simp [controlOf, hpoint, workerPoint])
  | free t u =>
    rcases unprotected_cases h with ⟨rfl, hstarts⟩ | hloop
    · cases hstarts with
      | startTime now hpoint => exact control_work (by rw [hpoint]; rfl) rfl rfl rfl
      | lastStatsTime hpoint => exact control_work (by rw [hpoint]; rfl) rfl rfl rfl
    · cases moves_of_unprotected hloop with
      | turn clock result hpoint _ => exact control_work (by rw [hpoint]; rfl) rfl rfl rfl
      | loopEnds hpoint _ =>
        exact .loopEnds (c := controlOf s) (by simp [controlOf, hpoint, workerPoint])
      | skipAccount hpoint _ => exact control_work (by rw [hpoint]; rfl) rfl rfl rfl
      | afterPublish hpoint =>
        exact control_work (by rw [hpoint]; rfl) rfl rfl (afterPublish_running config _ _)
      | stop hpoint => exact .stop (c := controlOf s) (by simp [controlOf, hpoint, workerPoint])
      | join hpoint hfinished =>
        exact .join (c := controlOf s) (by simp [controlOf, hpoint, workerPoint]) hfinished
      | reporter hnext => exact .reporter (c := controlOf s) (statsThread_move hnext)
      | signal => exact .signal (controlOf s)

/-- The publisher's reporter has no second loop condition. -/
theorem no_countTest {s s' : SendThreads} {w : SendLabel} (hs : s.reporter ≠ .countTest)
    (h : Released (program host config) s w s') : s'.reporter ≠ .countTest := by
  cases w with
  | whole e =>
    obtain ⟨_, rfl⟩ := h
    cases e with
    | account result => exact hs
    | report now => exact ReporterPoint.noConfusion
    | final now => exact hs
  | free t u =>
    rcases unprotected_cases h with ⟨rfl, hstarts⟩ | hloop
    · cases hstarts <;> exact hs
    · cases moves_of_unprotected hloop with
      | reporter hnext =>
        rintro rfl
        cases hr : s.reporter <;> cases hrun : s.publisher.running <;>
          simp [hr, hrun, statsThread] at hnext
      | _ => exact hs

/-- The publisher is a worker with a reporter. -/
theorem controlled : Controlled (program host config) firstStatement controlOf eventOf where
  toStays := stays_program host config
  inside := (commits_firstStatement host config).inside
  frame e f hf s := by
    obtain ⟨hrunning, hreporter, hpoint⟩ := statements_frame host config e f hf s
    simp only [controlOf, hrunning, hreporter, hpoint]
  released _ _ _ hreleased := control_released host config hreleased
  reports e s henter hreport := by
    cases e with
    | account result => cases hreport
    | report now => exact of_decide_eq_true henter
    | final now => cases hreport

/-- The work that is left once the flag is cleared: the two times, or the rest of a turn. -/
def workLeft : SendPoint → ℕ
  | .startTime => 2
  | .lastStatsTime => 1
  | .publish _ => 2
  | .published _ => 1
  | _ => 0

theorem stopped_work {s s' : SendThreads} {w : SendLabel} (hstopped : s.publisher.running = false)
    (h : Released (program host config) s w s') :
    (if isWork (eventOf w) then 1 else 0) + workLeft s'.point ≤ workLeft s.point := by
  cases w with
  | whole e =>
    obtain ⟨henter, rfl⟩ := h
    cases e with
    | account result =>
      have hpoint := (of_decide_eq_true henter).1
      simp [program, sendLoop, isWork, eventOf, workLeft, hpoint]
    | report now => simp [program, sendLoop, isWork, eventOf]
    | final now => simp [program, sendLoop, isWork, eventOf, workLeft]
  | free t u =>
    rcases unprotected_cases h with ⟨rfl, hstarts⟩ | hloop
    · cases hstarts with
      | startTime now hpoint => simp [isWork, eventOf, workLeft, hpoint]
      | lastStatsTime hpoint => simp [isWork, eventOf, workLeft, hpoint]
    · cases moves_of_unprotected hloop with
      | turn clock result _ hguard =>
        have hrunning := ((sendGuard_iff config s.publisher).mp hguard).2.1
        simp [hstopped] at hrunning
      | loopEnds _ _ => simp [isWork, eventOf, workLeft]
      | skipAccount hpoint _ => simp [isWork, eventOf, workLeft, hpoint]
      | afterPublish hpoint => simp [isWork, eventOf, workLeft, hpoint]
      | stop _ => simp [isWork, eventOf, workLeft]
      | join _ _ => simp [isWork, eventOf, workLeft]
      | reporter _ => simp [isWork, eventOf]
      | signal => simp [isWork, eventOf]

def awake (w : SendLabel) : Bool := noSignal (eventOf w)

/-- Once the flag is cleared, the work that is left and the way out take at most ten steps. -/
theorem awake_le_ten {m n : SendMemory} {later : List SendAction}
    (hheld : Held (program host config) m) (hstopped : m.shared.publisher.running = false)
    (hlater : Run (LockedSections.Step (program host config)) m later n) :
    (releases later).countP awake ≤ 10 := by
  have hwork : (releases later).countP (isWork ∘ eventOf) + workLeft n.shared.point ≤
      workLeft m.shared.point := by
    refine stopped_invariant (controlled host config) (J := fun labels s =>
      labels.countP (isWork ∘ eventOf) + workLeft s.point ≤ workLeft m.shared.point)
      hheld hstopped ?_ ?_ ?_ hlater
    · simp
    · intro labels e f hf s hs
      rw [(statements_frame host config e f hf s).2.2]
      exact hs
    · intro labels s w s' hrunning hs hreleased
      have hlast := stopped_work host config hrunning hreleased
      rw [List.countP_append, List.countP_singleton, Function.comp_apply]
      omega
  have hleft : workLeft m.shared.point ≤ 2 := by
    cases m.shared.point <;> simp [workLeft]
  have hsteps : (releases later).countP awake ≤ _ :=
    awake_le (controlled host config) hheld hstopped hlater
  omega

/-- As long as the threads are not both at their end, one of them can go on. -/
theorem exists_released {s : SendThreads} (hcount : s.reporter ≠ .countTest)
    (hend : ¬(s.point = .done ∧ s.reporter = .finished)) :
    ∃ w s', Released (program host config) s w s' ∧ awake w = true := by
  have hreporter : s.reporter ≠ .finished →
      ∃ w s', Released (program host config) s w s' ∧ awake w = true := by
    intro hnot
    have hnext : s.reporter ≠ .report →
        ∃ next, statsThread s.publisher.running s.reporter = some next := by
      intro hne
      cases hr : s.reporter with
      | countTest => exact absurd hr hcount
      | report => exact absurd hr hne
      | finished => exact absurd hr hnot
      | loopTest => exact ⟨_, rfl⟩
      | sleeping => exact ⟨_, rfl⟩
      | runningTest => exact ⟨_, rfl⟩
    by_cases hreport : s.reporter = .report
    · exact ⟨.whole (.report 0), _, ⟨decide_eq_true hreport, rfl⟩, rfl⟩
    · obtain ⟨next, hnext⟩ := hnext hreport
      exact ⟨.free .stats .reporter, _, Option.map_eq_some_iff.mpr ⟨next, hnext, rfl⟩, rfl⟩
  cases hpoint : s.point with
  | startTime => exact ⟨.free .main (.startTime 0), _, if_pos hpoint, rfl⟩
  | lastStatsTime => exact ⟨.free .main .lastStatsTime, _, if_pos hpoint, rfl⟩
  | loopTest =>
    cases hguard : sendGuard config s.publisher with
    | true => exact ⟨.free .main (.turn 0 1), _, if_pos ⟨hpoint, hguard⟩, rfl⟩
    | false => exact ⟨.free .main .loopEnds, _, if_pos ⟨hpoint, hguard⟩, rfl⟩
  | publish result =>
    cases haccounted : accounted result with
    | true =>
      exact ⟨.whole (.account result), _, ⟨decide_eq_true ⟨hpoint, haccounted⟩, rfl⟩, rfl⟩
    | false =>
      have hskip : loopUnprotected host config .main .skipAccount s =
          some { s with point := .published result } := by
        simp only [loopUnprotected, hpoint, haccounted, Bool.false_eq_true, if_false]
      exact ⟨.free .main .skipAccount, _, hskip, rfl⟩
  | published code =>
    have hafter : loopUnprotected host config .main .afterPublish s = some { s with
        publisher := afterPublish config s.publisher code, point := .loopTest } := by
      simp only [loopUnprotected, hpoint]
    exact ⟨.free .main .afterPublish, _, hafter, rfl⟩
  | stopping => exact ⟨.free .main .stop, _, if_pos hpoint, rfl⟩
  | joining =>
    by_cases hfinished : s.reporter = .finished
    · exact ⟨.free .main .join, _, if_pos ⟨hpoint, hfinished⟩, rfl⟩
    · exact hreporter hfinished
  | finalReport => exact ⟨.whole (.final 0), _, ⟨decide_eq_true hpoint, rfl⟩, rfl⟩
  | done =>
    apply hreporter
    intro hfinished
    exact hend ⟨hpoint, hfinished⟩

/-- A run of the threads that follows `pthread_create`. -/
abbrev SendRun (s : SendThreads) (actions : List SendAction) (m : SendMemory) : Prop :=
  Run (LockedSections.Step (program host config)) ⟨s, none⟩ actions m

theorem sections_short (e : MutexSection) :
    ((program host config).statements e).length + 2 ≤ 11 := by
  cases e with
  | account result =>
    simp only [program, sendLoop, accountStatements]
    split_ifs <;> simp
  | report now => simp [program, sendLoop, reportStatements]
  | final now => simp [program, sendLoop, finalStatements]

variable {garbage : ℕ → UInt8} {stopped : Bool}
variable {reporter : ReporterPoint} {locals : ReportLocals}

/-- What holds in every memory that the two threads reach. -/
theorem reached {actions : List SendAction} {m : SendMemory}
    (hrun : SendRun host config (sendThreads config garbage stopped reporter locals) actions m) :
    Held (program host config) m ∧ Ordered (controlOf m.shared) ∧
      (reporter ≠ .countTest → m.shared.reporter ≠ .countTest) := by
  obtain ⟨hcontrol, hheld⟩ := control_run (controlled host config) (held_free _) hrun
  refine ⟨hheld, ordered_run (ordered_of_working rfl) hcontrol, fun hreporter => ?_⟩
  refine (release_invariant (stays_program host config)
    (J := fun _ s => s.reporter ≠ .countTest) (held_free _) hreporter ?_ ?_ hrun).1
  · intro labels e f hf s hs
    rw [(statements_frame host config e f hf s).2.1]
    exact hs
  · intro labels s w s' hs hreleased
    exact no_countTest host config hs hreleased

/-- The publisher never blocks before both threads are at their end. Once `running` is cleared,
by the main thread or by a signal at any time, at most one interval report is still made, and
both threads end within 120 statements. After the join no interval report is made. -/
theorem publisher_shuts_down {actions : List SendAction} {m : SendMemory}
    (hreporter : reporter ≠ .countTest)
    (hrun : SendRun host config (sendThreads config garbage stopped reporter locals) actions m) :
    (m.shared.point = .done ∧ m.shared.reporter = .finished ∨
        ∃ a n, LockedSections.Step (program host config) m a n ∧ a ≠ .free .signal .signal) ∧
      (m.shared.publisher.running = false → ∀ later n,
        Run (LockedSections.Step (program host config)) m later n →
          ((commits firstStatement later).map eventOf).countP isReport ≤ 1 ∧
            later.countP (counts awake) ≤ 120) ∧
      (m.shared.point = .finalReport ∨ m.shared.point = .done → ∀ later n,
        Run (LockedSections.Step (program host config)) m later n →
          ((commits firstStatement later).map eventOf).countP isReport = 0) := by
  obtain ⟨hheld, hordered, hcount⟩ := reached host config hrun
  refine ⟨?_, ?_, ?_⟩
  · by_cases hend : m.shared.point = .done ∧ m.shared.reporter = .finished
    · exact Or.inl hend
    · right
      obtain ⟨a, n, hstep, hok⟩ := exists_step (fun w => awake w = true) hheld
        (fun _ => exists_released host config (hcount hreporter) hend)
      refine ⟨a, n, hstep, ?_⟩
      rintro rfl
      exact absurd (hok _ _ rfl) (by decide)
  · intro hstopped later n hlater
    have hreports := reports_le_due (controlled host config) hheld hstopped hlater
    have hheld' := (control_run (controlled host config) hheld hlater).2
    have hcounts := counts_le awake (by intro e; cases e <;> rfl) (by decide)
      (sections_short host config) hlater
    have hbegun := begun_le (sections_short host config) hheld'
    have hsteps := awake_le_ten host config hheld hstopped hlater
    have hdue := due_le_one (controlOf m.shared).reporter
    exact ⟨by omega, by omega⟩
  · intro hjoined later n hlater
    have hworker : (controlOf m.shared).worker = .finalReport ∨
        (controlOf m.shared).worker = .done := by
      rcases hjoined with hpoint | hpoint
      · simp [controlOf, hpoint, workerPoint]
      · simp [controlOf, hpoint, workerPoint]
    exact no_report_of_joined (controlled host config) hheld hordered hworker hlater

/-- A signal arrives when the statistics thread is about to report and the main thread has not
set its times. -/
theorem signal_before_report_shuts_down :
    ∃ m, SendRun .little (sizedConfig 16 1 1)
        (sendThreads (sizedConfig 16 1 1) (fun _ => 0) false .loopTest ⟨0, 0, 0, 0, 0⟩)
        [.free .stats .reporter, .free .stats .reporter, .free .stats .reporter,
          .free .signal .signal] m ∧
      m.shared.publisher.running = false ∧ m.shared.reporter = .report ∧
      m.shared.point = .startTime ∧
      ∀ later n, Run (LockedSections.Step (program .little (sizedConfig 16 1 1))) m later n →
        ((commits firstStatement later).map eventOf).countP isReport ≤ 1 ∧
          later.countP (counts awake) ≤ 120 := by
  have hrun : SendRun .little (sizedConfig 16 1 1)
      (sendThreads (sizedConfig 16 1 1) (fun _ => 0) false .loopTest ⟨0, 0, 0, 0, 0⟩)
      [.free .stats .reporter, .free .stats .reporter, .free .stats .reporter,
        .free .signal .signal] _ :=
    (run_of_next (K := fun _ _ => True) _ _ (fun _ _ _ => trivial) rfl).mono fun _ _ _ h => h.1
  exact ⟨_, hrun, rfl, rfl, rfl,
    (publisher_shuts_down .little (sizedConfig 16 1 1) (by decide) hrun).2.1 rfl⟩

end AeronFast.PublisherShutdown
