import AeronFast.ControlledPrograms
import AeronFast.SubscriberLoop
import AeronFast.ThreadedSubscriber

/-!
How the subscriber comes to its end, for every interleaving of the statements
of its two threads with a signal. Once `running` is cleared no further poll is
begun, and what is left is the rest of the poll that runs, at most one report
and the way out. The fragments that Aeron still delivers in that poll are bounded
by the limit it was given.
-/
namespace AeronFast.SubscriberShutdown

open CommonTypes ByteBuffers ConfigParser BinaryMessage BinarySubscriber SubscriberLoop LabelledRuns
open LockedSections ReporterProtocol ControlledPrograms ThreadedSubscriber

variable (host : ByteOrder) (config : Config)

def workerPoint : PollPoint → WorkerPoint
  | .loopTest => .working
  | .polling => .working
  | .counting _ => .working
  | .targetTest _ => .working
  | .stopping => .stopping
  | .joining => .joining
  | .finalReport => .finalReport
  | .done => .done

def controlOf (s : PollThreads) : Control :=
  ⟨s.subscriber.running, s.reporter, workerPoint s.point⟩

def eventOf : PollLabel → Event
  | .whole (.count _) => .work
  | .whole (.report _) => .report
  | .whole .final => .finalReport
  | .free _ .poll => .work
  | .free _ (.fragment _) => .work
  | .free _ .target => .work
  | .free _ (.pollReturned _) => .work
  | .free _ (.loopEnds _) => .loopEnds
  | .free _ .stop => .stop
  | .free _ .join => .join
  | .free _ .reporter => .reporter
  | .free _ .signal => .signal

theorem statsThread_move {s : Subscriber} {r next : ReporterPoint}
    (h : statsThread s r = some next) : ReporterMove s.running r next := by
  cases r with
  | loopTest =>
    cases hrunning : s.running with
    | true =>
      simp only [statsThread, hrunning, if_true] at h
      cases h
      exact .count
    | false =>
      simp only [statsThread, hrunning] at h
      cases h
      exact .stop
  | countTest =>
    simp only [statsThread] at h
    split_ifs at h
    · cases h
      exact .countSleep s.running
    · cases h
      exact .countStop s.running
  | sleeping =>
    cases h
    exact .wake s.running
  | runningTest =>
    cases hrunning : s.running with
    | true =>
      simp only [statsThread, hrunning, if_true] at h
      cases h
      exact .report
    | false =>
      simp only [statsThread, hrunning] at h
      cases h
      exact .again
  | report => cases h
  | finished => cases h

/-- The work of the main thread that stays in the receive loop. -/
theorem control_work {s s' : PollThreads} (hs : workerPoint s.point = .working)
    (hs' : workerPoint s'.point = .working) (hreporter : s'.reporter = s.reporter)
    (hrunning : s.subscriber.running = false → s'.subscriber.running = false) :
    ReporterProtocol.Step (controlOf s) .work (controlOf s') := by
  have hcontrol : controlOf s' = { controlOf s with running := s'.subscriber.running } := by
    simp [controlOf, hs, hs', hreporter]
  rw [hcontrol]
  exact .work hs hrunning

theorem checkTarget_stopped (now : TimestampNs) (s : Subscriber) (h : s.running = false) :
    (checkTarget now s).running = false := by
  unfold checkTarget
  split_ifs
  · rfl
  · exact h

theorem setEndTime_running (now : TimestampNs) (s : Subscriber) :
    (setEndTime now s).running = s.running := by
  unfold setEndTime
  split_ifs <;> rfl

/-- The end of a section and every unprotected statement is a step of the control. -/
theorem control_released {s s' : PollThreads} {w : PollLabel}
    (h : Released (program host config) s w s') :
    ReporterProtocol.Step (controlOf s) (eventOf w) (controlOf s') := by
  cases w with
  | whole e =>
    obtain ⟨henter, rfl⟩ := h
    cases e with
    | count f =>
      have hpoint : s.point = .counting f := of_decide_eq_true henter
      exact control_work (by rw [hpoint]; rfl) rfl rfl id
    | report now => exact .report (c := controlOf s) (of_decide_eq_true henter)
    | final =>
      have hpoint : s.point = .finalReport := of_decide_eq_true henter
      exact .finalReport (c := controlOf s) (by simp [controlOf, hpoint, workerPoint])
  | free t u =>
    cases moves_of_unprotected host h with
    | poll hpoint _ => exact control_work (by rw [hpoint]; rfl) rfl rfl id
    | shortFragment hpoint _ _ => exact control_work (by rw [hpoint]; rfl) rfl rfl id
    | fragment hpoint _ _ => exact control_work (by rw [hpoint]; rfl) rfl rfl id
    | target hpoint =>
      exact control_work (by rw [hpoint]; rfl) rfl rfl (checkTarget_stopped _ s.subscriber)
    | pollReturned result hpoint => exact control_work (by rw [hpoint]; rfl) rfl rfl id
    | loopEnds now hpoint _ =>
      have hcontrol : controlOf { s with
          subscriber := setEndTime now s.subscriber, point := .stopping } =
            { controlOf s with worker := .stopping } := by
        simp [controlOf, setEndTime_running, workerPoint]
      rw [hcontrol]
      exact .loopEnds (c := controlOf s) (by simp [controlOf, hpoint, workerPoint])
    | stop hpoint => exact .stop (c := controlOf s) (by simp [controlOf, hpoint, workerPoint])
    | join hpoint hfinished =>
      exact .join (c := controlOf s) (by simp [controlOf, hpoint, workerPoint]) hfinished
    | reporter hnext => exact .reporter (c := controlOf s) (statsThread_move hnext)
    | signal => exact .signal (controlOf s)

/-- Under the mutex neither the flag nor the place of a thread is written. -/
theorem statements_frame (e : MutexSection) (f : PollThreads → PollThreads)
    (hf : f ∈ (program host config).statements e) (s : PollThreads) :
    controlOf (f s) = controlOf s ∧ (f s).point = s.point ∧
      (f s).fragmentsLeft = s.fragmentsLeft := by
  cases e with
  | count fragment =>
    simp only [program, countStatements, List.mem_cons, List.not_mem_nil, or_false] at hf
    rcases hf with rfl | rfl | rfl | rfl | rfl | rfl | rfl <;> exact ⟨rfl, rfl, rfl⟩
  | report now =>
    obtain ⟨last, locals, ledger, rfl⟩ := mem_reportStatements hf
    exact ⟨rfl, rfl, rfl⟩
  | final =>
    rw [List.mem_singleton.mp hf]
    exact ⟨rfl, rfl, rfl⟩

/-- The memory of the two threads and the mutex. -/
abbrev PollMemory := Memory PollThreads MutexSection

/-- The subscriber is a worker with a reporter. -/
theorem controlled : Controlled (program host config) firstStatement controlOf eventOf where
  toStays := (commits_firstStatement host config).toStays
  inside := (commits_firstStatement host config).inside
  frame e f hf s := (statements_frame host config e f hf s).1
  released _ _ _ hreleased := control_released host config hreleased
  reports e s henter hreport := by
    cases e with
    | count f => cases hreport
    | report now => exact of_decide_eq_true henter
    | final => cases hreport

/-- The work that is left of a poll once the flag is cleared, without further fragments. -/
def workLeft : PollPoint → ℕ
  | .polling => 1
  | .counting _ => 3
  | .targetTest _ => 2
  | _ => 0

def isPoll : PollLabel → Bool
  | .free _ .poll => true
  | _ => false

def isFragment : PollLabel → Bool
  | .free _ (.fragment _) => true
  | _ => false

/-- The fragments still to come in the poll that runs. -/
def fragmentsDue (s : PollThreads) : ℕ :=
  match s.point with
  | .polling => s.fragmentsLeft
  | .counting _ => s.fragmentsLeft
  | .targetTest _ => s.fragmentsLeft
  | _ => 0

/-- With the flag cleared no poll begins, and what is left of the one that runs gets less. -/
theorem stopped_work {s s' : PollThreads} {w : PollLabel} (hstopped : s.subscriber.running = false)
    (h : Released (program host config) s w s') :
    isPoll w = false ∧
      (if isFragment w then 1 else 0) + fragmentsDue s' ≤ fragmentsDue s ∧
      (if isWork (eventOf w) then 1 else 0) + workLeft s'.point ≤
        workLeft s.point + 3 * (if isFragment w then 1 else 0) := by
  cases w with
  | whole e =>
    obtain ⟨henter, rfl⟩ := h
    cases e with
    | count f =>
      have hpoint : s.point = .counting f := of_decide_eq_true henter
      simp [program, isPoll, isWork, eventOf, workLeft, isFragment, fragmentsDue, hpoint]
    | report now => simp [program, isPoll, isWork, eventOf, isFragment, fragmentsDue]
    | final => simp [program, isPoll, isWork, eventOf, workLeft, isFragment, fragmentsDue]
  | free t u =>
    cases moves_of_unprotected host h with
    | poll _ hguard => simp [pollGuard, hstopped] at hguard
    | shortFragment hpoint hleft _ =>
      simp only [isPoll, isWork, eventOf, workLeft, isFragment, fragmentsDue, hpoint]
      simp
      omega
    | fragment hpoint hleft _ =>
      simp only [isPoll, isWork, eventOf, workLeft, isFragment, fragmentsDue, hpoint]
      simp
      omega
    | target hpoint =>
      simp [isPoll, isWork, eventOf, workLeft, isFragment, fragmentsDue, hpoint]
    | pollReturned result hpoint =>
      simp [isPoll, isWork, eventOf, workLeft, isFragment, fragmentsDue, hpoint]
    | loopEnds now _ _ => simp [isPoll, isWork, eventOf, workLeft, isFragment, fragmentsDue]
    | stop _ => simp [isPoll, isWork, eventOf, workLeft, isFragment, fragmentsDue]
    | join _ _ => simp [isPoll, isWork, eventOf, workLeft, isFragment, fragmentsDue]
    | reporter _ => simp [isPoll, isWork, eventOf, isFragment, fragmentsDue]
    | signal => simp [isPoll, isWork, eventOf, isFragment, fragmentsDue]

def awake (w : PollLabel) : Bool := noSignal (eventOf w)

/-- The steps after the flag is cleared: the rest of the poll that runs, and no other. -/
structure Ending (s : PollThreads) (labels : List PollLabel) (s' : PollThreads) : Prop where
  polls : labels.countP isPoll = 0
  fragments : labels.countP isFragment + fragmentsDue s' ≤ fragmentsDue s
  work : labels.countP (isWork ∘ eventOf) + workLeft s'.point ≤
    workLeft s.point + 3 * labels.countP isFragment

theorem ending_run {m n : PollMemory} {later : List PollAction}
    (hheld : Held (program host config) m) (hstopped : m.shared.subscriber.running = false)
    (hlater : Run (LockedSections.Step (program host config)) m later n) :
    Ending m.shared (releases later) n.shared := by
  refine stopped_invariant (controlled host config)
    (J := fun labels s => Ending m.shared labels s) hheld hstopped ?_ ?_ ?_ hlater
  · exact ⟨rfl, by simp, by simp⟩
  · intro labels e f hf s hs
    obtain ⟨_, hpoint, hleft⟩ := statements_frame host config e f hf s
    have hdue : fragmentsDue (f s) = fragmentsDue s := by
      simp only [fragmentsDue, hpoint, hleft]
    exact ⟨hs.polls, by rw [hdue]; exact hs.fragments, by rw [hpoint]; exact hs.work⟩
  · intro labels s w s' hrunning hs hreleased
    obtain ⟨hpoll, hfragment, hwork⟩ := stopped_work host config hrunning hreleased
    have hfragments := hs.fragments
    have hworks := hs.work
    refine ⟨?_, ?_, ?_⟩
    · rw [countP_snoc_neg labels hpoll]
      exact hs.polls
    · rw [List.countP_append, List.countP_singleton]
      omega
    · rw [List.countP_append, List.countP_append, List.countP_singleton, List.countP_singleton,
        Function.comp_apply]
      omega

/-- The fragments that a poll has still to come never exceed its limit. -/
theorem fragmentsDue_le {s s' : PollThreads} {w : PollLabel}
    (hs : fragmentsDue s ≤ pollLimit config) (h : Released (program host config) s w s') :
    fragmentsDue s' ≤ pollLimit config := by
  cases w with
  | whole e =>
    obtain ⟨henter, rfl⟩ := h
    cases e with
    | count f =>
      have hpoint : s.point = .counting f := of_decide_eq_true henter
      simpa [program, fragmentsDue, hpoint] using hs
    | report now => exact hs
    | final => exact Nat.zero_le _
  | free t u =>
    cases moves_of_unprotected host h with
    | poll _ _ => exact Nat.le_refl _
    | shortFragment hpoint hleft _ =>
      simp only [fragmentsDue, hpoint] at hs ⊢
      omega
    | fragment hpoint hleft _ =>
      simp only [fragmentsDue, hpoint] at hs ⊢
      omega
    | target hpoint =>
      simp only [fragmentsDue, hpoint] at hs ⊢
      exact hs
    | reporter _ => exact hs
    | signal => exact hs
    | _ => exact Nat.zero_le _

/-- The steps that count once the flag is cleared. -/
theorem awake_le_fragments {m n : PollMemory} {later : List PollAction}
    (hheld : Held (program host config) m) (hstopped : m.shared.subscriber.running = false)
    (hlater : Run (LockedSections.Step (program host config)) m later n) :
    (releases later).countP awake ≤ 11 + 3 * (releases later).countP isFragment := by
  have hsteps : (releases later).countP awake ≤ _ :=
    awake_le (controlled host config) hheld hstopped hlater
  have hwork := (ending_run host config hheld hstopped hlater).work
  have hleft : workLeft m.shared.point ≤ 3 := by
    cases m.shared.point <;> simp [workLeft]
  omega

/-- As long as the threads are not both at their end, one of them can go on. -/
theorem exists_released {s : PollThreads} (hend : ¬(s.point = .done ∧ s.reporter = .finished)) :
    ∃ w s', Released (program host config) s w s' ∧ awake w = true := by
  have hreporter : s.reporter ≠ .finished →
      ∃ w s', Released (program host config) s w s' ∧ awake w = true := by
    intro hnot
    by_cases hreport : s.reporter = .report
    · exact ⟨.whole (.report 0), _, ⟨decide_eq_true hreport, rfl⟩, rfl⟩
    · have hnext : ∃ next, statsThread s.subscriber s.reporter = some next := by
        cases hr : s.reporter with
        | report => exact absurd hr hreport
        | finished => exact absurd hr hnot
        | loopTest => exact ⟨_, rfl⟩
        | countTest => exact ⟨_, rfl⟩
        | sleeping => exact ⟨_, rfl⟩
        | runningTest => exact ⟨_, rfl⟩
      obtain ⟨next, hnext⟩ := hnext
      exact ⟨.free .stats .reporter, _, Option.map_eq_some_iff.mpr ⟨next, hnext, rfl⟩, rfl⟩
  cases hpoint : s.point with
  | loopTest =>
    cases hguard : pollGuard s.subscriber with
    | true => exact ⟨.free .main .poll, _, if_pos ⟨hpoint, hguard⟩, rfl⟩
    | false => exact ⟨.free .main (.loopEnds 0), _, if_pos ⟨hpoint, hguard⟩, rfl⟩
  | polling => exact ⟨.free .main (.pollReturned 0), _, if_pos hpoint, rfl⟩
  | counting f => exact ⟨.whole (.count f), _, ⟨decide_eq_true hpoint, rfl⟩, rfl⟩
  | targetTest now =>
    refine ⟨.free .main .target,
      { s with subscriber := checkTarget now s.subscriber, point := .polling }, ?_, rfl⟩
    simp [Released, program, unprotected, hpoint]
  | stopping => exact ⟨.free .main .stop, _, if_pos hpoint, rfl⟩
  | joining =>
    by_cases hfinished : s.reporter = .finished
    · exact ⟨.free .main .join, _, if_pos ⟨hpoint, hfinished⟩, rfl⟩
    · exact hreporter hfinished
  | finalReport => exact ⟨.whole .final, _, ⟨decide_eq_true hpoint, rfl⟩, rfl⟩
  | done =>
    apply hreporter
    intro hfinished
    exact hend ⟨hpoint, hfinished⟩

/-- A run of the threads that follows `pthread_create`. -/
abbrev PollRun (s : PollThreads) (actions : List PollAction) (m : PollMemory) : Prop :=
  Run (LockedSections.Step (program host config)) ⟨s, none⟩ actions m

theorem sections_short (e : MutexSection) :
    ((program host config).statements e).length + 2 ≤ 10 := by
  cases e with
  | count f => simp [program, countStatements]
  | report now => simp [program, reportStatements]
  | final => simp [program, finalStatements]

variable {target : UInt64} {startTime : TimestampNs} {stopped : Bool}
variable {reporter : ReporterPoint} {locals : RealtimeLocals}

/-- What holds in every memory that the two threads reach. -/
theorem reached {actions : List PollAction} {m : PollMemory}
    (hrun : PollRun host config (pollThreads target startTime stopped reporter locals) actions m) :
    Held (program host config) m ∧ Ordered (controlOf m.shared) ∧
      fragmentsDue m.shared ≤ pollLimit config := by
  obtain ⟨hcontrol, hheld⟩ := control_run (controlled host config) (held_free _) hrun
  have hordered : Ordered (controlOf m.shared) := ordered_run (ordered_of_working rfl) hcontrol
  have hdue := release_invariant (commits_firstStatement host config).toStays
    (J := fun _ s => fragmentsDue s ≤ pollLimit config) (held_free _) (Nat.zero_le _) (by
      intro labels e f hf s hs
      obtain ⟨_, hpoint, hleft⟩ := statements_frame host config e f hf s
      simp only [fragmentsDue, hpoint, hleft] at hs ⊢
      exact hs)
    (fun _ _ _ _ hs hreleased => fragmentsDue_le host config hs hreleased) hrun
  exact ⟨hheld, hordered, hdue.1⟩

/-- The subscriber never blocks before both threads are at their end. Once `running` is cleared,
by the handler, the main thread or a signal at any time, no further poll is begun, at most one
interval report is still made, the poll that runs delivers no more fragments than it has left of
its limit, and both threads end within 119 statements and thirty for each of these. After the
join no interval report is made. -/
theorem subscriber_shuts_down {actions : List PollAction} {m : PollMemory}
    (hrun : PollRun host config (pollThreads target startTime stopped reporter locals) actions m) :
    (m.shared.point = .done ∧ m.shared.reporter = .finished ∨
        ∃ a n, LockedSections.Step (program host config) m a n ∧ a ≠ .free .signal .signal) ∧
      fragmentsDue m.shared ≤ pollLimit config ∧
      (m.shared.subscriber.running = false → ∀ later n,
        Run (LockedSections.Step (program host config)) m later n →
          ((commits firstStatement later).map eventOf).countP isReport ≤ 1 ∧
            (commits firstStatement later).countP isPoll = 0 ∧
            (commits firstStatement later).countP isFragment ≤ fragmentsDue m.shared ∧
            later.countP (counts awake) ≤ 119 + 30 * fragmentsDue m.shared) ∧
      (m.shared.point = .finalReport ∨ m.shared.point = .done → ∀ later n,
        Run (LockedSections.Step (program host config)) m later n →
          ((commits firstStatement later).map eventOf).countP isReport = 0) := by
  obtain ⟨hheld, hordered, hlimit⟩ := reached host config hrun
  refine ⟨?_, hlimit, ?_, ?_⟩
  · by_cases hend : m.shared.point = .done ∧ m.shared.reporter = .finished
    · exact Or.inl hend
    · right
      obtain ⟨a, n, hstep, hok⟩ := exists_step (fun w => awake w = true) hheld
        (fun _ => exists_released host config hend)
      refine ⟨a, n, hstep, ?_⟩
      rintro rfl
      exact absurd (hok _ _ rfl) (by decide)
  · intro hstopped later n hlater
    have hending := ending_run host config hheld hstopped hlater
    have hheld' := (control_run (controlled host config) hheld hlater).2
    have hreports := reports_le_due (controlled host config) hheld hstopped hlater
    have hinside := (commits_firstStatement host config).inside
    have hpolls := commits_releases hinside isPoll hlater
    have hfragments := commits_releases hinside isFragment hlater
    have hpoll : ∀ holder, underway firstStatement isPoll holder = 0 := by
      rintro (_ | ⟨e, k⟩)
      · rfl
      · cases e <;> simp [underway, isPoll]
    have hfragment : ∀ holder, underway firstStatement isFragment holder = 0 := by
      rintro (_ | ⟨e, k⟩)
      · rfl
      · cases e <;> simp [underway, isFragment]
    rw [hpoll, hpoll, hending.polls] at hpolls
    rw [hfragment, hfragment] at hfragments
    have hcounts := counts_le awake (by intro e; cases e <;> rfl) (by decide)
      (sections_short host config) hlater
    have hbegun := begun_le (sections_short host config) hheld'
    have hsteps := awake_le_fragments host config hheld hstopped hlater
    have hdue := due_le_one (controlOf m.shared).reporter
    have hdelivered := hending.fragments
    exact ⟨by omega, by omega, by omega, by omega⟩
  · intro hjoined later n hlater
    have hworker : (controlOf m.shared).worker = .finalReport ∨
        (controlOf m.shared).worker = .done := by
      rcases hjoined with hpoint | hpoint
      · simp [controlOf, hpoint, workerPoint]
      · simp [controlOf, hpoint, workerPoint]
    exact no_report_of_joined (controlled host config) hheld hordered hworker hlater

/-- A signal arrives in the middle of a poll that has delivered one of its ten fragments. -/
theorem signal_in_poll_shuts_down :
    ∃ actions m, PollRun .little (sizedConfig 16 1 2)
        (pollThreads 2 5 false .loopTest ⟨0, 0, 0, 0⟩) actions m ∧
      m.shared.subscriber.running = false ∧ m.shared.point = .polling ∧
      fragmentsDue m.shared = 9 ∧
      ∀ later n, Run (LockedSections.Step (program .little (sizedConfig 16 1 2))) m later n →
        ((commits firstStatement later).map eventOf).countP isReport ≤ 1 ∧
          (commits firstStatement later).countP isPoll = 0 ∧
          (commits firstStatement later).countP isFragment ≤ 9 ∧
          later.countP (counts awake) ≤ 119 + 30 * 9 := by
  have hwhole : Run (WholeStep (program .little (sizedConfig 16 1 2)))
      (pollThreads 2 5 false .loopTest ⟨0, 0, 0, 0⟩)
      [.free .main .poll, .free .main (.fragment ⟨[], 6⟩), .free .signal .signal] _ :=
    run_of_nextWhole rfl
  obtain ⟨actions, _, hrun⟩ := exists_run_of_whole (commits_firstStatement _ _) hwhole
  exact ⟨actions, _, hrun, rfl, rfl, rfl,
    (subscriber_shuts_down .little (sizedConfig 16 1 2) hrun).2.2.1 rfl⟩

end AeronFast.SubscriberShutdown
