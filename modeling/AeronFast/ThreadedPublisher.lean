import AeronFast.IntervalTiling
import AeronFast.JoinDelay
import AeronFast.LockedSections
import AeronFast.ReporterProtocol

/-!
The publisher as two threads and a signal, statement by statement, from
`pthread_create` to the end of `run_publisher`. The statements under
`stats_mutex` are steps of their own, so that the statistics thread may meet
the main thread anywhere; the flag `running` is read and written without it, and
so are the two times that the main thread sets before the send loop. These a
report may meet half way; in the loop the two threads meet in the mutex only.
The offer of a message, with the clock reading and the buffer it needs, touches
nothing the statistics thread sees and is one step.
-/
namespace AeronFast.ThreadedPublisher

open CommonTypes ByteBuffers BinaryMessage BinaryPublisher PublisherRuns Throughput LabelledRuns
open IntervalLedgers IntervalTiling LockedSections ReporterProtocol

/-- Where the main thread is in `run_publisher`: before one of the two times is set, or in the send
loop and behind it. -/
inductive SendPoint
  | startTime
  | lastStatsTime
  | loopTest
  | publish (result : Int)
  | published (code : Int)
  | stopping
  | joining
  | finalReport
  | done
  deriving DecidableEq, Repr

/-- The local variables of `print_stats` in the statistics thread. -/
structure ReportLocals where
  currentTime : TimestampNs
  totalDuration : UInt64
  intervalTime : UInt64
  intervalMessages : UInt64
  intervalBytes : UInt64
  deriving DecidableEq, Repr

structure SendThreads where
  publisher : Publisher
  point : SendPoint
  reporter : ReporterPoint
  locals : ReportLocals
  /-- the messages counted and the intervals printed -/
  ledger : Ledger
  final : Option FinalReport

/-- The sections under `stats_mutex`: the bookkeeping for one answer of Aeron, and the two
reports with their clock readings. -/
inductive MutexSection
  | account (result : Int)
  | report (now : TimestampNs)
  | final (now : TimestampNs)
  deriving DecidableEq, Repr

inductive Unprotected
  | startTime (now : TimestampNs)
  | lastStatsTime
  | turn (clock : TimestampNs) (result : Int)
  | loopEnds
  | skipAccount
  | afterPublish
  | stop
  | join
  | reporter
  | signal
  deriving DecidableEq, Repr

/-- The answers of Aeron that `publish_message` counts. -/
def accounted (result : Int) : Bool :=
  0 < result ∨ result = aeronPublicationBackPressured ∨ result = aeronPublicationNotConnected ∨
    result = aeronPublicationAdminAction ∨ result = aeronPublicationClosed

/-- What `publish_message` returns. -/
def publishCode (result : Int) : Int :=
  if 0 < result then result
  else if result = aeronPublicationBackPressured then -1
  else if accounted result then -2
  else result

def setStats (f : PublisherStats → PublisherStats) (s : SendThreads) : SendThreads :=
  { s with publisher := { s.publisher with stats := f s.publisher.stats } }

def setLocals (f : PublisherStats → ReportLocals → ReportLocals) (s : SendThreads) :
    SendThreads :=
  { s with locals := f s.publisher.stats s.locals }

section Code

variable (host : ByteOrder) (config : Config)

def accountStatements (result : Int) : List (SendThreads → SendThreads) :=
  if 0 < result then
    [setStats (fun g => { g with messagesSent := g.messagesSent + 1 }),
      fun s => { setStats (fun g => { g with bytesSent := g.bytesSent + config.messageSize }) s
        with ledger := s.ledger.count config.messageSize.toNat }]
  else if result = aeronPublicationBackPressured then
    [setStats (fun g => { g with backPressureEvents := g.backPressureEvents + 1 })]
  else [setStats (fun g => { g with sendErrors := g.sendErrors + 1 })]

/-- The marks from which the local variables were computed. -/
def seenMarks (m : Marks) (l : ReportLocals) : Marks :=
  m.seen l.currentTime l.intervalTime l.intervalMessages l.intervalBytes

/-- The line of an interval: the totals as they are, and the rates that the local variables give. -/
def printInterval (s : SendThreads) : SendThreads :=
  { s with
    ledger := s.ledger.report (seenMarks (publisherMarks s.publisher.stats) s.locals)
      s.locals.currentTime
      (throughput s.locals.intervalMessages s.locals.intervalBytes s.locals.intervalTime) }

/-- `print_stats(false)`; the line is printed when the interval has a length. -/
def reportStatements (now : TimestampNs) : List (SendThreads → SendThreads) :=
  [setLocals (fun _ l => { l with currentTime := now }),
    setLocals (fun g l => { l with totalDuration := l.currentTime - g.startTime }),
    setLocals (fun g l => { l with intervalTime := l.currentTime - g.lastStatsTime }),
    setLocals (fun g l => { l with intervalMessages := g.messagesSent - g.lastMessagesSent }),
    setLocals (fun g l => { l with intervalBytes := g.bytesSent - g.lastBytesSent }),
    printInterval,
    fun s => setStats (fun g => { g with lastStatsTime := s.locals.currentTime }) s,
    setStats (fun g => { g with lastMessagesSent := g.messagesSent }),
    setStats (fun g => { g with lastBytesSent := g.bytesSent })]

def finalStatements (now : TimestampNs) : List (SendThreads → SendThreads) :=
  [fun s => { s with final := some (printFinalStats s.publisher.stats now) }]

/-- The message built and handed to Aeron in a turn. -/
def offerMessage (clock : TimestampNs) (p : Publisher) : Publisher :=
  { p with
    messageBuffer := createBinaryMessage host p.messageBuffer config.messageSize clock
    offered := p.offered ++
      [createBinaryMessage host p.messageBuffer config.messageSize clock] }

/-- The next unprotected statement of `stats_thread`. -/
def statsThread (running : Bool) : ReporterPoint → Option ReporterPoint
  | .loopTest => some (if running then .sleeping else .finished)
  | .sleeping => some .runningTest
  | .runningTest => some (if running then .report else .loopTest)
  | _ => none

/-- The statements without the mutex from the first loop test on. -/
def loopUnprotected : Thread → Unprotected → SendThreads → Option SendThreads
  | .main, .turn clock result, s =>
      if s.point = .loopTest ∧ sendGuard config s.publisher = true then
        some { s with
          publisher := offerMessage host config clock s.publisher
          point := .publish result }
      else none
  | .main, .loopEnds, s =>
      if s.point = .loopTest ∧ sendGuard config s.publisher = false then
        some { s with point := .stopping }
      else none
  | .main, .skipAccount, s =>
      match s.point with
      | .publish result =>
          if accounted result then none else some { s with point := .published result }
      | _ => none
  | .main, .afterPublish, s =>
      match s.point with
      | .published code =>
          some { s with publisher := afterPublish config s.publisher code, point := .loopTest }
      | _ => none
  | .main, .stop, s =>
      if s.point = .stopping then
        some { s with publisher := { s.publisher with running := false }, point := .joining }
      else none
  | .main, .join, s =>
      if s.point = .joining ∧ s.reporter = .finished then some { s with point := .finalReport }
      else none
  | .stats, .reporter, s =>
      (statsThread s.publisher.running s.reporter).map (fun next => { s with reporter := next })
  | .signal, .signal, s => some { s with publisher := { s.publisher with running := false } }
  | _, _, _ => none

/-- Before the loop the main thread sets the two times that a report reads, without the mutex. -/
def unprotected : Thread → Unprotected → SendThreads → Option SendThreads
  | .main, .startTime now, s =>
      if s.point = .startTime then
        some { setStats (fun g => { g with startTime := now }) s with point := .lastStatsTime }
      else none
  | .main, .lastStatsTime, s =>
      if s.point = .lastStatsTime then
        some { setStats (fun g => { g with lastStatsTime := g.startTime }) s with
          point := .loopTest }
      else none
  | t, u, s => loopUnprotected host config t u s

/-- The threads from the first loop test on. -/
def sendLoop : Program SendThreads Thread MutexSection Unprotected where
  owner
    | .account _ => .main
    | .report _ => .stats
    | .final _ => .main
  enter
    | .account result, s => s.point = .publish result ∧ accounted result = true
    | .report _, s => s.reporter = .report
    | .final _, s => s.point = .finalReport
  statements
    | .account result => accountStatements config result
    | .report now => reportStatements now
    | .final now => finalStatements now
  leave
    | .account result, s => { s with point := .published (publishCode result) }
    | .report _, s => { s with reporter := .loopTest }
    | .final _, s => { s with point := .done }
  free := loopUnprotected host config

def program : Program SendThreads Thread MutexSection Unprotected :=
  { sendLoop host config with free := unprotected host config }

/-- The threads when `pthread_create` has returned; the statistics are still zero. -/
def sendThreads (garbage : ℕ → UInt8) (stopped : Bool) (reporter : ReporterPoint)
    (locals : ReportLocals) : SendThreads where
  publisher := startPublisher config garbage 0 stopped
  point := .startTime
  reporter := reporter
  locals := locals
  ledger := Ledger.empty
  final := none

end Code

section Moves

variable (host : ByteOrder) (config : Config)

abbrev SendAction := Action Thread MutexSection Unprotected

abbrev SendLabel := Whole Thread MutexSection Unprotected

/-- The indivisible steps of the loop, one by one. -/
inductive Moves (s : SendThreads) : SendLabel → SendThreads → Prop
  | account {result : Int} : s.point = .publish result → accounted result = true →
      Moves s (.whole (.account result))
        { s with
          publisher := { s.publisher with
            stats := (publishMessage s.publisher.stats config.messageSize result).1 }
          ledger := if 0 < result then s.ledger.count config.messageSize.toNat else s.ledger
          point := .published (publishMessage s.publisher.stats config.messageSize result).2 }
  | report (now : TimestampNs) (locals : ReportLocals) : s.reporter = .report →
      Moves s (.whole (.report now))
        { s with
          publisher := { s.publisher with stats := (printIntervalStats s.publisher.stats now).1 }
          ledger := s.ledger.report (publisherMarks s.publisher.stats) now
            (printIntervalStats s.publisher.stats now).2
          locals := locals
          reporter := .loopTest }
  | final (now : TimestampNs) : s.point = .finalReport →
      Moves s (.whole (.final now))
        { s with final := some (printFinalStats s.publisher.stats now), point := .done }
  | turn (clock : TimestampNs) (result : Int) : s.point = .loopTest →
      sendGuard config s.publisher = true →
      Moves s (.free .main (.turn clock result))
        { s with publisher := offerMessage host config clock s.publisher, point := .publish result }
  | loopEnds : s.point = .loopTest → sendGuard config s.publisher = false →
      Moves s (.free .main .loopEnds) { s with point := .stopping }
  | skipAccount {result : Int} : s.point = .publish result → accounted result = false →
      Moves s (.free .main .skipAccount) { s with point := .published result }
  | afterPublish {code : Int} : s.point = .published code →
      Moves s (.free .main .afterPublish)
        { s with publisher := afterPublish config s.publisher code, point := .loopTest }
  | stop : s.point = .stopping →
      Moves s (.free .main .stop)
        { s with publisher := { s.publisher with running := false }, point := .joining }
  | join : s.point = .joining → s.reporter = .finished →
      Moves s (.free .main .join) { s with point := .finalReport }
  | reporter {next : ReporterPoint} : statsThread s.publisher.running s.reporter = some next →
      Moves s (.free .stats .reporter) { s with reporter := next }
  | signal :
      Moves s (.free .signal .signal)
        { s with publisher := { s.publisher with running := false } }

variable {host config} {s s' : SendThreads}

theorem moves_of_unprotected {t : Thread} {u : Unprotected}
    (h : loopUnprotected host config t u s = some s') : Moves host config s (.free t u) s' := by
  cases t with
  | main =>
    cases u with
    | startTime now => cases h
    | lastStatsTime => cases h
    | turn clock result =>
      obtain ⟨⟨hpoint, hguard⟩, hnext⟩ := Option.ite_none_right_eq_some.mp h
      cases hnext
      exact .turn clock result hpoint hguard
    | loopEnds =>
      obtain ⟨⟨hpoint, hguard⟩, hnext⟩ := Option.ite_none_right_eq_some.mp h
      cases hnext
      exact .loopEnds hpoint hguard
    | skipAccount =>
      simp only [loopUnprotected] at h
      split at h
      · rename_i result hpoint
        obtain ⟨hnot, hnext⟩ := Option.ite_none_left_eq_some.mp h
        cases hnext
        exact .skipAccount hpoint (Bool.eq_false_iff.mpr hnot)
      · cases h
    | afterPublish =>
      simp only [loopUnprotected] at h
      split at h
      · rename_i code hpoint
        cases h
        exact .afterPublish hpoint
      · cases h
    | stop =>
      obtain ⟨hpoint, hnext⟩ := Option.ite_none_right_eq_some.mp h
      cases hnext
      exact .stop hpoint
    | join =>
      obtain ⟨⟨hpoint, hfinished⟩, hnext⟩ := Option.ite_none_right_eq_some.mp h
      cases hnext
      exact .join hpoint hfinished
    | reporter => cases h
    | signal => cases h
  | stats =>
    cases u with
    | reporter =>
      obtain ⟨next, hnext, rfl⟩ := Option.map_eq_some_iff.mp h
      exact .reporter hnext
    | _ => cases h
  | signal =>
    cases u with
    | signal =>
      cases h
      exact .signal
    | _ => cases h

/-- The main thread does not move the statistics thread. -/
theorem main_reporter {u : Unprotected} (h : loopUnprotected host config .main u s = some s') :
    s'.reporter = s.reporter := by
  cases moves_of_unprotected h <;> rfl

theorem signal_reporter {u : Unprotected} (h : loopUnprotected host config .signal u s = some s') :
    s'.reporter = s.reporter := by
  cases moves_of_unprotected h
  rfl

/-- Neither the statistics thread nor a signal moves the main thread. -/
theorem others_point {t : Thread} {u : Unprotected} (ht : t ≠ .main)
    (h : loopUnprotected host config t u s = some s') : s'.point = s.point := by
  cases moves_of_unprotected h with
  | reporter _ => rfl
  | signal => rfl
  | _ => exact absurd rfl ht

end Moves

section Commits

variable (host : ByteOrder) (config : Config)

/-- No statement under the mutex is seen outside it, so each section commits with its first. -/
def firstStatement (_ : MutexSection) : ℕ := 0

/-- The main thread writes nothing under the mutex that the statistics thread or the signal
handler depend on outside it. -/
theorem invisible_main {f : SendThreads → SendThreads} {e : MutexSection}
    (howner : (sendLoop host config).owner e = .main)
    (hreporter : ∀ s next, f { s with reporter := next } = { f s with reporter := next })
    (hsame : ∀ s, (f s).reporter = s.reporter)
    (hstop : ∀ s, f { s with publisher := { s.publisher with running := false } } =
      { f s with publisher := { (f s).publisher with running := false } })
    (hrunning : ∀ s, (f s).publisher.running = s.publisher.running) :
    Invisible (sendLoop host config) e f := by
  intro t u s ht _
  rw [howner] at ht
  cases t with
  | main => exact absurd rfl ht
  | stats =>
    cases u with
    | reporter =>
      simp only [sendLoop, loopUnprotected, hsame, hrunning, Option.map_map]
      congr 1
      funext next
      exact (hreporter s next).symm
    | _ => rfl
  | signal =>
    cases u with
    | signal => exact congrArg some (hstop s).symm
    | _ => rfl

/-- A statement of the report: it computes with the statistics and its own variables. -/
def reportStatement (stats : PublisherStats → ReportLocals → PublisherStats)
    (locals : PublisherStats → ReportLocals → ReportLocals)
    (ledger : PublisherStats → ReportLocals → Ledger → Ledger) (s : SendThreads) : SendThreads :=
  { s with
    publisher := { s.publisher with stats := stats s.publisher.stats s.locals }
    locals := locals s.publisher.stats s.locals
    ledger := ledger s.publisher.stats s.locals s.ledger }

theorem afterPublish_stats (p : Publisher) (code : Int) (g : PublisherStats) :
    afterPublish config { p with stats := g } code =
      { afterPublish config p code with stats := g } := by
  unfold afterPublish
  split_ifs <;> rfl

/-- Outside the mutex the main thread does not touch the statistics. -/
theorem invisible_reportStatement (now : TimestampNs)
    (stats : PublisherStats → ReportLocals → PublisherStats)
    (locals : PublisherStats → ReportLocals → ReportLocals)
    (ledger : PublisherStats → ReportLocals → Ledger → Ledger) :
    Invisible (sendLoop host config) (.report now) (reportStatement stats locals ledger) := by
  intro t u s ht _
  cases t with
  | stats => exact absurd rfl ht
  | signal => cases u <;> rfl
  | main =>
    have hguard : ∀ p g, sendGuard config { p with stats := g } = sendGuard config p :=
      fun _ _ => rfl
    obtain ⟨p, point, reporter, l, d, final⟩ := s
    simp only [sendLoop, reportStatement]
    cases u with
    | startTime now => rfl
    | lastStatsTime => rfl
    | turn clock result =>
      simp only [loopUnprotected, hguard]
      split_ifs <;> rfl
    | loopEnds =>
      simp only [loopUnprotected, hguard]
      split_ifs <;> rfl
    | skipAccount =>
      cases point with
      | publish result =>
        simp only [loopUnprotected]
        split_ifs <;> rfl
      | _ => rfl
    | afterPublish =>
      cases point with
      | published code =>
        have hstats : (afterPublish config p code).stats = p.stats := by
          unfold afterPublish
          split_ifs <;> rfl
        simp only [loopUnprotected, Option.map_some, afterPublish_stats, reportStatement, hstats]
      | _ => rfl
    | stop =>
      simp only [loopUnprotected]
      split_ifs <;> rfl
    | join =>
      simp only [loopUnprotected]
      split_ifs <;> rfl
    | reporter => rfl
    | signal => rfl

theorem setLocals_eq (locals : PublisherStats → ReportLocals → ReportLocals) :
    setLocals locals = reportStatement (fun g _ => g) locals (fun _ _ d => d) := rfl

theorem mem_reportStatements {now : TimestampNs} {f : SendThreads → SendThreads}
    (hf : f ∈ reportStatements now) :
    ∃ stats locals ledger, f = reportStatement stats locals ledger := by
  simp only [reportStatements, List.mem_cons, List.not_mem_nil, or_false] at hf
  rcases hf with rfl | rfl | rfl | rfl | rfl | rfl | rfl | rfl | rfl
  · exact ⟨_, _, _, setLocals_eq _⟩
  · exact ⟨_, _, _, setLocals_eq _⟩
  · exact ⟨_, _, _, setLocals_eq _⟩
  · exact ⟨_, _, _, setLocals_eq _⟩
  · exact ⟨_, _, _, setLocals_eq _⟩
  · exact ⟨fun g _ => g, fun _ l => l,
      fun g l d => d.report (seenMarks (publisherMarks g) l) l.currentTime
        (throughput l.intervalMessages l.intervalBytes l.intervalTime), rfl⟩
  · exact ⟨fun g l => { g with lastStatsTime := l.currentTime }, fun _ l => l, fun _ _ d => d, rfl⟩
  · exact ⟨fun g _ => { g with lastMessagesSent := g.messagesSent }, fun _ l => l,
      fun _ _ d => d, rfl⟩
  · exact ⟨fun g _ => { g with lastBytesSent := g.bytesSent }, fun _ l => l, fun _ _ d => d, rfl⟩

theorem commits_firstStatement : Commits (sendLoop host config) firstStatement where
  inside e := by
    cases e with
    | account result =>
      simp only [sendLoop, accountStatements, firstStatement]
      split_ifs <;> simp
    | report now => simp [sendLoop, reportStatements, firstStatement]
    | final now => simp [sendLoop, finalStatements, firstStatement]
  invisible e k f hf _ := by
    have hmem := List.mem_of_getElem? hf
    cases e with
    | account result =>
      simp only [sendLoop, accountStatements] at hmem
      split_ifs at hmem
      · simp only [List.mem_cons, List.not_mem_nil, or_false] at hmem
        rcases hmem with rfl | rfl
        · exact invisible_main host config rfl (fun _ _ => rfl) (fun _ => rfl) (fun _ => rfl)
            (fun _ => rfl)
        · exact invisible_main host config rfl (fun _ _ => rfl) (fun _ => rfl) (fun _ => rfl)
            (fun _ => rfl)
      · rw [List.mem_singleton.mp hmem]
        exact invisible_main host config rfl (fun _ _ => rfl) (fun _ => rfl) (fun _ => rfl)
            (fun _ => rfl)
      · rw [List.mem_singleton.mp hmem]
        exact invisible_main host config rfl (fun _ _ => rfl) (fun _ => rfl) (fun _ => rfl)
            (fun _ => rfl)
    | report now =>
      obtain ⟨stats, locals, ledger, rfl⟩ := mem_reportStatements hmem
      exact invisible_reportStatement host config now stats locals ledger
    | final now =>
      rw [List.mem_singleton.mp hmem]
      exact invisible_main host config rfl (fun _ _ => rfl) (fun _ => rfl) (fun _ => rfl)
            (fun _ => rfl)
  invisible_leave e := by
    cases e with
    | account result =>
      exact invisible_main host config rfl (fun _ _ => rfl) (fun _ => rfl) (fun _ => rfl)
            (fun _ => rfl)
    | report now =>
      intro t u s ht hs
      have hreporter : s.reporter = .report := of_decide_eq_true hs
      cases t with
      | stats => exact absurd rfl ht
      | signal => cases u <;> rfl
      | main =>
        obtain ⟨p, point, reporter, l, d, final⟩ := s
        cases hreporter
        simp only [sendLoop]
        cases u with
        | startTime now => rfl
        | lastStatsTime => rfl
        | turn clock result =>
          simp only [loopUnprotected]
          split_ifs <;> rfl
        | loopEnds =>
          simp only [loopUnprotected]
          split_ifs <;> rfl
        | skipAccount =>
          cases point with
          | publish result =>
            simp only [loopUnprotected]
            split_ifs <;> rfl
          | _ => rfl
        | afterPublish => cases point <;> rfl
        | stop =>
          simp only [loopUnprotected]
          split_ifs <;> rfl
        | join => simp [loopUnprotected]
        | reporter => rfl
        | signal => rfl
    | final now =>
      exact invisible_main host config rfl (fun _ _ => rfl) (fun _ => rfl) (fun _ => rfl)
            (fun _ => rfl)
  stays e s f hf hs := by
    cases e with
    | account result =>
      simp only [sendLoop, accountStatements] at hf
      split_ifs at hf
      · simp only [List.mem_cons, List.not_mem_nil, or_false] at hf
        rcases hf with rfl | rfl
        · exact hs
        · exact hs
      · rw [List.mem_singleton.mp hf]
        exact hs
      · rw [List.mem_singleton.mp hf]
        exact hs
    | report now =>
      obtain ⟨stats, locals, ledger, rfl⟩ := mem_reportStatements hf
      exact hs
    | final now =>
      rw [List.mem_singleton.mp hf]
      exact hs
  waits e t u s s' ht hfree hs := by
    cases e with
    | account result =>
      simp only [sendLoop] at hs ⊢
      rw [others_point ht hfree]
      exact hs
    | report now =>
      have hreporter : s'.reporter = s.reporter := by
        cases t with
        | main => exact main_reporter hfree
        | stats => exact absurd rfl ht
        | signal => exact signal_reporter hfree
      simp only [sendLoop] at hs ⊢
      rw [hreporter]
      exact hs
    | final now =>
      simp only [sendLoop] at hs ⊢
      rw [others_point ht hfree]
      exact hs

end Commits

section Sections

variable (host : ByteOrder) (config : Config)

end Sections

end AeronFast.ThreadedPublisher
