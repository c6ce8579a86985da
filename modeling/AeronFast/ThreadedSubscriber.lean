import AeronFast.IntervalTiling
import AeronFast.LockedSections
import AeronFast.ReporterProtocol

/-!
The subscriber as two threads and a signal, statement by statement, from
`pthread_create`, behind which the receive loop begins, to the end of
`run_subscriber`. The handler's statements under `stats_mutex` are steps of
their own. The statistics thread tests `running` and then `messages_received`,
both without the mutex, so it may see a message whose other figures are still to
be counted; the section of the handler commits with that first statement. A poll
delivers at most as many fragments as the configuration allows it.
-/
namespace AeronFast.ThreadedSubscriber

open CommonTypes ByteBuffers BinaryMessage Recorders BinarySubscriber Throughput LabelledRuns
open IntervalLedgers IntervalTiling LockedSections ReporterProtocol

/-- Where the main thread is in `run_subscriber` and the handler it passes to the poll. -/
inductive PollPoint
  | loopTest
  | polling
  | counting (f : Fragment)
  | targetTest (receiveTimestamp : TimestampNs)
  | stopping
  | joining
  | finalReport
  | done
  deriving DecidableEq, Repr

/-- The local variables of `print_realtime_stats`. -/
structure RealtimeLocals where
  currentTime : TimestampNs
  intervalTime : UInt64
  intervalMessages : UInt64
  intervalBytes : UInt64
  deriving DecidableEq, Repr

structure PollThreads where
  subscriber : Subscriber
  point : PollPoint
  /-- how many fragments the poll may still deliver -/
  fragmentsLeft : ℕ
  reporter : ReporterPoint
  locals : RealtimeLocals
  /-- the messages counted and the intervals printed -/
  ledger : Ledger
  final : Option FinalReport

/-- The sections under `stats_mutex`: the handler's bookkeeping for one fragment, and the two
reports. -/
inductive MutexSection
  | count (f : Fragment)
  | report (now : TimestampNs)
  | final
  deriving DecidableEq, Repr

inductive Unprotected
  | poll
  | fragment (f : Fragment)
  | target
  | pollReturned (result : Int)
  | loopEnds (now : TimestampNs)
  | stop
  | join
  | reporter
  | signal
  deriving DecidableEq, Repr

def setStats (f : SubscriberStats → SubscriberStats) (s : PollThreads) : PollThreads :=
  { s with subscriber := { s.subscriber with stats := f s.subscriber.stats } }

def setLocals (f : SubscriberStats → RealtimeLocals → RealtimeLocals) (s : PollThreads) :
    PollThreads :=
  { s with locals := f s.subscriber.stats s.locals }

section Code

variable (host : ByteOrder) (config : Config)

/-- The call of `record_latency` at the end of the handler's section. -/
def recordStatement (latency : UInt64) (s : PollThreads) : PollThreads :=
  { s with subscriber := { s.subscriber with
      stats := { s.subscriber.stats with
        latencyStats := s.subscriber.stats.latencyStats.map (fun q => recordLatency q latency) }
      recorded := if s.subscriber.stats.latencyStats.isSome
        then s.subscriber.recorded ++ [latency] else s.subscriber.recorded } }

def countStatements (f : Fragment) : List (PollThreads → PollThreads) :=
  let latency := fragmentLatency host f
  [setStats (fun g => { g with messagesReceived := g.messagesReceived + 1 }),
    fun s => { setStats (fun g => { g with
        bytesReceived := g.bytesReceived + UInt64.ofNat f.buffer.length }) s
      with ledger := s.ledger.count f.buffer.length },
    setStats (fun g => { g with fragmentsReceived := g.fragmentsReceived + 1 }),
    setStats (fun g => { g with
      minLatency := if latency < g.minLatency then latency else g.minLatency }),
    setStats (fun g => { g with
      maxLatency := if g.maxLatency < latency then latency else g.maxLatency }),
    setStats (fun g => { g with totalLatency := g.totalLatency + latency }),
    recordStatement latency]

/-- The marks from which the local variables were computed. -/
def seenMarks (m : Marks) (l : RealtimeLocals) : Marks :=
  m.seen l.currentTime l.intervalTime l.intervalMessages l.intervalBytes

/-- The line of an interval: the totals as they are, and the rates that the local variables give. -/
def printInterval (s : PollThreads) : PollThreads :=
  { s with
    ledger := s.ledger.report (seenMarks (subscriberMarks s.subscriber.stats) s.locals)
      s.locals.currentTime
      (throughput s.locals.intervalMessages s.locals.intervalBytes s.locals.intervalTime) }

/-- `print_realtime_stats`; the line is printed when the interval has a length. -/
def reportStatements (now : TimestampNs) : List (PollThreads → PollThreads) :=
  [setLocals (fun _ l => { l with currentTime := now }),
    setLocals (fun g l => { l with intervalTime := l.currentTime - g.lastStatsTime }),
    setLocals (fun g l => { l with
      intervalMessages := g.messagesReceived - g.lastMessagesReceived }),
    setLocals (fun g l => { l with intervalBytes := g.bytesReceived - g.lastBytesReceived }),
    printInterval,
    fun s => setStats (fun g => { g with lastStatsTime := s.locals.currentTime }) s,
    setStats (fun g => { g with lastMessagesReceived := g.messagesReceived }),
    setStats (fun g => { g with lastBytesReceived := g.bytesReceived })]

def finalStatements : List (PollThreads → PollThreads) :=
  [fun s => { s with final := some (printFinalStats s.subscriber.stats) }]

/-- The next unprotected statement of `stats_thread`. -/
def statsThread (s : Subscriber) : ReporterPoint → Option ReporterPoint
  | .loopTest => some (if s.running then .countTest else .finished)
  | .countTest =>
      some (if s.stats.messagesReceived < s.targetMessages then .sleeping else .finished)
  | .sleeping => some .runningTest
  | .runningTest => some (if s.running then .report else .loopTest)
  | _ => none

/-- The `fragment_limit` of the configuration, as the `size_t` that the poll takes. -/
def pollLimit : ℕ := (config.fragmentLimit % 2 ^ 64).toNat

/-- The count of the polls at the head of the loop's body. -/
def countPoll (s : Subscriber) : Subscriber :=
  { s with stats := { s.stats with pollingIterations := s.stats.pollingIterations + 1 } }

def unprotected : Thread → Unprotected → PollThreads → Option PollThreads
  | .main, .poll, s =>
      if s.point = .loopTest ∧ pollGuard s.subscriber = true then
        some { s with
          subscriber := countPoll s.subscriber
          point := .polling
          fragmentsLeft := pollLimit config }
      else none
  | .main, .fragment f, s =>
      if s.point = .polling ∧ 0 < s.fragmentsLeft then
        some { s with
          point := if f.buffer.length < timestampSize then .polling else .counting f
          fragmentsLeft := s.fragmentsLeft - 1 }
      else none
  | .main, .target, s =>
      match s.point with
      | .targetTest now =>
          some { s with subscriber := checkTarget now s.subscriber, point := .polling }
      | _ => none
  | .main, .pollReturned result, s =>
      if s.point = .polling then
        some { s with
          subscriber := { s.subscriber with pollFailed := result < 0 }
          point := .loopTest }
      else none
  | .main, .stop, s =>
      if s.point = .stopping then
        some { s with subscriber := { s.subscriber with running := false }, point := .joining }
      else none
  | .main, .join, s =>
      if s.point = .joining ∧ s.reporter = .finished then some { s with point := .finalReport }
      else none
  | .stats, .reporter, s =>
      (statsThread s.subscriber s.reporter).map (fun next => { s with reporter := next })
  | .signal, .signal, s => some { s with subscriber := { s.subscriber with running := false } }
  | .main, .loopEnds now, s =>
      if s.point = .loopTest ∧ pollGuard s.subscriber = false then
        some { s with subscriber := setEndTime now s.subscriber, point := .stopping }
      else none
  | _, _, _ => none

/-- Behind the final report the main thread drops the statistics object and returns. -/
def program : Program PollThreads Thread MutexSection Unprotected where
  owner
    | .count _ => .main
    | .report _ => .stats
    | .final => .main
  enter
    | .count f, s => s.point = .counting f
    | .report _, s => s.reporter = .report
    | .final, s => s.point = .finalReport
  statements
    | .count f => countStatements host f
    | .report now => reportStatements now
    | .final => finalStatements
  leave
    | .count f, s => { s with point := .targetTest f.clock }
    | .report _, s => { s with reporter := .loopTest }
    | .final, s => { s with subscriber := cleanupSubscriberStats s.subscriber, point := .done }
  free := unprotected config

/-- The threads when `pthread_create` has returned; the statistics are initialised. -/
def pollThreads (target : UInt64) (startTime : TimestampNs) (stopped : Bool)
    (reporter : ReporterPoint) (locals : RealtimeLocals) : PollThreads where
  subscriber := startSubscriber target startTime stopped
  point := .loopTest
  fragmentsLeft := 0
  reporter := reporter
  locals := locals
  ledger := Ledger.empty
  final := none

end Code

section Moves

variable (host : ByteOrder) (config : Config)

abbrev PollAction := Action Thread MutexSection Unprotected

abbrev PollLabel := Whole Thread MutexSection Unprotected

/-- The indivisible steps, one by one. -/
inductive Moves (s : PollThreads) : PollLabel → PollThreads → Prop
  | count {f : Fragment} : s.point = .counting f →
      Moves s (.whole (.count f))
        { s with
          subscriber := countFragment host f s.subscriber
          ledger := s.ledger.count f.buffer.length
          point := .targetTest f.clock }
  | report (now : TimestampNs) (locals : RealtimeLocals) : s.reporter = .report →
      Moves s (.whole (.report now))
        { s with
          subscriber := { s.subscriber with
            stats := (printRealtimeStats s.subscriber.stats now).1 }
          ledger := s.ledger.report (subscriberMarks s.subscriber.stats) now
            (printRealtimeStats s.subscriber.stats now).2
          locals := locals
          reporter := .loopTest }
  | final : s.point = .finalReport →
      Moves s (.whole .final)
        { s with
          subscriber := cleanupSubscriberStats s.subscriber
          final := some (printFinalStats s.subscriber.stats)
          point := .done }
  | poll : s.point = .loopTest → pollGuard s.subscriber = true →
      Moves s (.free .main .poll)
        { s with
          subscriber := countPoll s.subscriber
          point := .polling
          fragmentsLeft := pollLimit config }
  | shortFragment {f : Fragment} : s.point = .polling → 0 < s.fragmentsLeft →
      f.buffer.length < timestampSize →
      Moves s (.free .main (.fragment f))
        { s with point := .polling, fragmentsLeft := s.fragmentsLeft - 1 }
  | fragment {f : Fragment} : s.point = .polling → 0 < s.fragmentsLeft →
      ¬f.buffer.length < timestampSize →
      Moves s (.free .main (.fragment f))
        { s with point := .counting f, fragmentsLeft := s.fragmentsLeft - 1 }
  | target {now : TimestampNs} : s.point = .targetTest now →
      Moves s (.free .main .target)
        { s with subscriber := checkTarget now s.subscriber, point := .polling }
  | pollReturned (result : Int) : s.point = .polling →
      Moves s (.free .main (.pollReturned result))
        { s with subscriber := { s.subscriber with pollFailed := result < 0 }, point := .loopTest }
  | loopEnds (now : TimestampNs) : s.point = .loopTest → pollGuard s.subscriber = false →
      Moves s (.free .main (.loopEnds now))
        { s with subscriber := setEndTime now s.subscriber, point := .stopping }
  | stop : s.point = .stopping →
      Moves s (.free .main .stop)
        { s with subscriber := { s.subscriber with running := false }, point := .joining }
  | join : s.point = .joining → s.reporter = .finished →
      Moves s (.free .main .join) { s with point := .finalReport }
  | reporter {next : ReporterPoint} : statsThread s.subscriber s.reporter = some next →
      Moves s (.free .stats .reporter) { s with reporter := next }
  | signal :
      Moves s (.free .signal .signal)
        { s with subscriber := { s.subscriber with running := false } }

variable {host config} {s s' : PollThreads}

theorem moves_of_unprotected (host : ByteOrder) {t : Thread} {u : Unprotected}
    (h : unprotected config t u s = some s') : Moves host config s (.free t u) s' := by
  cases t with
  | main =>
    cases u with
    | poll =>
      obtain ⟨⟨hpoint, hguard⟩, hnext⟩ := Option.ite_none_right_eq_some.mp h
      cases hnext
      exact .poll hpoint hguard
    | fragment f =>
      obtain ⟨⟨hpoint, hleft⟩, hnext⟩ := Option.ite_none_right_eq_some.mp h
      cases hnext
      by_cases hshort : f.buffer.length < timestampSize
      · rw [if_pos hshort]
        exact .shortFragment hpoint hleft hshort
      · rw [if_neg hshort]
        exact .fragment hpoint hleft hshort
    | target =>
      simp only [unprotected] at h
      split at h
      · rename_i now hpoint
        cases h
        exact .target hpoint
      · cases h
    | pollReturned result =>
      obtain ⟨hpoint, hnext⟩ := Option.ite_none_right_eq_some.mp h
      cases hnext
      exact .pollReturned result hpoint
    | loopEnds now =>
      obtain ⟨⟨hpoint, hguard⟩, hnext⟩ := Option.ite_none_right_eq_some.mp h
      cases hnext
      exact .loopEnds now hpoint hguard
    | stop =>
      obtain ⟨hpoint, hnext⟩ := Option.ite_none_right_eq_some.mp h
      cases hnext
      exact .stop hpoint
    | join =>
      obtain ⟨⟨hpoint, hfinished⟩, hnext⟩ := Option.ite_none_right_eq_some.mp h
      cases hnext
      exact .join hpoint hfinished
    | reporter => cases h
    | signal => cases h
  | stats =>
    cases u with
    | reporter =>
      obtain ⟨next, hnext, rfl⟩ := Option.map_eq_some_iff.mp h
      exact .reporter hnext
    | _ => cases h
  | signal =>
    cases u with
    | signal =>
      cases h
      exact .signal
    | _ => cases h

/-- The main thread does not move the statistics thread. -/
theorem main_reporter {u : Unprotected} (h : unprotected config .main u s = some s') :
    s'.reporter = s.reporter := by
  cases moves_of_unprotected .little h <;> rfl

theorem signal_reporter {u : Unprotected} (h : unprotected config .signal u s = some s') :
    s'.reporter = s.reporter := by
  cases moves_of_unprotected .little h
  rfl

/-- Neither the statistics thread nor a signal moves the main thread. -/
theorem others_point {t : Thread} {u : Unprotected} (ht : t ≠ .main)
    (h : unprotected config t u s = some s') : s'.point = s.point := by
  cases moves_of_unprotected .little h with
  | reporter _ => rfl
  | signal => rfl
  | _ => exact absurd rfl ht

end Moves

section Commits

variable (host : ByteOrder) (config : Config)

/-- The handler's section is seen outside with its first statement, a report not at all. -/
def firstStatement (_ : MutexSection) : ℕ := 0

/-- The main thread writes nothing under the mutex that the statistics thread or the signal
handler depend on outside it, but the count of messages. -/
theorem invisible_main {f : PollThreads → PollThreads} {e : MutexSection}
    (howner : (program host config).owner e = .main)
    (hreporter : ∀ s next, f { s with reporter := next } = { f s with reporter := next })
    (hstop : ∀ s, f { s with subscriber := { s.subscriber with running := false } } =
      { f s with subscriber := { (f s).subscriber with running := false } })
    (hsame : ∀ s, (f s).reporter = s.reporter ∧
      (f s).subscriber.running = s.subscriber.running ∧
      (f s).subscriber.targetMessages = s.subscriber.targetMessages ∧
      (f s).subscriber.stats.messagesReceived = s.subscriber.stats.messagesReceived) :
    Invisible (program host config) e f := by
  intro t u s ht _
  rw [howner] at ht
  obtain ⟨hplace, hrunning, htarget, hmessages⟩ := hsame s
  have hthread : ∀ r, statsThread (f s).subscriber r = statsThread s.subscriber r := by
    intro r
    simp only [statsThread, hrunning, htarget, hmessages]
  cases t with
  | main => exact absurd rfl ht
  | stats =>
    cases u with
    | reporter =>
      simp only [program, unprotected, hplace, hthread, Option.map_map]
      congr 1
      funext next
      exact (hreporter s next).symm
    | _ => rfl
  | signal =>
    cases u with
    | signal => exact congrArg some (hstop s).symm
    | _ => rfl

/-- The marks of the last report are written. -/
def setLast (last : TimestampNs × UInt64 × UInt64) (s : Subscriber) : Subscriber :=
  { s with stats := { s.stats with
      lastStatsTime := last.1
      lastMessagesReceived := last.2.1
      lastBytesReceived := last.2.2 } }

theorem setEndTime_setLast (last : TimestampNs × UInt64 × UInt64) (now : TimestampNs)
    (s : Subscriber) : setEndTime now (setLast last s) = setLast last (setEndTime now s) := by
  by_cases hzero : s.stats.endTime = 0
  · have hset : setEndTime now s = { s with stats := { s.stats with endTime := now } } :=
      if_pos hzero
    rw [hset]
    exact if_pos hzero
  · have hset : setEndTime now s = s := if_neg hzero
    rw [hset]
    exact if_neg hzero

theorem checkTarget_setLast (last : TimestampNs × UInt64 × UInt64) (now : TimestampNs)
    (s : Subscriber) : checkTarget now (setLast last s) = setLast last (checkTarget now s) := by
  by_cases hreached : s.targetMessages ≤ s.stats.messagesReceived
  · have hset : checkTarget now s =
        { s with stats := { s.stats with endTime := now }, running := false } := if_pos hreached
    rw [hset]
    exact if_pos hreached
  · have hset : checkTarget now s = s := if_neg hreached
    rw [hset]
    exact if_neg hreached

/-- A statement of the report computes with the marks and its own variables, and writes the marks
of the last report. -/
def reportStatement (last : Marks → RealtimeLocals → TimestampNs × UInt64 × UInt64)
    (locals : Marks → RealtimeLocals → RealtimeLocals)
    (ledger : Marks → RealtimeLocals → Ledger → Ledger) (s : PollThreads) : PollThreads :=
  let m := subscriberMarks s.subscriber.stats
  { s with
    subscriber := setLast (last m s.locals) s.subscriber
    locals := locals m s.locals
    ledger := ledger m s.locals s.ledger }

/-- The marks of the last report as they are. -/
def oldMarks (m : Marks) (_ : RealtimeLocals) : TimestampNs × UInt64 × UInt64 :=
  (m.lastStatsTime, m.lastMessages, m.lastBytes)

theorem mem_reportStatements {now : TimestampNs} {f : PollThreads → PollThreads}
    (hf : f ∈ reportStatements now) :
    ∃ last locals ledger, f = reportStatement last locals ledger := by
  simp only [reportStatements, List.mem_cons, List.not_mem_nil, or_false] at hf
  rcases hf with rfl | rfl | rfl | rfl | rfl | rfl | rfl | rfl
  · exact ⟨oldMarks, fun _ l => { l with currentTime := now }, fun _ _ d => d, rfl⟩
  · exact ⟨oldMarks, fun m l => { l with intervalTime := l.currentTime - m.lastStatsTime },
      fun _ _ d => d, rfl⟩
  · exact ⟨oldMarks, fun m l => { l with intervalMessages := m.messages - m.lastMessages },
      fun _ _ d => d, rfl⟩
  · exact ⟨oldMarks, fun m l => { l with intervalBytes := m.bytes - m.lastBytes },
      fun _ _ d => d, rfl⟩
  · exact ⟨oldMarks, fun _ l => l, fun m l d => d.report (seenMarks m l) l.currentTime
      (throughput l.intervalMessages l.intervalBytes l.intervalTime), rfl⟩
  · exact ⟨fun m l => (l.currentTime, m.lastMessages, m.lastBytes), fun _ l => l,
      fun _ _ d => d, rfl⟩
  · exact ⟨fun m _ => (m.lastStatsTime, m.messages, m.lastBytes), fun _ l => l,
      fun _ _ d => d, rfl⟩
  · exact ⟨fun m _ => (m.lastStatsTime, m.lastMessages, m.bytes), fun _ l => l,
      fun _ _ d => d, rfl⟩

/-- Outside the mutex the main thread does not touch what a report works with. -/
theorem invisible_reportStatement (now : TimestampNs)
    (last : Marks → RealtimeLocals → TimestampNs × UInt64 × UInt64)
    (locals : Marks → RealtimeLocals → RealtimeLocals)
    (ledger : Marks → RealtimeLocals → Ledger → Ledger) :
    Invisible (program host config) (.report now) (reportStatement last locals ledger) := by
  intro t u s ht _
  cases t with
  | stats => exact absurd rfl ht
  | signal => cases u <;> rfl
  | main =>
    obtain ⟨p, point, left, reporter, l, d, final⟩ := s
    cases u with
    | poll => exact guarded_map Iff.rfl rfl
    | fragment f => exact guarded_map Iff.rfl rfl
    | pollReturned result => exact guarded_map Iff.rfl rfl
    | stop => exact guarded_map Iff.rfl rfl
    | join => exact guarded_map Iff.rfl rfl
    | loopEnds now =>
      refine guarded_map Iff.rfl ?_
      simp only [reportStatement, setEndTime_setLast, subscriberMarks_setEndTime]
    | target =>
      cases point with
      | targetTest now =>
        simp only [program, unprotected, reportStatement, checkTarget_setLast, Option.map_some,
          subscriberMarks_checkTarget]
      | _ => rfl
    | reporter => rfl
    | signal => rfl

theorem commits_firstStatement : Commits (program host config) firstStatement where
  inside e := by
    cases e with
    | count f => simp [program, countStatements, firstStatement]
    | report now => simp [program, reportStatements, firstStatement]
    | final => simp [program, finalStatements, firstStatement]
  invisible e k f hf hk := by
    cases e with
    | count fragment =>
      simp only [program, countStatements] at hf
      match k, hk with
      | 1, _ =>
        obtain rfl := Option.some.inj hf
        exact invisible_main host config rfl (fun _ _ => rfl) (fun _ => rfl)
          (fun _ => ⟨rfl, rfl, rfl, rfl⟩)
      | 2, _ =>
        obtain rfl := Option.some.inj hf
        exact invisible_main host config rfl (fun _ _ => rfl) (fun _ => rfl)
          (fun _ => ⟨rfl, rfl, rfl, rfl⟩)
      | 3, _ =>
        obtain rfl := Option.some.inj hf
        exact invisible_main host config rfl (fun _ _ => rfl) (fun _ => rfl)
          (fun _ => ⟨rfl, rfl, rfl, rfl⟩)
      | 4, _ =>
        obtain rfl := Option.some.inj hf
        exact invisible_main host config rfl (fun _ _ => rfl) (fun _ => rfl)
          (fun _ => ⟨rfl, rfl, rfl, rfl⟩)
      | 5, _ =>
        obtain rfl := Option.some.inj hf
        exact invisible_main host config rfl (fun _ _ => rfl) (fun _ => rfl)
          (fun _ => ⟨rfl, rfl, rfl, rfl⟩)
      | 6, _ =>
        obtain rfl := Option.some.inj hf
        exact invisible_main host config rfl (fun _ _ => rfl) (fun _ => rfl)
          (fun _ => ⟨rfl, rfl, rfl, rfl⟩)
      | 0, hk => exact absurd rfl hk
      | _ + 7, _ => cases hf
    | report now =>
      obtain ⟨last, locals, ledger, rfl⟩ := mem_reportStatements (List.mem_of_getElem? hf)
      exact invisible_reportStatement host config now last locals ledger
    | final =>
      rw [List.mem_singleton.mp (List.mem_of_getElem? hf)]
      exact invisible_main host config rfl (fun _ _ => rfl) (fun _ => rfl)
        (fun _ => ⟨rfl, rfl, rfl, rfl⟩)
  invisible_leave e := by
    cases e with
    | count f =>
      exact invisible_main host config rfl (fun _ _ => rfl) (fun _ => rfl)
        (fun _ => ⟨rfl, rfl, rfl, rfl⟩)
    | final =>
      exact invisible_main host config rfl (fun _ _ => rfl) (fun _ => rfl)
        (fun _ => ⟨rfl, rfl, rfl, rfl⟩)
    | report now =>
      intro t u s ht hs
      have hreporter : s.reporter = .report := of_decide_eq_true hs
      cases t with
      | stats => exact absurd rfl ht
      | signal => cases u <;> rfl
      | main =>
        cases u with
        | poll => exact guarded_map Iff.rfl rfl
        | fragment f => exact guarded_map Iff.rfl rfl
        | pollReturned result => exact guarded_map Iff.rfl rfl
        | loopEnds now => exact guarded_map Iff.rfl rfl
        | stop => exact guarded_map Iff.rfl rfl
        | join =>
          -- the statistics thread is not at its end on either side of the unlock
          refine guarded_map ?_ rfl
          simp [program, hreporter]
        | target =>
          simp only [program, unprotected]
          cases s.point <;> rfl
        | reporter => rfl
        | signal => rfl
  stays e s f hf hs := by
    cases e with
    | count fragment =>
      simp only [program, countStatements, List.mem_cons, List.not_mem_nil, or_false] at hf
      rcases hf with rfl | rfl | rfl | rfl | rfl | rfl | rfl <;> exact hs
    | report now =>
      obtain ⟨last, locals, ledger, rfl⟩ := mem_reportStatements hf
      exact hs
    | final =>
      rw [List.mem_singleton.mp hf]
      exact hs
  waits e t u s s' ht hfree hs := by
    cases e with
    | count f =>
      simp only [program] at hs ⊢
      rw [others_point ht hfree]
      exact hs
    | report now =>
      have hreporter : s'.reporter = s.reporter := by
        cases t with
        | main => exact main_reporter hfree
        | stats => exact absurd rfl ht
        | signal => exact signal_reporter hfree
      simp only [program] at hs ⊢
      rw [hreporter]
      exact hs
    | final =>
      simp only [program] at hs ⊢
      rw [others_point ht hfree]
      exact hs

end Commits

end AeronFast.ThreadedSubscriber
