import AeronFast.EndTime
import AeronFast.ReportedRates

/-!
Whole runs of the two threads of each program, and what the wait for the
statistics thread does to the final figures. The interval reports write only
their own marks, wherever they come, so a run is the run of the main thread
with the reports left out. The subscriber takes its end time before it joins
the thread; the publisher reads the clock afterwards, and the wait is part of
the duration it prints.
-/
namespace AeronFast.JoinDelay

open CommonTypes ByteBuffers ConfigParser LabelledRuns Throughput
open PublisherRuns SubscriberRuns SubscriberLoop SubscriberBooks EndTime ReportedRates

/-- The wait in `pthread_join`: the readings of the interval reports still made during it, and
the first reading of the main thread after it. -/
structure Join where
  reports : List TimestampNs
  now : TimestampNs

section Publisher

open BinaryPublisher

/-- The tail of `run_publisher`: `print_stats(true)` reads the clock after the join. -/
def publisherTail (p : Publisher) (join : Join) : FinalReport :=
  printFinalStats (join.reports.foldl (fun g now => (printIntervalStats g now).1) p.stats)
    join.now

def publisherFigures (r : FinalReport) : UInt64 × Option Rates := (r.totalDuration, r.rates)

theorem printFinalStats_reports (reports : List TimestampNs) (g : PublisherStats)
    (now : TimestampNs) :
    printFinalStats (reports.foldl (fun g now => (printIntervalStats g now).1) g) now =
      printFinalStats g now := by
  induction reports generalizing g with
  | nil => rfl
  | cons report rest ih =>
    rw [List.foldl_cons, ih]
    rfl

variable (host : ByteOrder) (config : Config)

/-- The marks of the last report as they were at the start. -/
def clearMarks (startTime : TimestampNs) (p : Publisher) : Publisher :=
  { p with stats := { p.stats with
      lastStatsTime := startTime, lastMessagesSent := 0, lastBytesSent := 0 } }

theorem clearMarks_sendIteration (startTime : TimestampNs) (it : Iteration) (p : Publisher) :
    clearMarks startTime (sendIteration host config it p) =
      sendIteration host config it (clearMarks startTime p) := by
  rcases Iteration.outcome_cases it with ⟨h, _, _⟩ | ⟨_, h, _⟩ | ⟨_, _, h⟩ | ⟨h1, h2, h3⟩
  · rw [sendIteration_sent host config it p h, sendIteration_sent host config it _ h]
    rfl
  · rw [sendIteration_backPressured host config it p h,
      sendIteration_backPressured host config it _ h]
    rfl
  · rw [sendIteration_refused host config it p h, sendIteration_refused host config it _ h]
    rfl
  · rw [sendIteration_unaccounted host config it p h1 h2 h3,
      sendIteration_unaccounted host config it _ h1 h2 h3]
    rfl

/-- The two threads have run, turns and reports in any order, to the end of the send loop. -/
structure SendLoopEnded (garbage : ℕ → UInt8) (startTime : TimestampNs) (stopped : Bool)
    (events : List PublisherEvent) (p : Publisher) : Prop where
  run : Run (PublisherEventStep host config) (startPublisher config garbage startTime stopped)
    events p
  halted : sendGuard config p = false

variable {host config} {garbage : ℕ → UInt8} {startTime : TimestampNs} {stopped : Bool}
variable {events : List PublisherEvent} {p : Publisher}

/-- Without its reports a run of both threads is a run of the send loop. -/
theorem sendRun_of_events
    (hrun : Run (PublisherEventStep host config)
      (startPublisher config garbage startTime stopped) events p) :
    Run (SendStep host config) (startPublisher config garbage startTime stopped)
      (turnsOf events) (clearMarks startTime p) := by
  apply hrun.invariant (P := fun events p => Run (SendStep host config)
    (startPublisher config garbage startTime stopped) (turnsOf events) (clearMarks startTime p))
  · exact Run.nil _
  · intro events q e u _ ih hstep
    cases e with
    | turn it =>
      obtain ⟨hguard, rfl⟩ := hstep
      rw [turnsOf, List.filterMap_append]
      exact Run.snoc ih ⟨hguard, clearMarks_sendIteration host config startTime it q⟩
    | report now =>
      subst hstep
      rw [turnsOf_report]
      exact ih

theorem events_startTime
    (hrun : Run (PublisherEventStep host config)
      (startPublisher config garbage startTime stopped) events p) :
    p.stats.startTime = startTime := by
  apply hrun.invariant (P := fun _ q => q.stats.startTime = startTime)
  · rfl
  · intro events q e u _ ih hstep
    cases e with
    | turn it =>
      obtain ⟨_, rfl⟩ := hstep
      exact (sendIteration_marks host config it q).1.trans ih
    | report now =>
      subst hstep
      exact ih

/-- The report of a run of both threads is the one `run_publisher` makes of its turns alone. -/
theorem report_eq_runPublisher
    (h : SendLoopEnded host config garbage startTime stopped events p) (join : Join)
    (env : ℕ → Iteration) (k : ℕ)
    (hturns : turnsOf events = streamPrefix env k) :
    ∃ r, runPublisher host config ⟨some garbage, startTime, stopped, env, join.now⟩ k = some r ∧
      r.report = some (publisherTail p join) := by
  have hsend := sendRun_of_events h.run
  rw [hturns] at hsend
  refine ⟨_, (runPublisher_eq_some_iff host config garbage startTime join.now stopped env k
    _).mpr ⟨k, _, Nat.le_refl _, hsend, h.halted, rfl⟩, ?_⟩
  rw [publisherTail, printFinalStats_reports]
  rfl

/-- Both runs print the same figures, over the time from the start to the end of the loop. -/
structure PublisherUnaffected (p : Publisher) (startTime loopEnd : TimestampNs)
    (join join' : Join) : Prop where
  same : publisherFigures (publisherTail p join) = publisherFigures (publisherTail p join')
  duration : (publisherTail p join).totalDuration = loopEnd - startTime

theorem publisherTail_duration
    (hrun : Run (PublisherEventStep host config)
      (startPublisher config garbage startTime stopped) events p) (join : Join) :
    (publisherTail p join).totalDuration = join.now - startTime := by
  rw [publisherTail, printFinalStats_reports, ← events_startTime hrun]
  rfl

theorem publisherFigures_congr (p : Publisher) (join join' : Join) (h : join.now = join'.now) :
    publisherFigures (publisherTail p join) = publisherFigures (publisherTail p join') := by
  rw [publisherTail, publisherTail, printFinalStats_reports, printFinalStats_reports, h]

theorem publisherUnaffected_iff
    (hrun : Run (PublisherEventStep host config)
      (startPublisher config garbage startTime stopped) events p) (loopEnd : TimestampNs)
    (join join' : Join) :
    PublisherUnaffected p startTime loopEnd join join' ↔
      join.now = loopEnd ∧ join'.now = loopEnd := by
  constructor
  · rintro ⟨hsame, hduration⟩
    have hduration' : (publisherTail p join').totalDuration = loopEnd - startTime := by
      rw [← hduration]
      exact (congrArg Prod.fst hsame).symm
    rw [publisherTail_duration hrun] at hduration hduration'
    exact ⟨(UInt64.sub_left_inj startTime).mp hduration,
      (UInt64.sub_left_inj startTime).mp hduration'⟩
  · rintro ⟨hnow, hnow'⟩
    refine ⟨publisherFigures_congr p join join' (hnow.trans hnow'.symm), ?_⟩
    rw [publisherTail_duration hrun, hnow]

end Publisher

section Subscriber

open BinarySubscriber

/-- A turn of the receive loop with the reports that come while it runs. -/
structure SharedTurn where
  events : List BookEvent
  result : Int
  signal : Bool

def sharedTurn (host : ByteOrder) (turn : SharedTurn) (s : Subscriber) : Subscriber :=
  let s := { s with
    stats := { s.stats with pollingIterations := s.stats.pollingIterations + 1 } }
  let s := runEvents host s turn.events
  { s with
    running := s.running && !turn.signal
    pollFailed := turn.result < 0 }

def SharedStep (host : ByteOrder) : Subscriber → SharedTurn → Subscriber → Prop :=
  LoopStep pollGuard (sharedTurn host)

/-- The turn as the main thread alone sees it. -/
def pollOf (turn : SharedTurn) : Poll := ⟨fragmentsOf turn.events, turn.result, turn.signal⟩

/-- The tail of `run_subscriber`: the end time is set before the join. -/
def subscriberTail (s : Subscriber) (loopEnd : TimestampNs) (join : Join) : FinalReport :=
  printFinalStats (join.reports.foldl (fun g now => (printRealtimeStats g now).1)
    (setEndTime loopEnd s).stats)

def subscriberFigures (r : FinalReport) : UInt64 × Option Rates := (r.totalDuration, r.rates)

theorem printFinalStats_realtimeReports (reports : List TimestampNs) (g : SubscriberStats) :
    printFinalStats (reports.foldl (fun g now => (printRealtimeStats g now).1) g) =
      printFinalStats g := by
  induction reports generalizing g with
  | nil => rfl
  | cons report rest ih =>
    rw [List.foldl_cons, ih]
    rfl

/-- The marks of the last report as they were at the start. -/
def clearReceiveMarks (startTime : TimestampNs) (s : Subscriber) : Subscriber :=
  { s with stats := { s.stats with
      lastStatsTime := startTime, lastMessagesReceived := 0, lastBytesReceived := 0 } }

variable (host : ByteOrder) (startTime : TimestampNs)

theorem clearReceiveMarks_process (f : Fragment) (s : Subscriber) :
    clearReceiveMarks startTime (processMessageFragment host f s) =
      processMessageFragment host f (clearReceiveMarks startTime s) := by
  unfold processMessageFragment checkTarget
  split
  · rfl
  · simp only [apply_ite (clearReceiveMarks startTime)]
    rfl

theorem clearReceiveMarks_runEvents (events : List BookEvent) (s : Subscriber) :
    clearReceiveMarks startTime (runEvents host s events) =
      deliver host (fragmentsOf events) (clearReceiveMarks startTime s) := by
  induction events using List.reverseRecOn with
  | nil => rfl
  | append_singleton earlier e ih =>
    rw [runEvents, List.foldl_append, fragmentsOf, List.filterMap_append, deliver,
      List.foldl_append]
    cases e with
    | fragment f =>
      refine (clearReceiveMarks_process host startTime f _).trans ?_
      exact congrArg (processMessageFragment host f) ih
    | report now => exact ih

theorem clearReceiveMarks_sharedTurn (turn : SharedTurn) (s : Subscriber) :
    clearReceiveMarks startTime (sharedTurn host turn s) =
      pollIteration host (pollOf turn) (clearReceiveMarks startTime s) := by
  have hevents := clearReceiveMarks_runEvents host startTime turn.events
    { s with stats := { s.stats with pollingIterations := s.stats.pollingIterations + 1 } }
  exact congrArg (fun q : Subscriber => { q with
    running := q.running && !turn.signal
    pollFailed := turn.result < 0 }) hevents

/-- The two threads have run to the end of the receive loop. -/
structure ReceiveLoopEnded (target : UInt64) (stopped : Bool) (turns : List SharedTurn)
    (s : Subscriber) : Prop where
  run : Run (SharedStep host) (startSubscriber target startTime stopped) turns s
  halted : pollGuard s = false

variable {host startTime} {target : UInt64} {stopped : Bool}
variable {turns : List SharedTurn} {s : Subscriber}

/-- Without its reports a run of both threads is a run of the receive loop. -/
theorem pollRun_of_shared
    (hrun : Run (SharedStep host) (startSubscriber target startTime stopped) turns s) :
    Run (PollStep host) (startSubscriber target startTime stopped) (turns.map pollOf)
      (clearReceiveMarks startTime s) := by
  apply hrun.invariant (P := fun turns s => Run (PollStep host)
    (startSubscriber target startTime stopped) (turns.map pollOf)
    (clearReceiveMarks startTime s))
  · exact Run.nil _
  · intro turns q turn u _ ih hstep
    obtain ⟨hguard, rfl⟩ := hstep
    rw [List.map_append]
    exact Run.snoc ih ⟨hguard, clearReceiveMarks_sharedTurn host startTime turn q⟩

theorem shared_startTime
    (hrun : Run (SharedStep host) (startSubscriber target startTime stopped) turns s) :
    s.stats.startTime = startTime := by
  have hstart := run_startTime host target startTime stopped (pollRun_of_shared hrun)
  exact hstart

theorem setEndTime_clearReceiveMarks (loopEnd : TimestampNs) (s : Subscriber) :
    printFinalStats (setEndTime loopEnd (clearReceiveMarks startTime s)).stats =
      printFinalStats (setEndTime loopEnd s).stats := by
  by_cases hzero : s.stats.endTime = 0
  · rw [setEndTime, setEndTime, if_pos hzero, if_pos (show (clearReceiveMarks startTime
      s).stats.endTime = 0 from hzero)]
    rfl
  · rw [setEndTime, setEndTime, if_neg hzero, if_neg (show ¬ (clearReceiveMarks startTime
      s).stats.endTime = 0 from hzero)]
    rfl

/-- The report of a run of both threads is the one `run_subscriber` makes of its polls alone. -/
theorem report_eq_runSubscriber {config : Config}
    (h : ReceiveLoopEnded host startTime config.targetMessageCount stopped turns s)
    (loopEnd : TimestampNs) (join : Join) (env : ℕ → Poll) (k : ℕ)
    (hpolls : turns.map pollOf = streamPrefix env k) :
    ∃ r, runSubscriber host config ⟨true, startTime, stopped, env, loopEnd⟩ k = some r ∧
      r.report = some (subscriberTail s loopEnd join) := by
  have hpoll := pollRun_of_shared h.run
  rw [hpolls] at hpoll
  refine ⟨_, (runSubscriber_eq_some_iff host startTime stopped config loopEnd env k _).mpr
    ⟨k, _, Nat.le_refl _, hpoll, h.halted, rfl⟩, ?_⟩
  rw [subscriberTail, printFinalStats_realtimeReports, setEndTime_clearReceiveMarks]

/-- Both runs print the same figures, over the time from the start to the end time. -/
structure SubscriberUnaffected (s : Subscriber) (startTime loopEnd : TimestampNs)
    (join join' : Join) : Prop where
  same : subscriberFigures (subscriberTail s loopEnd join) =
    subscriberFigures (subscriberTail s loopEnd join')
  duration : (subscriberTail s loopEnd join).totalDuration =
    (setEndTime loopEnd s).stats.endTime - startTime

theorem subscriber_unaffected
    (hrun : Run (SharedStep host) (startSubscriber target startTime stopped) turns s)
    (loopEnd : TimestampNs) (join join' : Join) :
    SubscriberUnaffected s startTime loopEnd join join' := by
  constructor
  · rw [subscriberTail, subscriberTail, printFinalStats_realtimeReports,
      printFinalStats_realtimeReports]
  · rw [subscriberTail, printFinalStats_realtimeReports]
    change _ - (setEndTime loopEnd s).stats.startTime = _
    rw [setEndTime_startTime, shared_startTime hrun]

end Subscriber

/-- Two runs of either program that agree up to the end of the main loop and differ in the wait
for the statistics thread. The publisher prints the same figures, over the time to the end of
its loop, if and only if the clock reads after both waits what it read at the end of the loop;
the subscriber always does, over the time to its end time. -/
theorem unaffected_by_join_iff (host : ByteOrder) (config : Config) :
    (∀ garbage startTime stopped events p,
        SendLoopEnded host config garbage startTime stopped events p →
        ∀ loopEnd join join', PublisherUnaffected p startTime loopEnd join join' ↔
          join.now = loopEnd ∧ join'.now = loopEnd) ∧
      ∀ startTime stopped turns s,
        ReceiveLoopEnded host startTime config.targetMessageCount stopped turns s →
        ∀ loopEnd join join', SubscriberUnaffected s startTime loopEnd join join' := by
  constructor
  · intro garbage startTime stopped events p h loopEnd join join'
    exact publisherUnaffected_iff h.run loopEnd join join'
  · intro startTime stopped turns s h loopEnd join join'
    exact subscriber_unaffected h.run loopEnd join join'

section OneMessage

open BinaryPublisher

/-- One accepted message, ten nanoseconds after the start. -/
def oneMessage : Publisher :=
  sendIteration .little (sizedConfig 16 1 defaultTargetMessageCount) ⟨5, 1, false⟩
    (startPublisher (sizedConfig 16 1 defaultTargetMessageCount) (fun _ => 0) 0 false)

theorem oneMessage_ended :
    SendLoopEnded .little (sizedConfig 16 1 defaultTargetMessageCount) (fun _ => 0) 0 false
      [.turn ⟨5, 1, false⟩] oneMessage := by
  refine ⟨?_, by decide⟩
  rw [← List.nil_append [PublisherEvent.turn _]]
  exact Run.snoc (Run.nil _) ⟨by decide, rfl⟩

/-- The thread is joined at once, or after the rest of its second of sleep: the message rate drops
from a hundred million to nothing. -/
theorem slow_join_affects :
    parsePublisherArgs blankConfig none [('s', "16".toList), ('c', "1".toList)] =
        .ok (sizedConfig 16 1 defaultTargetMessageCount) ∧
      SendLoopEnded .little (sizedConfig 16 1 defaultTargetMessageCount) (fun _ => 0) 0 false
        [.turn ⟨5, 1, false⟩] oneMessage ∧
      publisherFigures (publisherTail oneMessage ⟨[], 10⟩) = (10, some ⟨100000000, 1525⟩) ∧
      publisherFigures (publisherTail oneMessage ⟨[], 1000000010⟩) =
        (1000000010, some ⟨0, 0⟩) ∧
      ¬ PublisherUnaffected oneMessage 0 10 ⟨[], 10⟩ ⟨[], 1000000010⟩ := by
  refine ⟨rfl, oneMessage_ended, by decide, by decide, ?_⟩
  intro h
  exact absurd h.same (by decide)

end OneMessage

section FailedPoll

open BinarySubscriber

/-- A message and a report come before the poll fails. -/
def failedTurn : SharedTurn := ⟨[.fragment ⟨List.replicate 16 0, 7⟩, .report 8], -1, false⟩

def afterFailedTurn : Subscriber :=
  sharedTurn .little failedTurn (startSubscriber defaultTargetMessageCount 1 false)

theorem failedTurn_ended :
    ReceiveLoopEnded .little 1 defaultTargetMessageCount false [failedTurn] afterFailedTurn := by
  refine ⟨?_, by decide⟩
  rw [← List.nil_append [failedTurn]]
  exact Run.snoc (Run.nil _) ⟨by decide, rfl⟩

end FailedPoll

/-- The publisher whose thread is joined at once, and the subscriber after any wait. -/
theorem prompt_join_unaffected :
    PublisherUnaffected oneMessage 0 10 ⟨[], 10⟩ ⟨[], 10⟩ ∧
      SubscriberUnaffected afterFailedTurn 1 9 ⟨[], 10⟩ ⟨[11], 1000000010⟩ := by
  obtain ⟨hpublisher, hsubscriber⟩ :=
    unaffected_by_join_iff .little (sizedConfig 16 1 defaultTargetMessageCount)
  exact ⟨(hpublisher _ _ _ _ _ oneMessage_ended 10 ⟨[], 10⟩ ⟨[], 10⟩).mpr ⟨rfl, rfl⟩,
    hsubscriber _ _ _ _ failedTurn_ended 9 ⟨[], 10⟩ ⟨[11], 1000000010⟩⟩

end AeronFast.JoinDelay
