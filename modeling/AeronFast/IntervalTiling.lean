import AeronFast.IntervalLedgers
import AeronFast.PublisherRuns
import AeronFast.SubscriberRuns

/-!
The statistics thread against the thread that counts. Each section under the
mutex and each unprotected statement on the statistics is one step, and a
report may come between any two of them. The publisher starts its thread
before it sets the two times that the first interval needs, where the
subscriber has set them; and both throw the messages of an interval away when
a report reads the same clock value as the one before it.
-/
namespace AeronFast.IntervalTiling

open CommonTypes ByteBuffers ConfigParser LabelledRuns IntervalLedgers
open PublisherRuns PublisherRuns.Iteration

section Publisher

open BinaryPublisher

def publisherMarks (g : PublisherStats) : Marks :=
  ⟨g.startTime, g.lastStatsTime, g.messagesSent, g.bytesSent, g.lastMessagesSent,
    g.lastBytesSent⟩

/-- How far `run_publisher` has come after `pthread_create`. -/
inductive PublisherPhase
  | threadCreated
  | startTimeSet
  | sending
  deriving DecidableEq, Repr

structure PublisherThreads where
  phase : PublisherPhase
  publisher : Publisher
  ledger : Ledger
  deriving DecidableEq, Repr

/-- The statistics are zero when the thread is created. -/
def publisherThreads (config : Config) (garbage : ℕ → UInt8) (stopped : Bool) :
    PublisherThreads :=
  ⟨.threadCreated, startPublisher config garbage 0 stopped, Ledger.empty⟩

inductive PublisherStatement
  | startTime (now : TimestampNs)
  | lastStatsTime
  | turn (it : Iteration)
  | report (now : TimestampNs)
  deriving DecidableEq, Repr

variable (host : ByteOrder) (config : Config)

/-- The statements of `run_publisher` in their order, and a report at any point. A turn has one
section under the mutex. -/
def publisherStatement (s : PublisherThreads) : PublisherStatement → Option PublisherThreads
  | .startTime now =>
      if s.phase = .threadCreated then
        some { s with
          phase := .startTimeSet
          publisher := { s.publisher with stats := { s.publisher.stats with startTime := now } } }
      else none
  | .lastStatsTime =>
      if s.phase = .startTimeSet then
        some { s with
          phase := .sending
          publisher := { s.publisher with stats := { s.publisher.stats with
            lastStatsTime := s.publisher.stats.startTime } } }
      else none
  | .turn it =>
      if s.phase = .sending ∧ sendGuard config s.publisher = true then
        some { s with
          publisher := sendIteration host config it s.publisher
          ledger := if sent it then s.ledger.count config.messageSize.toNat else s.ledger }
      else none
  | .report now =>
      let reported := printIntervalStats s.publisher.stats now
      some { s with
        publisher := { s.publisher with stats := reported.1 }
        ledger := s.ledger.report (publisherMarks s.publisher.stats) now reported.2 }

def PublisherStatementStep (s : PublisherThreads) (e : PublisherStatement)
    (t : PublisherThreads) : Prop :=
  publisherStatement host config s e = some t

/-- Without reports the statements lead into the send loop and through its runs. -/
theorem exists_statements_of_sendRun (garbage : ℕ → UInt8) (startTime : TimestampNs)
    (stopped : Bool) {turns : List Iteration} {p : Publisher}
    (hrun : Run (SendStep host config) (startPublisher config garbage startTime stopped) turns p) :
    ∃ l, Run (PublisherStatementStep host config) (publisherThreads config garbage stopped)
      ([.startTime startTime, .lastStatsTime] ++ turns.map .turn) ⟨.sending, p, l⟩ := by
  induction hrun with
  | nil => exact ⟨_, Run.of_foldlM rfl⟩
  | snoc _ hlast ih =>
    rename_i t u turns it _
    obtain ⟨l, hl⟩ := ih
    obtain ⟨hguard, rfl⟩ := hlast
    refine ⟨if sent it then l.count config.messageSize.toNat else l, ?_⟩
    rw [List.map_append, ← List.append_assoc]
    exact Run.snoc hl (if_pos ⟨rfl, hguard⟩)

/-- No interval is printed before its start is set, and a report at the reading of the one
before it finds no new message. -/
def PublisherKeeps (s : PublisherThreads) : PublisherStatement → Prop
  | .report now =>
      (s.phase = .sending ∨ now = s.publisher.stats.lastStatsTime) ∧
        (now ≠ s.publisher.stats.lastStatsTime ∨ s.ledger.pending = [])
  | _ => True

def PublisherKeepingStep (s : PublisherThreads) (e : PublisherStatement)
    (t : PublisherThreads) : Prop :=
  PublisherStatementStep host config s e t ∧ PublisherKeeps s e

/-- The tiling, and what each phase adds to it. -/
structure PublisherTiled (s : PublisherThreads) : Prop where
  tiles : Tiles (publisherMarks s.publisher.stats) s.ledger
  counting : Counting (publisherMarks s.publisher.stats) s.ledger
  unused : s.phase ≠ .sending → s.ledger = Ledger.empty
  continues : s.phase = .sending → Continues (publisherMarks s.publisher.stats) s.ledger

/-- On the marks, a turn counts an accepted message or does nothing. -/
theorem publisherMarks_sendIteration (it : Iteration) (p : Publisher) :
    publisherMarks (sendIteration host config it p).stats =
      if sent it then (publisherMarks p.stats).count config.messageSize
      else publisherMarks p.stats := by
  rcases outcome_cases it with ⟨h, _, _⟩ | ⟨hs, h, _⟩ | ⟨hs, _, h⟩ | ⟨h1, h2, h3⟩
  · rw [sendIteration_sent host config it p h, if_pos h]
    rfl
  · rw [sendIteration_backPressured host config it p h, hs]
    rfl
  · rw [sendIteration_refused host config it p h, hs]
    rfl
  · rw [sendIteration_unaccounted host config it p h1 h2 h3, h1]
    rfl

/-- The step cases, on the marks and the ledger. -/
theorem publisherTiled_step {s t : PublisherThreads} {e : PublisherStatement}
    (h : PublisherTiled s) (hstep : PublisherKeepingStep host config s e t) :
    PublisherTiled t := by
  obtain ⟨hstep, hkeeps⟩ := hstep
  rw [PublisherStatementStep] at hstep
  cases e with
  | startTime now =>
    obtain ⟨hphase, hnext⟩ := Option.ite_none_right_eq_some.mp hstep
    cases hnext
    have hempty := h.unused (by simp [hphase])
    have hprinted : s.ledger.printed = [] := by rw [hempty]; rfl
    exact ⟨h.tiles.setTimes hprinted _ _, ⟨h.counting.messages, h.counting.bytes⟩,
      fun _ => hempty, by simp⟩
  | lastStatsTime =>
    obtain ⟨hphase, hnext⟩ := Option.ite_none_right_eq_some.mp hstep
    cases hnext
    have hempty := h.unused (by simp [hphase])
    have hprinted : s.ledger.printed = [] := by rw [hempty]; rfl
    refine ⟨h.tiles.setTimes hprinted _ _, ⟨h.counting.messages, h.counting.bytes⟩, by simp, ?_⟩
    intro _
    rw [Continues, hprinted]
    rfl
  | turn it =>
    obtain ⟨⟨hphase, _⟩, hnext⟩ := Option.ite_none_right_eq_some.mp hstep
    cases hnext
    have hmarks := publisherMarks_sendIteration host config it s.publisher
    cases hsent : sent it with
    | true =>
      rw [if_pos hsent] at hmarks
      have hword : config.messageSize.toNat = config.messageSize.toNat % 2 ^ 64 :=
        (Nat.mod_eq_of_lt (UInt64.toNat_lt _)).symm
      refine ⟨?_, ?_, fun hnot => absurd hphase hnot, ?_⟩
      · simp only [hmarks, if_true]
        exact h.tiles.count _ _
      · simp only [hmarks, if_true]
        exact h.counting.count _ _ hword
      · intro hsending
        simp only [hmarks, if_true]
        exact h.continues hsending
    | false =>
      rw [hsent] at hmarks
      refine ⟨?_, ?_, fun hnot => absurd hphase hnot, ?_⟩
      · simp only [hmarks, Bool.false_eq_true, if_false]
        exact h.tiles
      · simp only [hmarks, Bool.false_eq_true, if_false]
        exact h.counting
      · simp only [hmarks, Bool.false_eq_true, if_false]
        exact h.continues
  | report now =>
    cases hstep
    obtain ⟨hready, hpending⟩ := hkeeps
    by_cases hnow : now = s.publisher.stats.lastStatsTime
    · have hnone : s.ledger.pending = [] := hpending.resolve_left (fun hne => hne hnow)
      refine ⟨h.tiles.report_silent h.counting hnow hnone, h.counting.report now _, ?_,
        fun hsending => (h.continues hsending).report now⟩
      intro hnot
      have hrates := (rates_eq_none_iff (publisherMarks s.publisher.stats) now).mpr hnow
      change s.ledger.report _ now ((publisherMarks s.publisher.stats).rates now) = _
      rw [hrates, h.unused hnot]
      rfl
    · have hsending := hready.resolve_right hnow
      exact ⟨h.tiles.report_printed h.counting (h.continues hsending) hnow,
        h.counting.report now _, fun hnot => absurd hsending hnot,
        fun _ => (h.continues hsending).report now⟩

theorem publisherTiled_run (garbage : ℕ → UInt8) (stopped : Bool)
    {events : List PublisherStatement} {s : PublisherThreads}
    (hrun : Run (PublisherKeepingStep host config) (publisherThreads config garbage stopped)
      events s) : PublisherTiled s := by
  refine hrun.invariant (P := fun _ t => PublisherTiled t) ?_ ?_
  · exact ⟨tiles_empty rfl rfl, ⟨rfl, rfl⟩, fun _ => rfl, fun h => by cases h⟩
  · intro _ _ _ _ _ h hstep
    exact publisherTiled_step host config h hstep

end Publisher

section Subscriber

open BinarySubscriber

def subscriberMarks (g : SubscriberStats) : Marks :=
  ⟨g.startTime, g.lastStatsTime, g.messagesReceived, g.bytesReceived, g.lastMessagesReceived,
    g.lastBytesReceived⟩

/-- Where the receiving thread is: at its loop test, inside a poll, in the handler after the
section under the mutex, or behind the loop. -/
inductive ReceivePoint
  | loopTest
  | polling
  | targetTest (receiveTimestamp : TimestampNs)
  | ended
  deriving DecidableEq, Repr

structure SubscriberThreads where
  point : ReceivePoint
  subscriber : Subscriber
  ledger : Ledger

/-- The thread is created after the statistics are initialised. -/
def subscriberThreads (target : UInt64) (startTime : TimestampNs) (stopped : Bool) :
    SubscriberThreads :=
  ⟨.loopTest, startSubscriber target startTime stopped, Ledger.empty⟩

inductive SubscriberStatement
  | pollingIteration
  | fragment (f : Fragment)
  | target
  | pollReturned (result : Int) (signal : Bool)
  | endTime (now : TimestampNs)
  | report (now : TimestampNs)
  deriving DecidableEq, Repr

variable (host : ByteOrder)

/-- The statements of `run_subscriber` and of the handler it passes to the poll, and a report
at any point. -/
def subscriberStatement (s : SubscriberThreads) : SubscriberStatement → Option SubscriberThreads
  | .pollingIteration =>
      if s.point = .loopTest ∧ pollGuard s.subscriber = true then
        some { s with
          point := .polling
          subscriber := { s.subscriber with stats := { s.subscriber.stats with
            pollingIterations := s.subscriber.stats.pollingIterations + 1 } } }
      else none
  | .fragment f =>
      if s.point = .polling then
        if f.buffer.length < timestampSize then some s
        else
          some {
            point := .targetTest f.clock
            subscriber := countFragment host f s.subscriber
            ledger := s.ledger.count f.buffer.length }
      else none
  | .target =>
      match s.point with
      | .targetTest now =>
          some { s with point := .polling, subscriber := checkTarget now s.subscriber }
      | _ => none
  | .pollReturned result signal =>
      if s.point = .polling then
        some { s with
          point := .loopTest
          subscriber := { s.subscriber with
            running := s.subscriber.running && !signal
            pollFailed := result < 0 } }
      else none
  | .endTime now =>
      if s.point = .loopTest ∧ pollGuard s.subscriber = false then
        some { s with point := .ended, subscriber := setEndTime now s.subscriber }
      else none
  | .report now =>
      let reported := printRealtimeStats s.subscriber.stats now
      some { s with
        subscriber := { s.subscriber with stats := reported.1 }
        ledger := s.ledger.report (subscriberMarks s.subscriber.stats) now reported.2 }

def SubscriberStatementStep (s : SubscriberThreads) (e : SubscriberStatement)
    (t : SubscriberThreads) : Prop :=
  subscriberStatement host s e = some t

/-- What the handler does with a fragment, statement by statement. -/
def fragmentStatements (f : Fragment) : List SubscriberStatement :=
  if f.buffer.length < timestampSize then [.fragment f] else [.fragment f, .target]

def pollStatements (poll : Poll) : List SubscriberStatement :=
  [.pollingIteration] ++ poll.fragments.flatMap fragmentStatements ++
    [.pollReturned poll.result poll.signal]

theorem exists_statements_of_fragment (f : Fragment) (s : Subscriber) (l : Ledger) :
    ∃ l', Run (SubscriberStatementStep host) ⟨.polling, s, l⟩ (fragmentStatements f)
      ⟨.polling, processMessageFragment host f s, l'⟩ := by
  unfold fragmentStatements processMessageFragment
  by_cases hshort : f.buffer.length < timestampSize
  · refine ⟨l, ?_⟩
    rw [if_pos hshort, if_pos hshort]
    exact Run.of_foldlM (by simp [subscriberStatement, hshort])
  · refine ⟨l.count f.buffer.length, ?_⟩
    rw [if_neg hshort, if_neg hshort]
    exact Run.of_foldlM (by simp [subscriberStatement, hshort])

theorem exists_statements_of_deliver (fragments : List Fragment) (s : Subscriber) (l : Ledger) :
    ∃ l', Run (SubscriberStatementStep host) ⟨.polling, s, l⟩
      (fragments.flatMap fragmentStatements) ⟨.polling, deliver host fragments s, l'⟩ := by
  induction fragments generalizing s l with
  | nil => exact ⟨l, Run.nil _⟩
  | cons f rest ih =>
    obtain ⟨l', hfirst⟩ := exists_statements_of_fragment host f s l
    obtain ⟨l'', hrest⟩ := ih (processMessageFragment host f s) l'
    exact ⟨l'', hfirst.append hrest⟩

/-- Without reports the statements follow the runs of the receive loop. -/
theorem exists_statements_of_pollRun {s t : Subscriber} {polls : List Poll}
    (hrun : Run (PollStep host) s polls t) (l : Ledger) :
    ∃ l', Run (SubscriberStatementStep host) ⟨.loopTest, s, l⟩ (polls.flatMap pollStatements)
      ⟨.loopTest, t, l'⟩ := by
  induction hrun with
  | nil => exact ⟨l, Run.nil _⟩
  | snoc _ hlast ih =>
    rename_i t u polls poll _
    obtain ⟨l', hl'⟩ := ih
    obtain ⟨hguard, rfl⟩ := hlast
    obtain ⟨l'', hdeliver⟩ := exists_statements_of_deliver host poll.fragments
      { t with stats := { t.stats with pollingIterations := t.stats.pollingIterations + 1 } } l'
    have hpoll : Run (SubscriberStatementStep host) ⟨.loopTest, t, l'⟩
        ([] ++ [.pollingIteration]) _ :=
      Run.snoc (Run.nil _) (if_pos ⟨rfl, hguard⟩)
    refine ⟨l'', ?_⟩
    rw [List.flatMap_append, List.flatMap_singleton]
    exact hl'.append (Run.snoc (hpoll.append hdeliver) rfl)

def SubscriberKeeps (s : SubscriberThreads) : SubscriberStatement → Prop
  | .report now => now ≠ s.subscriber.stats.lastStatsTime ∨ s.ledger.pending = []
  | _ => True

def SubscriberKeepingStep (s : SubscriberThreads) (e : SubscriberStatement)
    (t : SubscriberThreads) : Prop :=
  SubscriberStatementStep host s e t ∧ SubscriberKeeps s e

structure SubscriberTiled (s : SubscriberThreads) : Prop where
  tiles : Tiles (subscriberMarks s.subscriber.stats) s.ledger
  counting : Counting (subscriberMarks s.subscriber.stats) s.ledger
  continues : Continues (subscriberMarks s.subscriber.stats) s.ledger

/-- A statement that leaves the marks and the ledger alone. -/
theorem SubscriberTiled.congr {s t : SubscriberThreads} (h : SubscriberTiled s)
    (hmarks : subscriberMarks t.subscriber.stats = subscriberMarks s.subscriber.stats)
    (hledger : t.ledger = s.ledger) : SubscriberTiled t := by
  constructor
  · rw [hmarks, hledger]
    exact h.tiles
  · rw [hmarks, hledger]
    exact h.counting
  · rw [hmarks, hledger]
    exact h.continues

theorem subscriberMarks_checkTarget (now : TimestampNs) (s : Subscriber) :
    subscriberMarks (checkTarget now s).stats = subscriberMarks s.stats := by
  unfold checkTarget
  split
  · rfl
  · rfl

theorem subscriberMarks_setEndTime (now : TimestampNs) (s : Subscriber) :
    subscriberMarks (setEndTime now s).stats = subscriberMarks s.stats := by
  unfold setEndTime
  split
  · rfl
  · rfl

theorem subscriberTiled_step {s t : SubscriberThreads} {e : SubscriberStatement}
    (h : SubscriberTiled s) (hstep : SubscriberKeepingStep host s e t) : SubscriberTiled t := by
  obtain ⟨hstep, hkeeps⟩ := hstep
  rw [SubscriberStatementStep] at hstep
  cases e with
  | pollingIteration =>
    obtain ⟨_, hnext⟩ := Option.ite_none_right_eq_some.mp hstep
    cases hnext
    exact h.congr rfl rfl
  | fragment f =>
    obtain ⟨_, hnext⟩ := Option.ite_none_right_eq_some.mp hstep
    split at hnext
    · cases hnext
      exact h
    · cases hnext
      have hword : (UInt64.ofNat f.buffer.length).toNat = f.buffer.length % 2 ^ 64 :=
        UInt64.toNat_ofNat'
      exact ⟨h.tiles.count _ _, h.counting.count _ _ hword, h.continues⟩
  | target =>
    simp only [subscriberStatement] at hstep
    split at hstep
    · cases hstep
      exact h.congr (subscriberMarks_checkTarget _ _) rfl
    · cases hstep
  | pollReturned result signal =>
    obtain ⟨_, hnext⟩ := Option.ite_none_right_eq_some.mp hstep
    cases hnext
    exact h.congr rfl rfl
  | endTime now =>
    obtain ⟨_, hnext⟩ := Option.ite_none_right_eq_some.mp hstep
    cases hnext
    exact h.congr (subscriberMarks_setEndTime now s.subscriber) rfl
  | report now =>
    cases hstep
    refine ⟨?_, h.counting.report now _, h.continues.report now⟩
    by_cases hnow : now = s.subscriber.stats.lastStatsTime
    · exact h.tiles.report_silent h.counting hnow (hkeeps.resolve_left (fun hne => hne hnow))
    · exact h.tiles.report_printed h.counting h.continues hnow

theorem subscriberTiled_run (target : UInt64) (startTime : TimestampNs) (stopped : Bool)
    {events : List SubscriberStatement} {s : SubscriberThreads}
    (hrun : Run (SubscriberKeepingStep host) (subscriberThreads target startTime stopped)
      events s) : SubscriberTiled s := by
  refine hrun.invariant (P := fun _ t => SubscriberTiled t) ?_ ?_
  · exact ⟨tiles_empty rfl rfl, ⟨rfl, rfl⟩, rfl⟩
  · intro _ _ _ _ _ h hstep
    exact subscriberTiled_step host h hstep

end Subscriber

/-- In every run of the publisher in which no interval is printed before its start is set, and
in every run of either program in which no report at the reading of the one before it finds a
new message, the interval reports tile the run in every state reached. -/
theorem interval_reports_tile (host : ByteOrder) (config : Config) :
    (∀ garbage stopped events s,
      Run (PublisherKeepingStep host config) (publisherThreads config garbage stopped) events s →
        Tiles (publisherMarks s.publisher.stats) s.ledger) ∧
      ∀ target startTime stopped events s,
        Run (SubscriberKeepingStep host) (subscriberThreads target startTime stopped) events s →
          Tiles (subscriberMarks s.subscriber.stats) s.ledger := by
  constructor
  · intro garbage stopped events s hrun
    exact (publisherTiled_run host config garbage stopped hrun).tiles
  · intro target startTime stopped events s hrun
    exact (subscriberTiled_run host target startTime stopped hrun).tiles

/-- The clock readings the statements of the publisher take. -/
def publisherReadings (events : List PublisherStatement) : List TimestampNs :=
  events.filterMap fun
    | .startTime now => some now
    | .lastStatsTime => none
    | .turn it => some it.clock
    | .report now => some now

/-- The clock readings the statements of the subscriber take. -/
def subscriberReadings (events : List SubscriberStatement) : List TimestampNs :=
  events.filterMap fun
    | .fragment f => some f.clock
    | .endTime now => some now
    | .report now => some now
    | _ => none

/-- The publisher's thread reports before the start time is set; the subscriber's reports at the
reading of the initialisation, after a message was counted. No clock runs backwards. -/
theorem early_and_equal_reports_not_tile :
    (∃ s, (publisherReadings
          [.report 5000000000, .startTime 7000000000, .lastStatsTime]).Pairwise (· ≤ ·) ∧
        Run (PublisherStatementStep .little (sizedConfig 16 2 defaultTargetMessageCount))
          (publisherThreads (sizedConfig 16 2 defaultTargetMessageCount) (fun _ => 0) false)
          [.report 5000000000, .startTime 7000000000, .lastStatsTime] s ∧
        ¬ Tiles (publisherMarks s.publisher.stats) s.ledger) ∧
      ∃ s, (5000000000 :: subscriberReadings [.pollingIteration,
          .fragment ⟨List.replicate 16 0, 5000000000⟩, .report 5000000000]).Pairwise (· ≤ ·) ∧
        Run (SubscriberStatementStep .little) (subscriberThreads 2 5000000000 false)
          [.pollingIteration, .fragment ⟨List.replicate 16 0, 5000000000⟩,
            .report 5000000000] s ∧
        ¬ Tiles (subscriberMarks s.subscriber.stats) s.ledger := by
  constructor
  · refine ⟨_, by decide, Run.of_foldlM rfl, ?_⟩
    intro h
    have hstart : (0 : UInt64) = 7000000000 := h.chained.1
    exact absurd hstart (by decide)
  · refine ⟨_, by decide, Run.of_foldlM rfl, ?_⟩
    intro h
    have hlost := congrArg List.length h.covered
    cases hlost

/-- Both programs report after their first message, at a later reading. -/
theorem later_reports_tile :
    (∃ s, Run (PublisherKeepingStep .little (sizedConfig 16 2 2))
          (publisherThreads (sizedConfig 16 2 2) (fun _ => 0) false)
          [.startTime 5, .lastStatsTime, .turn ⟨6, 1, false⟩, .report 7] s ∧
        s.ledger.printed.length = 1 ∧ Tiles (publisherMarks s.publisher.stats) s.ledger) ∧
      ∃ s, Run (SubscriberKeepingStep .little) (subscriberThreads 2 5 false)
          [.pollingIteration, .fragment ⟨List.replicate 16 0, 6⟩, .report 7] s ∧
        s.ledger.printed.length = 1 ∧ Tiles (subscriberMarks s.subscriber.stats) s.ledger := by
  constructor
  · have hstart : Run (PublisherKeepingStep .little (sizedConfig 16 2 2))
        (publisherThreads (sizedConfig 16 2 2) (fun _ => 0) false) ([] ++ [.startTime 5]) _ :=
      Run.snoc (Run.nil _) ⟨rfl, trivial⟩
    have hsending := Run.snoc (i := PublisherStatement.lastStatsTime) hstart ⟨rfl, trivial⟩
    have hturn := Run.snoc (i := PublisherStatement.turn ⟨6, 1, false⟩) hsending ⟨rfl, trivial⟩
    have hreport := Run.snoc (i := PublisherStatement.report 7) hturn
      ⟨rfl, Or.inl rfl, Or.inl (by decide)⟩
    exact ⟨_, hreport, rfl,
      (interval_reports_tile .little (sizedConfig 16 2 2)).1 _ _ _ _ hreport⟩
  · have hpoll : Run (SubscriberKeepingStep .little) (subscriberThreads 2 5 false)
        ([] ++ [.pollingIteration]) _ :=
      Run.snoc (Run.nil _) ⟨rfl, trivial⟩
    have hfragment := Run.snoc (i := SubscriberStatement.fragment ⟨List.replicate 16 0, 6⟩)
      hpoll ⟨rfl, trivial⟩
    have hreport := Run.snoc (i := SubscriberStatement.report 7) hfragment
      ⟨rfl, Or.inl (by decide)⟩
    exact ⟨_, hreport, rfl,
      (interval_reports_tile .little (sizedConfig 16 2 2)).2 _ _ _ _ _ hreport⟩

end AeronFast.IntervalTiling
