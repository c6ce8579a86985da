import AeronFast.PublisherRuns
import AeronFast.SubscriberBooks

/-!
The rates the two programs print, in every state they can reach. The totals
and the differences since the last report are known from the history of turns
and fragments; the words the programs hold agree with them modulo 2^64. The
source multiplies before it divides, so a report is exact for every duration
precisely when its bytes, in nanobytes, still fit in a word.
-/
namespace AeronFast.ReportedRates

open CommonTypes ByteBuffers ConfigParser LabelledRuns WordArithmetic Throughput
open PublisherRuns PublisherRuns.Iteration SubscriberRuns SubscriberBooks

section Publisher

open BinaryPublisher

inductive PublisherEvent
  | turn (it : Iteration)
  | report (now : TimestampNs)

def turnOf : PublisherEvent → Option Iteration
  | .turn it => some it
  | .report _ => none

def isTurn (e : PublisherEvent) : Bool := (turnOf e).isSome

/-- The turns among the events, oldest first. -/
def turnsOf (events : List PublisherEvent) : List Iteration := events.filterMap turnOf

/-- The turns up to the last report, and those after it. -/
def turnsBefore (events : List PublisherEvent) : List Iteration :=
  turnsOf (events.rdropWhile isTurn)

def turnsSince (events : List PublisherEvent) : List Iteration :=
  turnsOf (events.rtakeWhile isTurn)

theorem turnsOf_eq (events : List PublisherEvent) :
    turnsOf events = turnsBefore events ++ turnsSince events := by
  rw [turnsBefore, turnsSince, turnsOf, turnsOf, turnsOf, ← List.filterMap_append,
    List.rdropWhile_append_rtakeWhile]

theorem turnsOf_report (events : List PublisherEvent) (now : TimestampNs) :
    turnsOf (events ++ [.report now]) = turnsOf events := by
  simp [turnsOf, turnOf, List.filterMap_append]

variable (host : ByteOrder) (config : Config)

/-- A turn of the send loop, or a report of the statistics thread. -/
def PublisherEventStep (p : Publisher) (e : PublisherEvent) (q : Publisher) : Prop :=
  match e with
  | .turn it => SendStep host config p it q
  | .report now => q = { p with stats := (printIntervalStats p.stats now).1 }

/-- The accepted bytes of a history, over unbounded naturals. -/
def sentBytes (turns : List Iteration) : ℕ := turns.countP sent * config.messageSize.toNat

theorem sentBytes_append (left right : List Iteration) :
    sentBytes config (left ++ right) = sentBytes config left + sentBytes config right := by
  rw [sentBytes, List.countP_append, Nat.add_mul]
  rfl

/-- The counters and the marks the last report left. -/
structure PublisherMeters (events : List PublisherEvent) (p : Publisher) : Prop where
  counted : Counted config (turnsOf events) p
  lastMessagesSent : p.stats.lastMessagesSent.toNat = (turnsBefore events).countP sent % 2 ^ 64
  lastBytesSent : p.stats.lastBytesSent.toNat = sentBytes config (turnsBefore events) % 2 ^ 64

/-- A turn leaves the start time and the marks of the reports alone. -/
theorem sendIteration_marks (it : Iteration) (p : Publisher) :
    (sendIteration host config it p).stats.startTime = p.stats.startTime ∧
      (sendIteration host config it p).stats.lastMessagesSent = p.stats.lastMessagesSent ∧
      (sendIteration host config it p).stats.lastBytesSent = p.stats.lastBytesSent := by
  rcases outcome_cases it with ⟨h, _, _⟩ | ⟨_, h, _⟩ | ⟨_, _, h⟩ | ⟨h1, h2, h3⟩
  · rw [sendIteration_sent host config it p h]
    exact ⟨rfl, rfl, rfl⟩
  · rw [sendIteration_backPressured host config it p h]
    exact ⟨rfl, rfl, rfl⟩
  · rw [sendIteration_refused host config it p h]
    exact ⟨rfl, rfl, rfl⟩
  · rw [sendIteration_unaccounted host config it p h1 h2 h3]
    exact ⟨rfl, rfl, rfl⟩

theorem publisherMeters_step (events : List PublisherEvent) (e : PublisherEvent)
    (p q : Publisher) (hp : PublisherMeters config events p)
    (hstep : PublisherEventStep host config p e q) :
    PublisherMeters config (events ++ [e]) q := by
  cases e with
  | turn it =>
    obtain ⟨hguard, rfl⟩ := hstep
    obtain ⟨_, hmessages, hbytes⟩ := sendIteration_marks host config it p
    have hbefore : turnsBefore (events ++ [.turn it]) = turnsBefore events := by
      rw [turnsBefore, List.rdropWhile_concat_pos _ _ _ rfl]
      rfl
    refine ⟨?_, ?_, ?_⟩
    · rw [turnsOf, List.filterMap_append]
      exact counted_step host config (turnsOf events) it p hp.counted hguard
    · rw [hmessages, hbefore]
      exact hp.lastMessagesSent
    · rw [hbytes, hbefore]
      exact hp.lastBytesSent
  | report now =>
    subst hstep
    have hbefore : turnsBefore (events ++ [.report now]) = turnsOf events := by
      rw [turnsBefore, List.rdropWhile_concat_neg _ _ _ (by simp [isTurn, turnOf]), turnsOf_report]
    refine ⟨?_, ?_, ?_⟩
    · rw [turnsOf_report]
      exact ⟨hp.counted.messagesSent, hp.counted.successfulSends, hp.counted.bytesSent,
        hp.counted.backPressureEvents, hp.counted.sendErrors⟩
    · rw [hbefore]
      exact hp.counted.messagesSent_mod
    · rw [hbefore]
      exact hp.counted.bytesSent

variable (garbage : ℕ → UInt8) (startTime : TimestampNs) (stopped : Bool)

theorem publisherMeters_run {events : List PublisherEvent} {p : Publisher}
    (hrun : Run (PublisherEventStep host config)
      (startPublisher config garbage startTime stopped) events p) :
    PublisherMeters config events p := by
  apply hrun.invariant (P := PublisherMeters config)
  · exact ⟨counted_start config garbage startTime stopped, rfl, by
      simp [startPublisher, zeroStats, turnsBefore, turnsOf, sentBytes]⟩
  · intro events q e u _ ih hstep
    exact publisherMeters_step host config events e q u ih hstep

/-- A history of turns alone is a history of events. -/
theorem run_of_turns {s p : Publisher} {labels : List Iteration}
    (h : Run (SendStep host config) s labels p) :
    Run (PublisherEventStep host config) s (labels.map .turn) p := by
  induction h with
  | nil => exact Run.nil _
  | snoc _ hlast ih =>
    rw [List.map_append]
    exact Run.snoc ih hlast

theorem turnsOf_turns (labels : List Iteration) : turnsOf (labels.map .turn) = labels := by
  induction labels with
  | nil => rfl
  | cons it rest ih =>
    rw [turnsOf, List.map_cons, List.filterMap_cons]
    exact congrArg (it :: ·) ih

/-- Whenever the final report is printed, its rates are those of the exact totals. -/
def PublisherFinalExact (p : Publisher) (messages bytes : ℕ) : Prop :=
  ∀ now, 0 < now - p.stats.startTime →
    PrintedExactly (printFinalStats p.stats now).rates messages bytes
      (now - p.stats.startTime).toNat

/-- Whenever the next interval report is printed, its rates are the exact ones. -/
def PublisherIntervalExact (p : Publisher) (messages bytes : ℕ) : Prop :=
  ∀ now, 0 < now - p.stats.lastStatsTime →
    PrintedExactly (printIntervalStats p.stats now).2 messages bytes
      (now - p.stats.lastStatsTime).toNat

variable (hvalid : validateConfig config = .success)
include hvalid

theorem countP_le_sentBytes (turns : List Iteration) :
    turns.countP sent ≤ sentBytes config turns :=
  Nat.le_mul_of_pos_right _ (Nat.lt_of_lt_of_le (by decide) (validateConfig_success config hvalid).1)

theorem publisherFinalExact_iff {events : List PublisherEvent} {p : Publisher}
    (hp : PublisherMeters config events p) :
    PublisherFinalExact p ((turnsOf events).countP sent) (sentBytes config (turnsOf events)) ↔
      sentBytes config (turnsOf events) * 1000000000 < 2 ^ 64 := by
  refine (ratesExact_iff_readings _ _ p.stats.startTime _ _).trans ?_
  exact ratesExact_iff_bytes _ _ _ _ hp.counted.messagesSent_mod hp.counted.bytesSent
    (countP_le_sentBytes config hvalid _)

theorem publisherIntervalExact_iff {events : List PublisherEvent} {p : Publisher}
    (hp : PublisherMeters config events p) :
    PublisherIntervalExact p ((turnsSince events).countP sent)
        (sentBytes config (turnsSince events)) ↔
      sentBytes config (turnsSince events) * 1000000000 < 2 ^ 64 := by
  have hmessages : p.stats.messagesSent.toNat =
      ((turnsBefore events).countP sent + (turnsSince events).countP sent) % 2 ^ 64 := by
    rw [← List.countP_append, ← turnsOf_eq]
    exact hp.counted.messagesSent_mod
  have hbytes : p.stats.bytesSent.toNat =
      (sentBytes config (turnsBefore events) + sentBytes config (turnsSince events)) % 2 ^ 64 := by
    rw [← sentBytes_append, ← turnsOf_eq]
    exact hp.counted.bytesSent
  refine (ratesExact_iff_readings _ _ p.stats.lastStatsTime _ _).trans ?_
  exact ratesExact_iff_bytes _ _ _ _
    (toNat_sub_of_totals _ _ _ _ hmessages hp.lastMessagesSent)
    (toNat_sub_of_totals _ _ _ _ hbytes hp.lastBytesSent)
    (countP_le_sentBytes config hvalid _)

end Publisher

section Subscriber

open BinarySubscriber

def isFragment (e : BookEvent) : Bool := (fragmentOf e).isSome

/-- The fragments up to the last report, and those after it. -/
def fragmentsBefore (events : List BookEvent) : List Fragment :=
  fragmentsOf (events.rdropWhile isFragment)

def fragmentsSince (events : List BookEvent) : List Fragment :=
  fragmentsOf (events.rtakeWhile isFragment)

theorem fragmentsOf_eq (events : List BookEvent) :
    fragmentsOf events = fragmentsBefore events ++ fragmentsSince events := by
  rw [fragmentsBefore, fragmentsSince, fragmentsOf, fragmentsOf, fragmentsOf,
    ← List.filterMap_append, List.rdropWhile_append_rtakeWhile]

theorem byteTotal_append (left right : List Fragment) :
    byteTotal (left ++ right) = byteTotal left + byteTotal right := by
  simp [byteTotal, List.filter_append]

theorem countP_le_byteTotal (fragments : List Fragment) :
    fragments.countP counted ≤ byteTotal fragments := by
  have h := eight_mul_le_byteTotal .little fragments
  rw [latencies_length] at h
  omega

variable (host : ByteOrder)

/-- The counters and the marks the last report left. -/
structure SubscriberMeters (events : List BookEvent) (s : Subscriber) : Prop where
  received : Received host (fragmentsOf events) s
  lastMessagesReceived : s.stats.lastMessagesReceived.toNat =
    (fragmentsBefore events).countP counted % 2 ^ 64
  lastBytesReceived : s.stats.lastBytesReceived.toNat =
    byteTotal (fragmentsBefore events) % 2 ^ 64

variable (target : UInt64) (startTime : TimestampNs) (stopped : Bool)

theorem subscriberMeters_events (events : List BookEvent) :
    SubscriberMeters host events
      (runEvents host (startSubscriber target startTime stopped) events) := by
  induction events using List.reverseRecOn with
  | nil => exact ⟨received_start host target startTime stopped, rfl, rfl⟩
  | append_singleton events e ih =>
    have hs := received_events host _ (received_start host target startTime stopped)
      (events ++ [e])
    rw [runEvents, List.foldl_append] at hs ⊢
    cases e with
    | fragment f =>
      have hbefore : fragmentsBefore (events ++ [.fragment f]) = fragmentsBefore events := by
        rw [fragmentsBefore, List.rdropWhile_concat_pos _ _ _ rfl]
        rfl
      obtain ⟨_, hmessages, hbytes⟩ := process_marks host f
        (runEvents host (startSubscriber target startTime stopped) events)
      refine ⟨hs, ?_, ?_⟩
      · rw [hbefore]
        exact (congrArg UInt64.toNat hmessages).trans ih.lastMessagesReceived
      · rw [hbefore]
        exact (congrArg UInt64.toNat hbytes).trans ih.lastBytesReceived
    | report now =>
      have hbefore : fragmentsBefore (events ++ [.report now]) = fragmentsOf events := by
        rw [fragmentsBefore, List.rdropWhile_concat_neg _ _ _ (by simp [isFragment, fragmentOf])]
        simp [fragmentsOf, fragmentOf, List.filterMap_append]
      refine ⟨hs, ?_, ?_⟩
      · rw [hbefore]
        exact ih.received.messagesReceived_mod
      · rw [hbefore]
        exact ih.received.bytesReceived

/-- Whenever the final report is printed, its rates are those of the exact totals. -/
def SubscriberFinalExact (s : Subscriber) (messages bytes : ℕ) : Prop :=
  ∀ endTime, 0 < endTime - s.stats.startTime →
    PrintedExactly (printFinalStats { s.stats with endTime := endTime }).rates messages bytes
      (endTime - s.stats.startTime).toNat

/-- Whenever the next interval report is printed, its rates are the exact ones. -/
def SubscriberIntervalExact (s : Subscriber) (messages bytes : ℕ) : Prop :=
  ∀ now, 0 < now - s.stats.lastStatsTime →
    PrintedExactly (printRealtimeStats s.stats now).2 messages bytes
      (now - s.stats.lastStatsTime).toNat

theorem subscriberFinalExact_iff {events : List BookEvent} {s : Subscriber}
    (hs : SubscriberMeters host events s) :
    SubscriberFinalExact s ((fragmentsOf events).countP counted)
        (byteTotal (fragmentsOf events)) ↔
      byteTotal (fragmentsOf events) * 1000000000 < 2 ^ 64 := by
  refine (ratesExact_iff_readings _ _ s.stats.startTime _ _).trans ?_
  exact ratesExact_iff_bytes _ _ _ _ hs.received.messagesReceived_mod
    hs.received.bytesReceived (countP_le_byteTotal _)

theorem subscriberIntervalExact_iff {events : List BookEvent} {s : Subscriber}
    (hs : SubscriberMeters host events s) :
    SubscriberIntervalExact s ((fragmentsSince events).countP counted)
        (byteTotal (fragmentsSince events)) ↔
      byteTotal (fragmentsSince events) * 1000000000 < 2 ^ 64 := by
  have hmessages := hs.received.messagesReceived_mod
  rw [fragmentsOf_eq, List.countP_append] at hmessages
  have hbytes := hs.received.bytesReceived
  rw [fragmentsOf_eq, byteTotal_append] at hbytes
  refine (ratesExact_iff_readings _ _ s.stats.lastStatsTime _ _).trans ?_
  exact ratesExact_iff_bytes _ _ _ _
    (toNat_sub_of_totals _ _ _ _ hmessages hs.lastMessagesReceived)
    (toNat_sub_of_totals _ _ _ _ hbytes hs.lastBytesReceived)
    (countP_le_byteTotal _)

end Subscriber

open BinaryPublisher BinarySubscriber

/-- In every state that turns and reports lead the publisher to, and fragments and reports the
subscriber, the final and the interval rates are exact for every duration if and only if the
reported bytes times 10^9 stay below 2^64. -/
theorem reported_rates_exact_iff (host : ByteOrder) (config : Config)
    (hvalid : validateConfig config = .success) (garbage : ℕ → UInt8)
    (startTime : TimestampNs) (stopped : Bool) (events : List PublisherEvent) (p : Publisher)
    (hrun : Run (PublisherEventStep host config)
      (startPublisher config garbage startTime stopped) events p)
    (target : UInt64) (received : List BookEvent) :
    ((PublisherFinalExact p ((turnsOf events).countP sent) (sentBytes config (turnsOf events)) ↔
        sentBytes config (turnsOf events) * 1000000000 < 2 ^ 64) ∧
      (PublisherIntervalExact p ((turnsSince events).countP sent)
          (sentBytes config (turnsSince events)) ↔
        sentBytes config (turnsSince events) * 1000000000 < 2 ^ 64)) ∧
    ((SubscriberFinalExact (runEvents host (startSubscriber target startTime stopped) received)
          ((fragmentsOf received).countP counted) (byteTotal (fragmentsOf received)) ↔
        byteTotal (fragmentsOf received) * 1000000000 < 2 ^ 64) ∧
      (SubscriberIntervalExact (runEvents host (startSubscriber target startTime stopped) received)
          ((fragmentsSince received).countP counted) (byteTotal (fragmentsSince received)) ↔
        byteTotal (fragmentsSince received) * 1000000000 < 2 ^ 64)) := by
  have hp := publisherMeters_run host config garbage startTime stopped hrun
  have hs := subscriberMeters_events host target startTime stopped received
  exact ⟨⟨publisherFinalExact_iff config hvalid hp, publisherIntervalExact_iff config hvalid hp⟩,
    ⟨subscriberFinalExact_iff host hs, subscriberIntervalExact_iff host hs⟩⟩

/-- An offer Aeron accepts at once. -/
def acceptance : Iteration := ⟨0, 1, false⟩

/-- Accepted offers take the loop to its target. -/
theorem accepted_run (host : ByteOrder) (config : Config)
    (hvalid : validateConfig config = .success) (garbage : ℕ → UInt8) (startTime : TimestampNs)
    (k : ℕ) (hk : k ≤ config.messageCount.toNat) :
    ∃ p, Run (SendStep host config) (startPublisher config garbage startTime false)
        (List.replicate k acceptance) p ∧ p.running = true ∧
      (k < config.messageCount.toNat → p.exit = none) := by
  induction k with
  | zero => exact ⟨_, Run.nil _, rfl, fun _ => rfl⟩
  | succ k ih =>
    obtain ⟨p, hrun, hrunning, hexit⟩ := ih (by omega)
    have hinv := send_invariant host config garbage startTime false hvalid hrun
    have hcount : p.successfulSends.toNat = k := by
      rw [hinv.counted.successfulSends, List.countP_replicate, if_pos (by decide)]
    have hguard : sendGuard config p = true := by
      apply (sendGuard_iff config p).mpr
      refine ⟨hexit (by omega), hrunning, ?_⟩
      rw [UInt64.lt_iff_toNat_lt, hcount]
      omega
    refine ⟨sendIteration host config acceptance p, ?_, ?_, ?_⟩
    · rw [List.replicate_succ']
      exact Run.snoc hrun ⟨hguard, rfl⟩
    · rw [(sendIteration_offered host config acceptance p).2.2, offerTurn, hrunning]
      rfl
    · intro hlt
      have hmax := word_lt config.messageCount
      have hnot : ¬ config.messageCount ≤ p.successfulSends + 1 := by
        rw [UInt64.le_iff_toNat_le, toNat_add_one _ (by omega), hcount]
        omega
      rw [sendIteration_sent host config acceptance p (by decide)]
      simp only [hnot, if_false]

/-- A million messages of 65536 bytes, all accepted: ten seconds in, the bandwidth is printed as
972 where it is 6250. -/
theorem largeMessages_not_exact :
    parsePublisherArgs blankConfig none [('s', "65536".toList), ('c', "1000000".toList)] =
        .ok (sizedConfig 65536 1000000 defaultTargetMessageCount) ∧
      ∃ events p, Run (PublisherEventStep .little
            (sizedConfig 65536 1000000 defaultTargetMessageCount))
          (startPublisher (sizedConfig 65536 1000000 defaultTargetMessageCount) (fun _ => 0) 0
            false) events p ∧
        (BinaryPublisher.printFinalStats p.stats (10000000000 + p.stats.startTime)).rates =
          some ⟨100000, 972⟩ ∧
        exactRates ((turnsOf events).countP sent)
            (sentBytes (sizedConfig 65536 1000000 defaultTargetMessageCount) (turnsOf events))
            10000000000 = (100000, 6250) ∧
        ¬ PublisherFinalExact p ((turnsOf events).countP sent)
          (sentBytes (sizedConfig 65536 1000000 defaultTargetMessageCount) (turnsOf events)) := by
  refine ⟨rfl, ?_⟩
  obtain ⟨p, hsends, _, _⟩ := accepted_run .little
    (sizedConfig 65536 1000000 defaultTargetMessageCount) (by decide) (fun _ => 0) 0 1000000
    (by decide)
  have hrun := run_of_turns _ _ hsends
  have hp := publisherMeters_run _ _ _ _ _ hrun
  have hcount : (List.replicate 1000000 acceptance).countP sent = 1000000 := by
    rw [List.countP_replicate, if_pos (by decide)]
  have hbytes : sentBytes (sizedConfig 65536 1000000 defaultTargetMessageCount)
      (List.replicate 1000000 acceptance) = 65536000000 := by
    rw [sentBytes, hcount]
    rfl
  have hmessagesWord : p.stats.messagesSent = 1000000 := by
    apply UInt64.toNat_inj.mp
    rw [hp.counted.messagesSent_mod, turnsOf_turns, hcount]
    rfl
  have hbytesWord : p.stats.bytesSent = 65536000000 := by
    apply UInt64.toNat_inj.mp
    rw [hp.counted.bytesSent, turnsOf_turns, hcount]
    rfl
  refine ⟨_, p, hrun, ?_, ?_, ?_⟩
  · rw [BinaryPublisher.printFinalStats, hmessagesWord, hbytesWord, UInt64.add_sub_cancel]
    rfl
  · rw [turnsOf_turns, hcount, hbytes]
    decide
  · rw [publisherFinalExact_iff _ (by decide) hp, turnsOf_turns, hbytes]
    decide

/-- One accepted message, a report and a second message, and a subscriber that received one. -/
theorem twoMessages_exact :
    ∃ p, Run (PublisherEventStep .little (sizedConfig 16 2 defaultTargetMessageCount))
        (startPublisher (sizedConfig 16 2 defaultTargetMessageCount) (fun _ => 0) 0 false)
        [.turn acceptance, .report 5, .turn acceptance] p ∧
      PublisherFinalExact p 2 32 ∧ PublisherIntervalExact p 1 16 ∧
      SubscriberFinalExact (runEvents .little (startSubscriber 2 0 false)
        [.report 5, .fragment ⟨List.replicate 16 0, 9⟩]) 1 16 := by
  have hrun : Run (PublisherEventStep .little (sizedConfig 16 2 defaultTargetMessageCount))
      (startPublisher (sizedConfig 16 2 defaultTargetMessageCount) (fun _ => 0) 0 false)
      ([] ++ [.turn acceptance] ++ [.report 5] ++ [.turn acceptance]) _ :=
    Run.snoc (Run.snoc (Run.snoc (Run.nil _) ⟨by decide, rfl⟩) rfl) ⟨by decide, rfl⟩
  have h := reported_rates_exact_iff .little (sizedConfig 16 2 defaultTargetMessageCount)
    (by decide) (fun _ => 0) 0 false _ _ hrun 2 [.report 5, .fragment ⟨List.replicate 16 0, 9⟩]
  exact ⟨_, hrun, h.1.1.mpr (by decide), h.1.2.mpr (by decide), h.2.1.mpr (by decide)⟩

end AeronFast.ReportedRates
