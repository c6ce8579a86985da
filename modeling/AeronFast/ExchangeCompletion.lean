import AeronFast.EndToEnd
import AeronFast.SubscriberLoop

/-!
Whether the exchange comes to its end. The publisher's turns and the polls that
deliver something are bounded, and while there is neither, nothing is left to
send or to deliver to a subscriber that still asks. Then the subscriber's loop
is over exactly if as many messages were accepted as it waits for; with a
larger target than the publisher's count it never is.
-/
namespace AeronFast.ExchangeCompletion

open CommonTypes ByteBuffers ConfigParser LabelledRuns WordArithmetic
open BinaryPublisher BinarySubscriber PublisherRuns PublisherRuns.Iteration
open SubscriberRuns SubscriberLoop EndToEnd

/-- No poll fails, and no signal stops the subscriber. -/
def quiet : Move → Bool
  | .publish _ => true
  | .poll _ result signal => decide (0 ≤ result) && !signal

/-- A turn of the publisher, or a poll that delivers a message. -/
def productive : Move → Bool
  | .publish _ => true
  | .poll readings _ _ => !readings.isEmpty

/-- The send loop is over, and nothing is queued for a subscriber that still polls. -/
def Quiescent (config : Config) (s : System) : Prop :=
  sendGuard config s.publisher = false ∧ (pollGuard s.subscriber = false ∨ s.queue = [])

section Runs

variable {sender receiver : ByteOrder} {config : Config} {fragmentLimit : Int} {target : UInt64}
variable {garbage : ℕ → UInt8} {publisherStart subscriberStart : TimestampNs}
variable {publisherStopped subscriberStopped : Bool} {moves : List Move} {s : System}

/-- A run of the send loop is no longer than its measure allows. -/
theorem send_run_length_le {labels : List Iteration} {p : Publisher}
    (hvalid : validateConfig config = .success)
    (hrun : Run (SendStep sender config)
      (startPublisher config garbage publisherStart publisherStopped) labels p) :
    labels.length ≤ config.messageCount.toNat * 1000001 := by
  have hstart : turnsLeft config (startPublisher config garbage publisherStart publisherStopped) =
      config.messageCount.toNat * 1000001 := by
    simp [turnsLeft, startPublisher]
  have hleft := hrun.invariant
    (P := fun labels p => SendInvariant config publisherStopped labels p ∧
      labels.length + turnsLeft config p ≤ config.messageCount.toNat * 1000001)
    ⟨send_invariant sender config garbage publisherStart publisherStopped hvalid (Run.nil _),
      by rw [hstart]; simp⟩
    (by
      rintro labels q it u hq ⟨hinv, hle⟩ hstep
      have hnext := send_invariant sender config garbage publisherStart publisherStopped hvalid
        (hq.snoc hstep)
      obtain ⟨hguard, rfl⟩ := hstep
      have hless := turnsLeft_step sender config publisherStopped labels it q hinv hguard
      refine ⟨hnext, ?_⟩
      rw [List.length_append, List.length_singleton]
      omega)
  have hle := hleft.2
  omega

variable (hrun : Run (SystemStep sender receiver config fragmentLimit)
  (startSystem config target garbage publisherStart subscriberStart publisherStopped
    subscriberStopped) moves s)

include hrun

/-- The publisher alone. -/
theorem publisher_run : Run (SendStep sender config)
    (startPublisher config garbage publisherStart publisherStopped) (turns moves) s.publisher := by
  refine hrun.invariant (P := fun moves s => Run (SendStep sender config)
    (startPublisher config garbage publisherStart publisherStopped) (turns moves) s.publisher)
    (Run.nil _) ?_
  intro moves t m u _ ih hstep
  cases m with
  | publish it =>
    obtain ⟨hguard, rfl⟩ := hstep
    rw [turns_publish]
    exact ih.snoc ⟨hguard, rfl⟩
  | poll readings result signal =>
    obtain ⟨_, _, _, rfl⟩ := hstep
    rw [turns_poll]
    exact ih

/-- The subscriber alone, with the polls that the moves stand for. -/
theorem subscriber_run : ∃ polls, Run (PollStep receiver)
      (startSubscriber target subscriberStart subscriberStopped) polls s.subscriber ∧
    (moves.all quiet = true → ∀ poll ∈ polls, signalled poll = false ∧ failed poll = false) := by
  refine hrun.invariant (P := fun moves s => ∃ polls, Run (PollStep receiver)
      (startSubscriber target subscriberStart subscriberStopped) polls s.subscriber ∧
    (moves.all quiet = true → ∀ poll ∈ polls, signalled poll = false ∧ failed poll = false))
    ⟨[], Run.nil _, by simp⟩ ?_
  rintro moves t m u _ ⟨polls, hpolls, hquiet⟩ hstep
  cases m with
  | publish it =>
    obtain ⟨_, rfl⟩ := hstep
    refine ⟨polls, hpolls, fun hall => hquiet ?_⟩
    rw [List.all_append, Bool.and_eq_true] at hall
    exact hall.1
  | poll readings result signal =>
    obtain ⟨hguard, _, _, rfl⟩ := hstep
    refine ⟨polls ++ [⟨pollFragments readings t, result, signal⟩], hpolls.snoc ⟨hguard, rfl⟩, ?_⟩
    intro hall poll hpoll
    rw [List.all_append, Bool.and_eq_true] at hall
    rcases List.mem_append.mp hpoll with hearlier | hlast
    · exact hquiet hall.1 poll hearlier
    · rw [List.mem_singleton.mp hlast]
      simpa [quiet, signalled, failed, and_comm] using hall.2

variable (hvalid : validateConfig config = .success)

include hvalid

/-- What the subscriber has recorded is what it has been given, and no more than was accepted. -/
theorem recorded_accepted :
    s.subscriber.recorded.length = (receiveReadings moves).length ∧
      s.subscriber.recorded.length + s.queue.length = s.publisher.stats.messagesSent.toNat ∧
      s.subscriber.stats.messagesReceived.toNat = s.subscriber.recorded.length ∧
      s.publisher.stats.messagesSent.toNat ≤ config.messageCount.toNat := by
  have hs := conserved_run sender receiver config fragmentLimit hvalid target garbage
    publisherStart subscriberStart publisherStopped subscriberStopped hrun
  have hagree := agreement_of_conserved receiver config hvalid hs
  have hsent := UInt64.le_iff_toNat_le.mp (sent_le_count receiver config hs)
  obtain ⟨fragments, hreceived, hclocks, hqueue⟩ := hs.delivered
  have hgiven := congrArg List.length hclocks
  have htotal := congrArg List.length hqueue
  rw [List.length_map] at hgiven
  rw [List.length_append, List.length_map, List.length_map] at htotal
  have haccepted : s.publisher.stats.messagesSent.toNat = (successes moves).length := by
    rw [hs.publisher.counted.messagesSent, hs.publisher.counted.successfulSends,
      List.countP_eq_length_filter]
    rfl
  have hword := word_lt s.publisher.stats.messagesSent
  have hlatencies := hagree.latencyCount
  have hreceivedCount := hreceived.messagesReceived_mod
  rw [← hreceived.recorded_length, Nat.mod_eq_of_lt (by omega)] at hreceivedCount
  exact ⟨hlatencies, by omega, hreceivedCount, hsent⟩

/-- Without signals and failed polls the subscriber polls on exactly while it is short of its
target. -/
theorem polls_on_iff (htarget : 0 < target.toNat) (hstopped : subscriberStopped = false)
    (hquiet : moves.all quiet = true) :
    pollGuard s.subscriber = true ↔ s.subscriber.recorded.length < target.toNat := by
  obtain ⟨polls, hpolls, hall⟩ := subscriber_run hrun
  obtain ⟨_, _, hreceived, _⟩ := recorded_accepted hrun hvalid
  have hinv := poll_invariant receiver target subscriberStart subscriberStopped htarget hpolls
  have hsignals : polls.any signalled = false := by
    rw [List.any_eq_false]
    intro poll hpoll
    simp [(hall hquiet poll hpoll).1]
  have hfailed : s.subscriber.pollFailed = false := by
    rw [hinv.pollFailed]
    cases hlast : polls.getLast? with
    | none => rfl
    | some poll => exact (hall hquiet poll (List.mem_of_getLast? hlast)).2
  rw [pollGuard_iff, hinv.watching.running, hinv.watching.targetMessages,
    UInt64.lt_iff_toNat_lt, hreceived, hinv.watching.received.recorded_length, hsignals, hfailed,
    hstopped]
  simp

omit hrun hvalid in
theorem productive_split (moves : List Move) :
    moves.countP productive ≤ (turns moves).length + (receiveReadings moves).length := by
  induction moves using List.reverseRecOn with
  | nil => simp
  | append_singleton moves m ih =>
    rw [receiveReadings_snoc, List.length_append]
    cases m with
    | publish it =>
      rw [countP_snoc_pos moves rfl, turns_publish, List.length_append, List.length_singleton]
      omega
    | poll readings result signal =>
      rw [turns_poll]
      cases readings with
      | nil =>
        rw [countP_snoc_neg moves rfl]
        omega
      | cons reading readings =>
        rw [countP_snoc_pos moves rfl, readingsOf, List.length_cons]
        omega

/-- The publisher has its turns and the subscriber its messages, and there are no more. -/
theorem productive_le :
    moves.countP productive ≤ config.messageCount.toNat * 1000002 := by
  have hsplit := productive_split moves
  have hturns := send_run_length_le hvalid (publisher_run hrun)
  obtain ⟨hgiven, haccepted, _, hsent⟩ := recorded_accepted hrun hvalid
  omega

end Runs

/-- Whatever order the two programs run in, as long as no poll fails and no signal stops the
subscriber: turns and delivering polls are bounded together; unless the state is quiescent one of
them can be made; in a quiescent state the subscriber is done exactly if its target was accepted,
and with a target beyond the publisher's count it never is. -/
theorem exchange_completes (sender receiver : ByteOrder) (config : Config)
    (hvalid : validateConfig config = .success) (fragmentLimit : Int)
    (hlimit : 1 ≤ fragmentLimit) (target : UInt64) (htarget : 0 < target.toNat)
    (garbage : ℕ → UInt8) (publisherStart subscriberStart : TimestampNs)
    (publisherStopped : Bool) (moves : List Move) (s : System)
    (hrun : Run (SystemStep sender receiver config fragmentLimit)
      (startSystem config target garbage publisherStart subscriberStart publisherStopped false)
      moves s)
    (hquiet : moves.all quiet = true) :
    moves.countP productive ≤ config.messageCount.toNat * 1000002 ∧
      (¬Quiescent config s → ∃ m t, productive m = true ∧ quiet m = true ∧
        SystemStep sender receiver config fragmentLimit s m t) ∧
      (Quiescent config s →
        (pollGuard s.subscriber = false ↔ target ≤ s.publisher.stats.messagesSent)) ∧
      (config.messageCount < target → pollGuard s.subscriber = true) := by
  have hpolls := polls_on_iff hrun hvalid htarget rfl hquiet
  obtain ⟨_, haccepted, _, hsent⟩ := recorded_accepted hrun hvalid
  refine ⟨productive_le hrun hvalid, ?_, ?_, ?_⟩
  · intro hactive
    cases hguard : sendGuard config s.publisher with
    | true => exact ⟨.publish ⟨0, 1, false⟩, _, rfl, rfl, hguard, rfl⟩
    | false =>
      have hwaiting : pollGuard s.subscriber = true ∧ s.queue ≠ [] := by
        simpa [Quiescent, hguard] using hactive
      have hqueued := List.length_pos_of_ne_nil hwaiting.2
      exact ⟨.poll [0] 0 false, _, rfl, rfl, hwaiting.1, hlimit, hqueued, rfl⟩
  · rintro ⟨_, hover⟩
    rw [← Bool.not_eq_true, hpolls, Nat.not_lt, UInt64.le_iff_toNat_le]
    rcases hover with hdone | hempty
    · rw [← Bool.not_eq_true, hpolls, Nat.not_lt] at hdone
      omega
    · rw [hempty, List.length_nil] at haccepted
      omega
  · intro hshort
    rw [hpolls]
    have hlt := UInt64.lt_iff_toNat_lt.mp hshort
    omega

/-- Two messages are sent and delivered together to a subscriber that waits for two. -/
theorem two_delivered_complete :
    ∃ s, Run (SystemStep .little .big (sizedConfig 16 2 2) defaultFragmentLimit)
        (startSystem (sizedConfig 16 2 2) 2 (fun _ => 0) 0 0 false false)
        [.publish ⟨1, 64, false⟩, .publish ⟨2, 128, false⟩, .poll [8, 9] 2 false] s ∧
      Quiescent (sizedConfig 16 2 2) s ∧ pollGuard s.subscriber = false ∧
      s.publisher.stats.messagesSent = 2 ∧
      (pollGuard s.subscriber = false ↔ (2 : UInt64) ≤ s.publisher.stats.messagesSent) := by
  have hrun : Run (SystemStep .little .big (sizedConfig 16 2 2) defaultFragmentLimit)
      (startSystem (sizedConfig 16 2 2) 2 (fun _ => 0) 0 0 false false)
      ([] ++ [.publish ⟨1, 64, false⟩] ++ [.publish ⟨2, 128, false⟩] ++ [.poll [8, 9] 2 false]) _ :=
    Run.snoc (Run.snoc (Run.snoc (Run.nil _) ⟨by decide, rfl⟩) ⟨by decide, rfl⟩)
      ⟨by decide, by decide, by decide, rfl⟩
  have hcompletes := exchange_completes .little .big (sizedConfig 16 2 2) (by decide)
    defaultFragmentLimit (by decide) 2 (by decide) (fun _ => 0) 0 0 false _ _ hrun (by decide)
  exact ⟨_, hrun, ⟨by decide, Or.inr (by rfl)⟩, by decide, by decide,
    hcompletes.2.2.1 ⟨by decide, Or.inr (by rfl)⟩⟩

end AeronFast.ExchangeCompletion
