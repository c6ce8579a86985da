import AeronFast.PublisherRuns
import AeronFast.SubscriberBooks

/-!
Publisher and subscriber together. Aeron is a queue of the messages whose
offer was accepted; it delivers them once each and in order. The two loops
take turns in any order, on hosts of any byte order. Accepted messages are at
every moment either delivered or queued, and that alone gives the agreement
of the two programs' books.
-/
namespace AeronFast.EndToEnd

open CommonTypes ByteBuffers BinaryMessage ConfigParser LabelledRuns WordArithmetic
open BinaryPublisher BinarySubscriber PublisherRuns PublisherRuns.Iteration
open SubscriberRuns SubscriberBooks

structure System where
  publisher : Publisher
  subscriber : Subscriber
  queue : List (List UInt8)

/-- A turn of the send loop, or a poll that delivers a message for each of the readings. -/
inductive Move
  | publish (it : Iteration)
  | poll (readings : List TimestampNs) (result : Int) (signal : Bool)

def publishOf : Move → Option Iteration
  | .publish it => some it
  | .poll _ _ _ => none

def readingsOf : Move → List TimestampNs
  | .publish _ => []
  | .poll readings _ _ => readings

/-- The turns of the publisher, oldest first. -/
def turns (moves : List Move) : List Iteration := moves.filterMap publishOf

/-- The turns whose offer was accepted. -/
def successes (moves : List Move) : List Iteration := (turns moves).filter sent

/-- The receive readings of the subscriber. -/
def receiveReadings (moves : List Move) : List TimestampNs := moves.flatMap readingsOf

section Moves

variable (sender receiver : ByteOrder) (config : Config) (fragmentLimit : Int)

def publishMove (it : Iteration) (s : System) : System :=
  { s with
    publisher := sendIteration sender config it s.publisher
    queue :=
      if 0 < it.result then
        s.queue ++
          [createBinaryMessage sender s.publisher.messageBuffer config.messageSize it.clock]
      else s.queue }

/-- The oldest queued messages, each with the reading taken when it is handled. -/
def pollFragments (readings : List TimestampNs) (s : System) : List Fragment :=
  ((s.queue.take readings.length).zip readings).map (fun p => ⟨p.1, p.2⟩)

def pollMove (readings : List TimestampNs) (result : Int) (signal : Bool) (s : System) :
    System :=
  { s with
    subscriber := pollIteration receiver ⟨pollFragments readings s, result, signal⟩ s.subscriber
    queue := s.queue.drop readings.length }

def SystemStep (s : System) (m : Move) (t : System) : Prop :=
  match m with
  | .publish it => sendGuard config s.publisher = true ∧ t = publishMove sender config it s
  | .poll readings result signal =>
      pollGuard s.subscriber = true ∧ (readings.length : Int) ≤ fragmentLimit ∧
        readings.length ≤ s.queue.length ∧ t = pollMove receiver readings result signal s

def startSystem (target : UInt64) (garbage : ℕ → UInt8)
    (publisherStart subscriberStart : TimestampNs) (publisherStopped subscriberStopped : Bool) :
    System where
  publisher := startPublisher config garbage publisherStart publisherStopped
  subscriber := startSubscriber target subscriberStart subscriberStopped
  queue := []

/-- Every accepted message has been handed to the subscriber or is still queued. -/
structure Conserved (publisherStopped : Bool) (moves : List Move) (s : System) : Prop where
  publisher : SendInvariant config publisherStopped (turns moves) s.publisher
  delivered : ∃ fragments : List Fragment,
    Received receiver fragments s.subscriber ∧
      fragments.map Fragment.clock = receiveReadings moves ∧
      fragments.map Fragment.buffer ++ s.queue =
        (successes moves).map (fun it => referenceEncoding config.messageSize.toNat it.clock)

theorem turns_publish (moves : List Move) (it : Iteration) :
    turns (moves ++ [.publish it]) = turns moves ++ [it] := by
  simp [turns, publishOf, List.filterMap_append]

theorem turns_poll (moves : List Move) (readings : List TimestampNs) (result : Int)
    (signal : Bool) : turns (moves ++ [.poll readings result signal]) = turns moves := by
  simp [turns, publishOf, List.filterMap_append]

theorem successes_sent (moves : List Move) (it : Iteration) (h : sent it = true) :
    successes (moves ++ [.publish it]) = successes moves ++ [it] := by
  simp [successes, turns_publish, List.filter_append, h]

theorem successes_not_sent (moves : List Move) (it : Iteration) (h : sent it = false) :
    successes (moves ++ [.publish it]) = successes moves := by
  simp [successes, turns_publish, List.filter_append, h]

theorem receiveReadings_snoc (moves : List Move) (m : Move) :
    receiveReadings (moves ++ [m]) = receiveReadings moves ++ readingsOf m := by
  simp [receiveReadings, List.flatMap_append]

theorem pollFragments_buffer (readings : List TimestampNs) (s : System)
    (h : readings.length ≤ s.queue.length) :
    (pollFragments readings s).map Fragment.buffer = s.queue.take readings.length := by
  rw [pollFragments, List.map_map]
  exact List.map_fst_zip (by rw [List.length_take]; omega)

theorem pollFragments_clock (readings : List TimestampNs) (s : System)
    (h : readings.length ≤ s.queue.length) :
    (pollFragments readings s).map Fragment.clock = readings := by
  rw [pollFragments, List.map_map]
  exact List.map_snd_zip (by rw [List.length_take]; omega)

variable (hvalid : validateConfig config = .success)
include hvalid

theorem conserved_publish (publisherStopped : Bool) (moves : List Move) (it : Iteration)
    (s : System) (hs : Conserved receiver config publisherStopped moves s)
    (hguard : sendGuard config s.publisher = true) :
    Conserved receiver config publisherStopped (moves ++ [.publish it])
      (publishMove sender config it s) := by
  have hp := hs.publisher
  have hsize := (validateConfig_success config hvalid).1
  have hmessage := createBinaryMessage_eq sender s.publisher.messageBuffer config.messageSize
    it.clock hp.encoded.bufferLength hsize
  constructor
  · rw [turns_publish]
    exact ⟨counted_step sender config _ it _ hp.counted hguard,
      controlled_step sender config publisherStopped _ it _ hp.counted hp.controlled hguard,
      encoded_step sender config _ it _ hvalid hp.encoded⟩
  · obtain ⟨fragments, hreceived, hclocks, hqueue⟩ := hs.delivered
    refine ⟨fragments, hreceived, ?_, ?_⟩
    · rw [receiveReadings_snoc, readingsOf, List.append_nil]
      exact hclocks
    · cases hsent : sent it with
      | true =>
        have hpos : 0 < it.result := of_decide_eq_true hsent
        rw [publishMove, if_pos hpos, hmessage, successes_sent moves it hsent, List.map_append,
          ← hqueue, List.append_assoc]
        rfl
      | false =>
        have hneg : ¬ 0 < it.result := of_decide_eq_false hsent
        rw [publishMove, if_neg hneg, successes_not_sent moves it hsent]
        exact hqueue

omit hvalid in
theorem conserved_poll (publisherStopped : Bool) (moves : List Move)
    (readings : List TimestampNs) (result : Int) (signal : Bool) (s : System)
    (hs : Conserved receiver config publisherStopped moves s)
    (hqueued : readings.length ≤ s.queue.length) :
    Conserved receiver config publisherStopped (moves ++ [.poll readings result signal])
      (pollMove receiver readings result signal s) := by
  obtain ⟨fragments, hreceived, hclocks, hqueue⟩ := hs.delivered
  constructor
  · rw [turns_poll]
    exact hs.publisher
  · refine ⟨fragments ++ pollFragments readings s,
      received_pollIteration ⟨pollFragments readings s, result, signal⟩ hreceived, ?_, ?_⟩
    · rw [List.map_append, hclocks, pollFragments_clock readings s hqueued,
        receiveReadings_snoc]
      rfl
    · rw [List.map_append, pollFragments_buffer readings s hqueued, List.append_assoc]
      simp only [pollMove, List.take_append_drop]
      rw [hqueue, successes, successes, turns_poll]

theorem conserved_run (target : UInt64) (garbage : ℕ → UInt8)
    (publisherStart subscriberStart : TimestampNs) (publisherStopped subscriberStopped : Bool)
    {moves : List Move} {s : System}
    (hrun : Run (SystemStep sender receiver config fragmentLimit)
      (startSystem config target garbage publisherStart subscriberStart publisherStopped
        subscriberStopped) moves s) :
    Conserved receiver config publisherStopped moves s := by
  apply hrun.invariant (P := Conserved receiver config publisherStopped)
  · exact ⟨⟨counted_start config garbage publisherStart publisherStopped,
      controlled_start config garbage publisherStart publisherStopped hvalid,
      encoded_start config garbage publisherStart publisherStopped⟩,
      [], received_start receiver target subscriberStart subscriberStopped, rfl, rfl⟩
  · intro moves t m u _ ih hstep
    cases m with
    | publish it =>
      obtain ⟨hguard, rfl⟩ := hstep
      exact conserved_publish sender receiver config hvalid publisherStopped moves it t ih hguard
    | poll readings result signal =>
      obtain ⟨_, _, hqueued, rfl⟩ := hstep
      exact conserved_poll receiver config publisherStopped moves readings result signal t ih
        hqueued

end Moves

/-- The agreement of the two programs' books, and where each recorded latency comes from. -/
structure Agreement (moves : List Move) (s : System) : Prop where
  messages : s.publisher.stats.messagesSent.toNat =
    s.subscriber.stats.messagesReceived.toNat + s.queue.length
  bytes : s.publisher.stats.bytesSent.toNat =
    (s.subscriber.stats.bytesReceived.toNat + (s.queue.map List.length).sum) % 2 ^ 64
  latencyCount : s.subscriber.recorded.length = (receiveReadings moves).length
  latencies : ∀ (k : ℕ) (l : UInt64), s.subscriber.recorded[k]? = some l →
    ∃ reading it, (receiveReadings moves)[k]? = some reading ∧
      (successes moves)[k]? = some it ∧ l = reading - it.clock

section Agreement

variable (receiver : ByteOrder) (config : Config)
variable {publisherStopped : Bool} {moves : List Move} {s : System}

theorem sum_lengths (messages : List (List UInt8)) (n : ℕ)
    (h : ∀ m ∈ messages, m.length = n) : (messages.map List.length).sum = messages.length * n := by
  have hall : ∀ k ∈ messages.map List.length, k = n := by
    intro k hk
    obtain ⟨m, hm, rfl⟩ := List.mem_map.mp hk
    exact h m hm
  rw [List.sum_eq_card_nsmul _ n hall, List.length_map, smul_eq_mul]

/-- A delivered message that is the `k`-th of the accepted ones carries that turn's reading. -/
theorem latency_of_delivered (fragments : List Fragment) (queue : List (List UInt8))
    (accepted : List Iteration) (size k : ℕ) (f : Fragment)
    (hqueue : fragments.map Fragment.buffer ++ queue =
      accepted.map (fun it => referenceEncoding size it.clock))
    (hf : fragments[k]? = some f) :
    ∃ it, accepted[k]? = some it ∧ fragmentLatency receiver f = f.clock - it.clock := by
  have hbuffer : (fragments.map Fragment.buffer ++ queue)[k]? = some f.buffer := by
    have hlt := (List.getElem?_eq_some_iff.mp hf).1
    rw [List.getElem?_append_left (by simpa using hlt), List.getElem?_map, hf]
    rfl
  rw [hqueue, List.getElem?_map] at hbuffer
  obtain ⟨it, hit, hencoded⟩ := Option.map_eq_some_iff.mp hbuffer
  have hparse := parse_referenceEncoding receiver size it.clock []
  rw [List.append_nil, hencoded] at hparse
  exact ⟨it, hit, by rw [fragmentLatency, hparse]⟩

theorem agreement_of_conserved (hvalid : validateConfig config = .success)
    (hs : Conserved receiver config publisherStopped moves s) : Agreement moves s := by
  have hsize := (validateConfig_success config hvalid).1
  obtain ⟨fragments, hreceived, hclocks, hqueue⟩ := hs.delivered
  have hlength : ∀ message ∈ fragments.map Fragment.buffer ++ s.queue,
      message.length = config.messageSize.toNat := by
    intro message hmessage
    rw [hqueue] at hmessage
    obtain ⟨it, _, rfl⟩ := List.mem_map.mp hmessage
    exact referenceEncoding_length _ _ hsize
  have hcounted : ∀ f ∈ fragments, timestampSize ≤ f.buffer.length := by
    intro f hf
    rw [hlength f.buffer (List.mem_append_left _ (List.mem_map_of_mem hf))]
    exact hsize
  have hlatencies := latencies_of_counted receiver fragments hcounted
  -- accepted = delivered + queued
  have htotal : (turns moves).countP sent = fragments.length + s.queue.length := by
    have hlengths := congrArg List.length hqueue
    rw [List.length_append, List.length_map, List.length_map] at hlengths
    rw [List.countP_eq_length_filter, hlengths]
    rfl
  have hsent : s.publisher.stats.messagesSent.toNat = (turns moves).countP sent := by
    rw [hs.publisher.counted.messagesSent, hs.publisher.counted.successfulSends]
  have hword := word_lt s.publisher.stats.messagesSent
  have hmessages : s.subscriber.stats.messagesReceived.toNat = fragments.length := by
    rw [hreceived.messagesReceived, hlatencies, List.length_map, Nat.mod_eq_of_lt (by omega)]
  refine ⟨by omega, ?_, ?_, ?_⟩
  · have hdelivered : byteTotal fragments = fragments.length * config.messageSize.toNat := by
      apply byteTotal_uniform fragments _ hsize
      intro f hf
      exact hlength f.buffer (List.mem_append_left _ (List.mem_map_of_mem hf))
    rw [hs.publisher.counted.bytesSent, htotal, hreceived.bytesReceived, hdelivered,
      sum_lengths s.queue _ (fun m hm => hlength m (List.mem_append_right _ hm)),
      Nat.mod_add_mod, Nat.add_mul]
  · rw [hreceived.recorded, hlatencies, ← hclocks, List.length_map, List.length_map]
  · intro k l hl
    rw [hreceived.recorded, hlatencies, List.getElem?_map] at hl
    obtain ⟨f, hf, hfl⟩ := Option.map_eq_some_iff.mp hl
    obtain ⟨it, hit, hlatency⟩ := latency_of_delivered receiver fragments s.queue
      (successes moves) _ k f hqueue hf
    refine ⟨f.clock, it, ?_, hit, hfl.symm.trans hlatency⟩
    rw [← hclocks, List.getElem?_map, hf]
    rfl

theorem sent_le_count (hs : Conserved receiver config publisherStopped moves s) :
    s.publisher.stats.messagesSent ≤ config.messageCount := by
  rw [hs.publisher.counted.messagesSent, UInt64.le_iff_toNat_le,
    hs.publisher.counted.successfulSends]
  exact countP_sent_le config publisherStopped _ _ hs.publisher

end Agreement

/-- After every interleaving of publisher turns and polls the books of the two programs agree.
Run with the same count, the subscriber never counts more than the count, and once it has
counted that many nothing is queued and the publisher has sent them all. -/
theorem end_to_end_agreement (sender receiver : ByteOrder) (config : Config)
    (hvalid : validateConfig config = .success) (fragmentLimit : Int) (target : UInt64)
    (garbage : ℕ → UInt8) (publisherStart subscriberStart : TimestampNs)
    (publisherStopped subscriberStopped : Bool) (moves : List Move) (s : System)
    (hrun : Run (SystemStep sender receiver config fragmentLimit)
      (startSystem config target garbage publisherStart subscriberStart publisherStopped
        subscriberStopped) moves s) :
    Agreement moves s ∧
      (config.messageCount = target →
        s.subscriber.stats.messagesReceived ≤ target ∧
          (s.subscriber.stats.messagesReceived = target →
            s.queue = [] ∧ s.publisher.stats.messagesSent = target)) := by
  have hs := conserved_run sender receiver config fragmentLimit hvalid target garbage
    publisherStart subscriberStart publisherStopped subscriberStopped hrun
  have hagree := agreement_of_conserved receiver config hvalid hs
  have hbound := UInt64.le_iff_toNat_le.mp (sent_le_count receiver config hs)
  have hmessages := hagree.messages
  refine ⟨hagree, ?_⟩
  rintro rfl
  constructor
  · rw [UInt64.le_iff_toNat_le]
    omega
  · intro hreached
    have hword := congrArg UInt64.toNat hreached
    constructor
    · apply List.eq_nil_of_length_eq_zero
      omega
    · apply UInt64.toNat_inj.mp
      omega

/-- A refused offer, an accepted one and a poll that delivers it. -/
theorem delivered_agreement :
    ∃ s, Run (SystemStep .little .big (sizedConfig 16 2 2) defaultFragmentLimit)
        (startSystem (sizedConfig 16 2 2) 2 (fun _ => 0) 0 0 false false)
        [.publish ⟨1, aeronPublicationBackPressured, false⟩, .publish ⟨2, 64, false⟩,
          .poll [9] 1 false] s ∧
      s.subscriber.stats.messagesReceived = 1 ∧
      Agreement [.publish ⟨1, aeronPublicationBackPressured, false⟩,
        .publish ⟨2, 64, false⟩, .poll [9] 1 false] s ∧
      s.subscriber.stats.messagesReceived ≤ 2 := by
  have hrun : Run (SystemStep .little .big (sizedConfig 16 2 2) defaultFragmentLimit)
      (startSystem (sizedConfig 16 2 2) 2 (fun _ => 0) 0 0 false false)
      ([] ++ [.publish ⟨1, aeronPublicationBackPressured, false⟩] ++
        [.publish ⟨2, 64, false⟩] ++ [.poll [9] 1 false]) _ :=
    Run.snoc (Run.snoc (Run.snoc (Run.nil _) ⟨by decide, rfl⟩) ⟨by decide, rfl⟩)
      ⟨by decide, by decide, by decide, rfl⟩
  have h := end_to_end_agreement .little .big (sizedConfig 16 2 2) (by decide)
    defaultFragmentLimit 2 (fun _ => 0) 0 0 false false _ _ hrun
  exact ⟨_, hrun, by decide, h.1, (h.2 rfl).1⟩

end AeronFast.EndToEnd
