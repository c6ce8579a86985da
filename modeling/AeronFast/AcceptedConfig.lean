import AeronFast.AddressFields
import AeronFast.PublisherRuns
import AeronFast.SubscriberLoop

/-!
What an accepted configuration rules out later. The parsers establish it in
the defaults, the environment, the options and the final check; the encoder,
the handler, the two main loops and the channel rely on it. No accepted list
of options reaches the silent early return of the encoder, a message the
handler skips, a loop without a turn, a send loop without an end or the
fallback of the channel.
-/
namespace AeronFast.AcceptedConfig

open CommonTypes ByteBuffers ConfigParser BinaryMessage LabelledRuns ParsedOptions AddressFields
open SubscriberRuns

/-- What the fields of an accepted configuration promise. -/
structure FieldGuarantees (program : Program) (options : List Decoded) (config : Config) :
    Prop where
  messageSize : minMessageSize ≤ config.messageSize.toNat
  messageCount : config.messageCount ≠ 0
  targetMessageCount : config.targetMessageCount ≠ 0
  channel : ∃ i, i < 256 ∧ config.channel[i]? = some nul
  customEndpoint : ∃ i, i < 64 ∧ config.customEndpoint[i]? = some nul
  aeronDir : ∃ i, i < 256 ∧ config.aeronDir[i]? = some nul
  transportType : config.transportType = .udp ∨ config.transportType = .ipc ∨
    config.transportType = .networkUdp
  effectiveChannel : ∀ buffer,
    (getEffectiveChannel config buffer 512).map cString = some (channelText config)
  networkChannel : config.transportType = .networkUdp →
    ∃ arg, lastArg program.endpoints options = some arg ∧ (cString arg).take 63 ≠ [] ∧
      channelText config =
        "aeron:udp?endpoint=".toList ++ (cString arg).take 63 ++ ":20121".toList

/-- What the two programs may rely on when they run with the configuration. -/
structure RunGuarantees (config : Config) : Prop where
  encoded : ∀ host garbage startTime stopped labels p,
    Run (BinaryPublisher.SendStep host config)
      (BinaryPublisher.startPublisher config garbage startTime stopped) labels p →
    p.offered = labels.map (fun it => referenceEncoding config.messageSize.toNat it.clock)
  counted : ∀ host garbage startTime stopped labels p,
    Run (BinaryPublisher.SendStep host config)
      (BinaryPublisher.startPublisher config garbage startTime stopped) labels p →
    ∀ message ∈ p.offered, ∀ receiver clock s,
      BinarySubscriber.processMessageFragment receiver ⟨message, clock⟩ s =
          BinarySubscriber.checkTarget clock
            (BinarySubscriber.countFragment receiver ⟨message, clock⟩ s) ∧
        (BinarySubscriber.processMessageFragment receiver ⟨message, clock⟩
          s).stats.messagesReceived = s.stats.messagesReceived + 1
  publisherTurn : ∀ host garbage startTime iterations finalTime fuel r,
    BinaryPublisher.runPublisher host config
      ⟨some garbage, startTime, false, iterations, finalTime⟩ fuel = some r → 1 ≤ r.turns
  subscriberTurn : ∀ host startTime polls endTime fuel r,
    BinarySubscriber.runSubscriber host config
      ⟨true, startTime, false, polls, endTime⟩ fuel = some r → 1 ≤ r.turns

theorem exists_index_of_mem {bytes : List Char} {size : ℕ} (hlength : bytes.length = size)
    (h : nul ∈ bytes) : ∃ i, i < size ∧ bytes[i]? = some nul := by
  obtain ⟨i, hi⟩ := List.getElem?_of_mem h
  have hlt := (List.getElem?_eq_some_iff.mp hi).1
  exact ⟨i, hlength ▸ hlt, hi⟩

section Fields

variable {program : Program} {memory : ConfigMemory} {env : Option (List Char)}
variable {options : List Decoded} {config : Config}

/-- In NETWORK_UDP mode the final check has seen an endpoint, and only an option sets one. -/
theorem exists_endpoint_arg (hparse : program.parseArgs memory.1 env options = .ok config)
    (hnetwork : config.transportType = .networkUdp) :
    ∃ arg, lastArg program.endpoints options = some arg ∧ (cString arg).take 63 ≠ [] := by
  have hne : cString config.customEndpoint ≠ [] := by
    intro hempty
    have hterminated := accepted_terminated hparse
    have hhead := (head?_eq_nul_iff _ (List.ne_nil_of_mem hterminated.customEndpoint)).mpr hempty
    rcases validateConfig_cases config with ⟨_, _, _, _, hendpoint⟩ | ⟨hinvalid, _⟩
    · exact hendpoint ⟨hnetwork, hhead⟩
    · exact absurd ((accepted_valid hparse).symm.trans hinvalid) (by decide)
  rw [accepted_endpoint hparse] at hne
  cases harg : lastArg program.endpoints options with
  | none =>
    rw [harg] at hne
    exact absurd rfl hne
  | some arg =>
    rw [harg] at hne
    exact ⟨arg, rfl, hne⟩

theorem fieldGuarantees (hparse : program.parseArgs memory.1 env options = .ok config) :
    FieldGuarantees program options config := by
  obtain ⟨hsize, hcount, htarget⟩ := validateConfig_success config (accepted_valid hparse)
  have hterminated := accepted_terminated hparse
  have hlength : (cString config.customEndpoint).length ≤ 63 := by
    rw [accepted_endpoint hparse]
    cases lastArg program.endpoints options with
    | none => simp
    | some arg =>
      rw [Option.elim_some, List.length_take]
      omega
  refine ⟨hsize, ?_, ?_, exists_index_of_mem hterminated.sizes.channel hterminated.channel,
    exists_index_of_mem hterminated.sizes.customEndpoint hterminated.customEndpoint,
    exists_index_of_mem hterminated.sizes.aeronDir hterminated.aeronDir, ?_,
    effective_channel config hlength, ?_⟩
  · rintro hzero
    rw [hzero] at hcount
    exact absurd hcount (by decide)
  · rintro hzero
    rw [hzero] at htarget
    exact absurd htarget (by decide)
  · cases config.transportType with
    | udp => exact Or.inl rfl
    | ipc => exact Or.inr (Or.inl rfl)
    | networkUdp => exact Or.inr (Or.inr rfl)
  · intro hnetwork
    obtain ⟨arg, harg, hne⟩ := exists_endpoint_arg hparse hnetwork
    refine ⟨arg, harg, hne, ?_⟩
    have hwhole : cString arg ≠ [] := by
      intro hempty
      rw [hempty] at hne
      exact hne rfl
    have hchannel := (shortened_of_accepted hparse).channel arg harg hwhole
      (by rw [hnetwork]; decide) []
    rw [effective_channel config hlength] at hchannel
    exact Option.some.inj hchannel

end Fields

section Runs

variable {config : Config} (hvalid : validateConfig config = .success)
include hvalid

theorem counted_of_encoded (it : BinaryPublisher.Iteration) (receiver : ByteOrder)
    (clock : TimestampNs) (s : BinarySubscriber.Subscriber) :
    BinarySubscriber.processMessageFragment receiver
          ⟨referenceEncoding config.messageSize.toNat it.clock, clock⟩ s =
        BinarySubscriber.checkTarget clock (BinarySubscriber.countFragment receiver
          ⟨referenceEncoding config.messageSize.toNat it.clock, clock⟩ s) ∧
      (BinarySubscriber.processMessageFragment receiver
        ⟨referenceEncoding config.messageSize.toNat it.clock, clock⟩ s).stats.messagesReceived =
        s.stats.messagesReceived + 1 := by
  have hsize := (validateConfig_success config hvalid).1
  have hcounted : counted ⟨referenceEncoding config.messageSize.toNat it.clock, clock⟩ = true := by
    simp only [counted, referenceEncoding_length _ it.clock hsize]
    exact decide_eq_true hsize
  have hprocess := process_counted receiver _ s hcounted
  refine ⟨hprocess, ?_⟩
  rw [hprocess, BinarySubscriber.checkTarget]
  split <;> rfl

theorem runGuarantees : RunGuarantees config := by
  obtain ⟨_, hcount, htarget⟩ := validateConfig_success config hvalid
  have hencoded (host : ByteOrder) (garbage : ℕ → UInt8) (startTime : TimestampNs)
      (stopped : Bool) (labels : List BinaryPublisher.Iteration) (p : BinaryPublisher.Publisher)
      (hrun : Run (BinaryPublisher.SendStep host config)
        (BinaryPublisher.startPublisher config garbage startTime stopped) labels p) :=
    (PublisherRuns.send_invariant host config garbage startTime stopped hvalid hrun).encoded.offered
  refine ⟨hencoded, ?_, ?_, ?_⟩
  · intro host garbage startTime stopped labels p hrun message hmessage receiver clock s
    rw [hencoded host garbage startTime stopped labels p hrun] at hmessage
    obtain ⟨it, _, rfl⟩ := List.mem_map.mp hmessage
    exact counted_of_encoded hvalid it receiver clock s
  · intro host garbage startTime iterations finalTime fuel r hrun
    obtain ⟨k, p, _, hp, hhalt, rfl⟩ := (PublisherRuns.runPublisher_eq_some_iff host config garbage
      startTime finalTime false iterations fuel r).mp hrun
    -- the loop test passes in the start state, so it is not the state the loop ended in
    cases k with
    | zero =>
      rw [loop_run_eq_foldl hp] at hhalt
      have hguard : BinaryPublisher.sendGuard config
          (BinaryPublisher.startPublisher config garbage startTime false) = true :=
        (PublisherRuns.sendGuard_iff config _).mpr
          ⟨rfl, rfl, UInt64.lt_iff_toNat_lt.mpr hcount⟩
      exact absurd (hguard.symm.trans hhalt) (by decide)
    | succ k => exact Nat.succ_le_succ (Nat.zero_le k)
  · intro host startTime polls endTime fuel r hrun
    obtain ⟨k, s, _, hs, hhalt, rfl⟩ := (SubscriberLoop.runSubscriber_eq_some_iff host startTime
      false config endTime polls fuel r).mp hrun
    cases k with
    | zero =>
      rw [loop_run_eq_foldl hs] at hhalt
      have hguard : BinarySubscriber.pollGuard
          (BinarySubscriber.startSubscriber config.targetMessageCount startTime false) = true :=
        (SubscriberLoop.pollGuard_iff _).mpr ⟨rfl, rfl, UInt64.lt_iff_toNat_lt.mpr htarget⟩
      exact absurd (hguard.symm.trans hhalt) (by decide)
    | succ k => exact Nat.succ_le_succ (Nat.zero_le k)

end Runs

/-- The send loop of an accepted configuration ends whatever Aeron answers and the clock reads,
with no stop signal to help it: every message may cost a million retries and one acceptance. -/
theorem send_loop_ends (program : Program) (memory : ConfigMemory) (env : Option (List Char))
    (options : List Decoded) (config : Config)
    (hparse : program.parseArgs memory.1 env options = .ok config) (host : ByteOrder)
    (garbage : ℕ → UInt8) (startTime finalTime : TimestampNs)
    (iterations : ℕ → BinaryPublisher.Iteration)
    (hsignal : ∀ i, (iterations i).signal = false) :
    ∃ r p, BinaryPublisher.runPublisher host config
        ⟨some garbage, startTime, false, iterations, finalTime⟩
        (config.messageCount.toNat * 1000001) = some r ∧
      r.final = some p ∧ p.offered.length = r.turns ∧ p.exit ≠ none ∧
      r.turns ≤ config.messageCount.toNat * 1000001 := by
  have hvalid := accepted_valid hparse
  obtain ⟨k, p, hk, hrun, hhalt⟩ :=
    PublisherRuns.exists_send_halt host config garbage startTime false hvalid iterations
  have hinv := PublisherRuns.send_invariant host config garbage startTime false hvalid hrun
  refine ⟨_, { p with running := false },
    (PublisherRuns.runPublisher_eq_some_iff host config garbage startTime finalTime false
      iterations _ _).mpr ⟨k, p, hk, hrun, hhalt, rfl⟩, rfl, ?_, ?_, hk⟩
  · simp only [hinv.encoded.offered, List.length_map, streamPrefix, List.length_range]
  · -- nothing stopped the loop from outside, so it was left by one of its breaks
    rcases PublisherRuns.halted_cases config false _ p hinv hhalt with hexit | hstopped
    · exact hexit
    · rw [hinv.controlled.running, Bool.not_false, Bool.true_and, List.all_eq_false] at hstopped
      obtain ⟨it, hit, hbad⟩ := hstopped
      obtain ⟨j, _, rfl⟩ := mem_streamPrefix.mp hit
      simp [hsignal j] at hbad

/-- Back pressure for ever: one message, given up after a million and one offers. -/
theorem refused_send_loop_ends :
    ∃ r p, BinaryPublisher.runPublisher .little (sizedConfig 16 1 defaultTargetMessageCount)
        ⟨some (fun _ => 0), 0, false,
          fun _ => ⟨0, BinaryPublisher.aeronPublicationBackPressured, false⟩, 0⟩
        ((sizedConfig 16 1 defaultTargetMessageCount).messageCount.toNat * 1000001) = some r ∧
      r.final = some p ∧ p.offered.length = r.turns ∧ p.exit ≠ none ∧
      r.turns ≤ (sizedConfig 16 1 defaultTargetMessageCount).messageCount.toNat * 1000001 :=
  send_loop_ends .publisher blankMemory none [('s', "16".toList), ('c', "1".toList)] _ rfl .little
    (fun _ => 0) 0 0 _ (fun _ => rfl)

/-- Every configuration either parser accepts, whatever the options, the environment and the
memory it was handed, keeps these promises. -/
theorem fallbacks_unreachable (program : Program) (memory : ConfigMemory)
    (env : Option (List Char)) (options : List Decoded) (config : Config)
    (hparse : program.parseArgs memory.1 env options = .ok config) :
    FieldGuarantees program options config ∧ RunGuarantees config :=
  ⟨fieldGuarantees hparse, runGuarantees (accepted_valid hparse)⟩

/-- A valid endpoint, then an over-long one, in NETWORK_UDP mode. -/
theorem networkOptions_guaranteed :
    ∃ config, parsePublisherArgs blankConfig none [('t', "network_udp".toList),
        ('b', "10.0.0.7".toList), ('e', List.replicate 70 'a')] = .ok config ∧
      config.transportType = .networkUdp ∧
      FieldGuarantees .publisher [('t', "network_udp".toList), ('b', "10.0.0.7".toList),
        ('e', List.replicate 70 'a')] config :=
  ⟨_, rfl, rfl, (fallbacks_unreachable .publisher blankMemory none _ _ rfl).1⟩

end AeronFast.AcceptedConfig
