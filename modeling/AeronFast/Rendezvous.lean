import AeronFast.ParsedOptions

/-!
Two command lines that say the same lead the two programs to the same place.
The parsers are separate copies of one loop with different option tables, so
the argument is a simulation: corresponding options end both loops with the
same code or keep the two configurations in agreement.
-/
namespace AeronFast.Rendezvous

open CommonTypes ConfigParser ParsedOptions

/-- The same option on both command lines; an endpoint goes by any alias of its side. -/
inductive Corresponds : Decoded → Decoded → Prop
  | count (arg : List Char) : Corresponds ('c', arg) ('c', arg)
  | transport (arg : List Char) : Corresponds ('t', arg) ('t', arg)
  | endpoint (p s : Char) (arg : List Char) (hp : p ∈ publisherEndpoints)
      (hs : s ∈ subscriberEndpoints) : Corresponds (p, arg) (s, arg)

def isCount (o : Decoded) : Bool := o.1 = 'c'

/-- The configurations of the two programs while the loops run; `counted` tells whether a
count has been given. -/
structure Agree (counted : Bool) (pub sub : Config) : Prop where
  transportType : pub.transportType = sub.transportType
  customEndpoint : cString pub.customEndpoint = cString sub.customEndpoint
  aeronDir : cString pub.aeronDir = cString sub.aeronDir
  streamId : pub.streamId = sub.streamId
  messageSize : pub.messageSize = sub.messageSize
  targetMessageCount : pub.targetMessageCount = defaultTargetMessageCount
  messageCount : sub.messageCount = defaultMessageCount
  given : counted = true → pub.messageCount = sub.targetMessageCount
  absent : counted = false → pub.messageCount = defaultMessageCount ∧
    sub.targetMessageCount = defaultTargetMessageCount

section Simulation

variable {p s : Decoded} {pub sub : Config} {counted : Bool}

theorem stop_eq (h : Corresponds p s) : publisherStop p = subscriberStop s := by
  cases h with
  | count arg => rfl
  | transport arg => rfl
  | endpoint p s arg hp hs =>
    have hpub : publisherStop (p, arg) = none := by
      simp only [publisherEndpoints, List.mem_cons, List.not_mem_nil, or_false] at hp
      rcases hp with rfl | rfl | rfl | rfl
      · rfl
      · rfl
      · rfl
      · rfl
    have hsub : subscriberStop (s, arg) = none := by
      simp only [subscriberEndpoints, List.mem_cons, List.not_mem_nil, or_false] at hs
      rcases hs with rfl | rfl | rfl
      · rfl
      · rfl
      · rfl
    rw [hpub, hsub]

theorem agree_set (h : Corresponds p s) (hagree : Agree counted pub sub) :
    Agree (counted || isCount p) (publisherSet pub p) (subscriberSet sub s) := by
  cases h with
  | count arg =>
    have hcounted : (counted || isCount ('c', arg)) = true := by simp [isCount]
    rw [hcounted]
    exact ⟨hagree.transportType, hagree.customEndpoint, hagree.aeronDir, hagree.streamId,
      hagree.messageSize, hagree.targetMessageCount, hagree.messageCount, fun _ => rfl,
      fun h => by cases h⟩
  | transport arg =>
    have hcounted : (counted || isCount ('t', arg)) = counted := by simp [isCount]
    rw [hcounted]
    rw [publisherSet_transport, subscriberSet_transport]
    exact ⟨congrArg (transportOf arg).getD hagree.transportType, hagree.customEndpoint,
      hagree.aeronDir, hagree.streamId, hagree.messageSize, hagree.targetMessageCount,
      hagree.messageCount, hagree.given, hagree.absent⟩
  | endpoint p s arg hp hs =>
    have hcounted : (counted || isCount (p, arg)) = counted := by
      have hne : p ≠ 'c' := by
        rintro rfl
        exact absurd hp (by decide)
      simp [isCount, hne]
    rw [hcounted, publisherSet_endpoint pub hp, subscriberSet_endpoint sub hs]
    refine ⟨hagree.transportType, ?_, hagree.aeronDir, hagree.streamId, hagree.messageSize,
      hagree.targetMessageCount, hagree.messageCount, hagree.given, hagree.absent⟩
    exact (cString_copyField _ _ 64).trans (cString_copyField _ _ 64).symm

variable {pubOptions subOptions : List Decoded}

theorem findSome?_stop_eq (h : List.Forall₂ Corresponds pubOptions subOptions) :
    pubOptions.findSome? publisherStop = subOptions.findSome? subscriberStop := by
  induction h with
  | nil => rfl
  | cons hpair _ ih => rw [List.findSome?_cons, List.findSome?_cons, stop_eq hpair, ih]

theorem agree_foldl (h : List.Forall₂ Corresponds pubOptions subOptions)
    (hagree : Agree counted pub sub) :
    Agree (counted || pubOptions.any isCount) (pubOptions.foldl publisherSet pub)
      (subOptions.foldl subscriberSet sub) := by
  induction h generalizing counted pub sub with
  | nil => simpa using hagree
  | cons hpair _ ih =>
    rw [List.any_cons, ← Bool.or_assoc]
    exact ih (agree_set hpair hagree)

/-- Agreeing configurations pass or fail the final check together. -/
theorem validateConfig_eq (hagree : Agree counted pub sub) (hpub : Terminated pub)
    (hsub : Terminated sub) : validateConfig pub = validateConfig sub := by
  have hendpoint : pub.customEndpoint.head? = some nul ↔ sub.customEndpoint.head? = some nul := by
    have hp := head?_eq_nul_iff _ (List.ne_nil_of_mem hpub.customEndpoint)
    have hs := head?_eq_nul_iff _ (List.ne_nil_of_mem hsub.customEndpoint)
    rw [hp, hs, hagree.customEndpoint]
  have hcounts : (pub.messageCount = 0 ∨ pub.targetMessageCount = 0) ↔
      (sub.messageCount = 0 ∨ sub.targetMessageCount = 0) := by
    have hdefault : ¬ defaultTargetMessageCount = 0 ∧ ¬ defaultMessageCount = 0 := by decide
    rw [hagree.targetMessageCount, hagree.messageCount]
    cases hcounted : counted with
    | true =>
      rw [hagree.given hcounted]
      simp [hdefault]
    | false =>
      rw [(hagree.absent hcounted).1, (hagree.absent hcounted).2]
  simp only [validateConfig, hagree.messageSize, hcounts, hagree.transportType, hendpoint]

/-- The channel is a function of the transport and the endpoint string. -/
theorem getEffectiveChannel_eq (hagree : Agree counted pub sub) (hpub : Terminated pub)
    (hsub : Terminated sub) (buffer : List Char) (bufferSize : UInt64) :
    getEffectiveChannel pub buffer bufferSize = getEffectiveChannel sub buffer bufferSize := by
  have hchannel : endpointChannel pub.customEndpoint = endpointChannel sub.customEndpoint := by
    rw [endpointChannel_eq _ (List.ne_nil_of_mem hpub.customEndpoint),
      endpointChannel_eq _ (List.ne_nil_of_mem hsub.customEndpoint), udpChannel, udpChannel,
      hagree.customEndpoint]
  simp only [getEffectiveChannel, hagree.transportType, hchannel]

theorem agree_loaded (pubMemory subMemory : ConfigMemory) (env : Option (List Char)) :
    Agree false (loaded pubMemory.1 env) (loaded subMemory.1 env) where
  transportType := (loaded_transportType ..).trans (loaded_transportType ..).symm
  customEndpoint := by
    rw [cString_loaded_endpoint, cString_loaded_endpoint]
  aeronDir := by
    rw [cString_loaded_aeronDir, cString_loaded_aeronDir]
  streamId := (loaded_streamId ..).trans (loaded_streamId ..).symm
  messageSize := (loaded_messageSize ..).trans (loaded_messageSize ..).symm
  targetMessageCount := rfl
  messageCount := rfl
  given h := by cases h
  absent _ := ⟨rfl, rfl⟩

end Simulation

/-- What two accepted configurations must share for the programs to meet. -/
structure Meet (pub sub : Config) : Prop where
  transportType : pub.transportType = sub.transportType
  customEndpoint : cString pub.customEndpoint = cString sub.customEndpoint
  aeronDir : cString pub.aeronDir = cString sub.aeronDir
  streamId : pub.streamId = sub.streamId
  channel : ∀ buffer bufferSize,
    getEffectiveChannel pub buffer bufferSize = getEffectiveChannel sub buffer bufferSize

/-- Corresponding command lines are accepted or rejected with the same code, and accepted ones
send the two programs to the same stream of the same channel with the same count. -/
theorem command_lines_meet (pubMemory subMemory : ConfigMemory) (env : Option (List Char))
    (pubOptions subOptions : List Decoded)
    (hoptions : List.Forall₂ Corresponds pubOptions subOptions) :
    returnCode (parsePublisherArgs pubMemory.1 env pubOptions) =
        returnCode (parseSubscriberArgs subMemory.1 env subOptions) ∧
      ∀ pub sub, parsePublisherArgs pubMemory.1 env pubOptions = .ok pub →
        parseSubscriberArgs subMemory.1 env subOptions = .ok sub →
        Meet pub sub ∧
          ((∃ arg, ('c', arg) ∈ pubOptions) → pub.messageCount = sub.targetMessageCount) := by
  have hagree := agree_foldl hoptions (agree_loaded pubMemory subMemory env)
  have hpubTerminated := foldl_keeps Terminated (terminated_set .publisher) _ pubOptions
    (terminated_loaded pubMemory env)
  have hsubTerminated := foldl_keeps Terminated (terminated_set .subscriber) _ subOptions
    (terminated_loaded subMemory env)
  constructor
  · have hpub := parseArgs_eq .publisher pubMemory.1 env pubOptions
    have hsub := parseArgs_eq .subscriber subMemory.1 env subOptions
    simp only [Program.parseArgs, Program.stop, Program.set] at hpub hsub
    rw [hpub, hsub, findSome?_stop_eq hoptions]
    cases subOptions.findSome? subscriberStop with
    | some code => rfl
    | none =>
      have hvalid := validateConfig_eq hagree hpubTerminated hsubTerminated
      simp only [Option.elim_none, checked, hvalid]
      split
      · rfl
      · rfl
  · intro pub sub hpub hsub
    obtain ⟨_, rfl, _⟩ :=
      (parseArgs_eq_ok_iff .publisher pubMemory.1 pub env pubOptions).mp hpub
    obtain ⟨_, rfl, _⟩ :=
      (parseArgs_eq_ok_iff .subscriber subMemory.1 sub env subOptions).mp hsub
    refine ⟨⟨hagree.transportType, hagree.customEndpoint, hagree.aeronDir, hagree.streamId,
      getEffectiveChannel_eq hagree hpubTerminated hsubTerminated⟩, ?_⟩
    rintro ⟨arg, harg⟩
    apply hagree.given
    rw [Bool.false_or, List.any_eq_true]
    exact ⟨('c', arg), harg, rfl⟩

/-- The two ends of a network test, each with an alias of its own. -/
theorem network_test_meets :
    ∃ pub sub, parsePublisherArgs blankConfig none
        [('t', "NETWORK_UDP".toList), ('b', "10.0.0.7".toList), ('c', "500".toList)] = .ok pub ∧
      parseSubscriberArgs blankConfig none
        [('t', "NETWORK_UDP".toList), ('o', "10.0.0.7".toList), ('c', "500".toList)] = .ok sub ∧
      Meet pub sub ∧ pub.messageCount = sub.targetMessageCount := by
  have hmeet := (command_lines_meet blankMemory blankMemory none
    _ _ (.cons (.transport "NETWORK_UDP".toList) (.cons (.endpoint 'b' 'o' "10.0.0.7".toList
      (by decide) (by decide)) (.cons (.count "500".toList) .nil)))).2 _ _ rfl rfl
  exact ⟨_, _, rfl, rfl, hmeet.1, hmeet.2 ⟨"500".toList, by simp⟩⟩

end AeronFast.Rendezvous
