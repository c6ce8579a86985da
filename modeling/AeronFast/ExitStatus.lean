import AeronFast.PublisherRuns
import AeronFast.SubscriberLoop

/-!
What the exit status of the two programs tells. Each loop can end on its
target, on a stop signal or on a failure, and all of these fall into one tail
that returns success. The status is then truthful precisely when the results
Aeron hands out contain no failure that the loop meets before its target or a
signal.
-/
namespace AeronFast.ExitStatus

open CommonTypes ByteBuffers ConfigParser LabelledRuns WordArithmetic
open BinaryPublisher BinarySubscriber PublisherRuns PublisherRuns.Iteration
open SubscriberRuns SubscriberLoop

/-- Success is returned for a good reason only, and anything else makes the status 1. -/
def ExitTruthful (code : ErrorCode) (justified : Prop) : Prop :=
  (code = .success → justified) ∧ (¬ justified → exitStatus code = 1)

theorem exitTruthful_of_justified (code : ErrorCode) (justified : Prop) (h : justified) :
    ExitTruthful code justified :=
  ⟨fun _ => h, fun hnot => absurd h hnot⟩

theorem exitTruthful_of_error (code : ErrorCode) (justified : Prop) (h : code ≠ .success) :
    ExitTruthful code justified :=
  ⟨fun hsuccess => absurd hsuccess h, fun _ => if_neg h⟩

section Publisher

variable (host : ByteOrder) (config : Config)

/-- All messages were sent, or a stop signal was received. -/
def PublisherJustified (env : PublisherEnv) (r : PublisherResult) : Prop :=
  (∃ p, r.final = some p ∧ p.successfulSends = config.messageCount) ∨ env.stopped = true ∨
    ∃ i, i < r.turns ∧ (env.iterations i).signal = true

def PublisherTruthful (env : PublisherEnv) : Prop :=
  ∀ fuel r, runPublisher host config env fuel = some r →
    ExitTruthful r.code (PublisherJustified config env r)

variable (garbage : ℕ → UInt8) (startTime finalTime : TimestampNs) (env : ℕ → Iteration)
variable (hvalid : validateConfig config = .success)
include hvalid

theorem publisher_not_truthful (k : ℕ) (hfail : SendFailsAt config env k) :
    ¬ PublisherTruthful host config ⟨some garbage, startTime, false, env, finalTime⟩ := by
  intro h
  obtain ⟨j, p, _, hrun, hhalt⟩ :=
    exists_send_halt host config garbage startTime false hvalid env
  have hinv := send_invariant host config garbage startTime false hvalid hrun
  have hj := send_turns_le host config garbage startTime env hvalid k j p hfail hrun
  have hcount : (streamPrefix env j).countP sent < config.messageCount.toNat := by
    have hmono := countP_streamPrefix_mono sent env hj
    rw [streamPrefix_succ, countP_snoc_neg _ (not_sent_of_failsAt config env k hfail)] at hmono
    exact Nat.lt_of_le_of_lt hmono hfail.2.1
  have hret := (runPublisher_eq_some_iff host config garbage startTime finalTime false env j
    _).mpr ⟨j, p, Nat.le_refl _, hrun, hhalt, rfl⟩
  rcases (h j _ hret).1 rfl with ⟨q, hq, hsends⟩ | hstop | ⟨i, hi, hsignal⟩
  · cases hq
    have hword := congrArg UInt64.toNat hsends
    rw [hinv.counted.successfulSends] at hword
    omega
  · cases hstop
  · have hi' : i < j := hi
    rw [hfail.1 i (by omega)] at hsignal
    cases hsignal

omit garbage startTime finalTime env in
theorem publisherTruthful_iff (env : PublisherEnv) :
    PublisherTruthful host config env ↔
      env.allocation = none ∨ env.stopped = true ∨
        ∀ k, ¬ SendFailsAt config env.iterations k := by
  obtain ⟨allocation, startTime, stopped, iterations, finalTime⟩ := env
  cases allocation with
  | none =>
    refine ⟨fun _ => Or.inl rfl, ?_⟩
    intro _ fuel r hret
    cases hret
    exact exitTruthful_of_error _ _ (by decide)
  | some garbage =>
    cases stopped with
    | true =>
      refine ⟨fun _ => Or.inr (Or.inl rfl), ?_⟩
      intro _ fuel r _
      exact exitTruthful_of_justified _ _ (Or.inr (Or.inl rfl))
    | false =>
      constructor
      · intro h
        refine Or.inr (Or.inr ?_)
        intro k hfail
        exact publisher_not_truthful host config garbage startTime finalTime iterations hvalid k
          hfail h
      · intro h fuel r hret
        have hnone : ∀ k, ¬ SendFailsAt config iterations k := by
          rcases h with h | h | h
          · cases h
          · cases h
          · exact h
        obtain ⟨j, p, _, hrun, hhalt, rfl⟩ := (runPublisher_eq_some_iff host config garbage
          startTime finalTime false iterations fuel r).mp hret
        apply exitTruthful_of_justified
        by_contra hnot
        simp only [PublisherJustified, not_or, not_exists, not_and, Bool.not_eq_true] at hnot
        obtain ⟨k, hk⟩ := failsAt_of_halted host config garbage startTime iterations hvalid j p
          hrun hhalt (hnot.1 { p with running := false } rfl) hnot.2.2
        exact hnone k hk

end Publisher

section Subscriber

variable (host : ByteOrder) (config : Config)

/-- The messages received, over unbounded naturals, reached the target, or a stop signal was
received. -/
def SubscriberJustified (env : SubscriberEnv) (r : SubscriberResult) : Prop :=
  (∃ s, r.final = some s ∧ config.targetMessageCount.toNat ≤ s.recorded.length) ∨
    env.stopped = true ∨ ∃ i, i < r.turns ∧ (env.polls i).signal = true

def SubscriberTruthful (env : SubscriberEnv) : Prop :=
  ∀ fuel r, runSubscriber host config env fuel = some r →
    ExitTruthful r.code (SubscriberJustified config env r)

/-- Before the target and without a signal, poll `k` fails. -/
def PollFailsAt (env : ℕ → Poll) (k : ℕ) : Prop :=
  (∀ i, i ≤ k → (env i).signal = false) ∧
    messageTotal (streamPrefix env (k + 1)) < config.targetMessageCount.toNat ∧
    (env k).result < 0

/-- The tail of `run_subscriber` leaves the recorded latencies alone. -/
theorem tail_recorded (endTime : TimestampNs) (s : Subscriber) :
    (cleanupSubscriberStats { setEndTime endTime s with running := false }).recorded =
      s.recorded := by
  simp only [cleanupSubscriberStats, setEndTime]
  split
  · rfl
  · rfl

variable (startTime endTime : TimestampNs) (env : ℕ → Poll)
variable (htarget : 0 < config.targetMessageCount.toNat)
include htarget

theorem recorded_length_run (k : ℕ) (s : Subscriber)
    (hrun : Run (PollStep host) (startSubscriber config.targetMessageCount startTime false)
      (streamPrefix env k) s) : s.recorded.length = messageTotal (streamPrefix env k) :=
  (poll_invariant host _ startTime false htarget hrun).watching.received.recorded_length

/-- A failed poll ends the loop, unless it has ended before. -/
theorem exists_poll_halt (k : ℕ) (hfail : (env k).result < 0) :
    ∃ j s, j ≤ k + 1 ∧ Run (PollStep host)
        (startSubscriber config.targetMessageCount startTime false) (streamPrefix env j) s ∧
      pollGuard s = false := by
  apply exists_halt_of_stopsAt host _ startTime false htarget env (k + 1)
  refine Or.inr (Or.inr (Or.inr ?_))
  rw [streamPrefix_succ, List.getLast?_concat]
  simpa [failed] using hfail

theorem subscriber_not_truthful (k : ℕ) (hfail : PollFailsAt config env k) :
    ¬ SubscriberTruthful host config ⟨true, startTime, false, env, endTime⟩ := by
  intro h
  obtain ⟨hquiet, htotal, hresult⟩ := hfail
  obtain ⟨j, s, hj, hrun, hhalt⟩ :=
    exists_poll_halt host config startTime env htarget k hresult
  have hret := (runSubscriber_eq_some_iff host startTime false config endTime env j _).mpr
    ⟨j, s, Nat.le_refl _, hrun, hhalt, rfl⟩
  rcases (h j _ hret).1 rfl with ⟨t, ht, hreached⟩ | hstop | ⟨i, hi, hsignal⟩
  · cases ht
    rw [tail_recorded, recorded_length_run host config startTime env htarget j s hrun]
      at hreached
    have hmono := messageTotal_mono env hj
    omega
  · cases hstop
  · have hi' : i < j := hi
    rw [hquiet i (by omega)] at hsignal
    cases hsignal

/-- A halted loop that has neither met its target nor a signal has met a failed poll. -/
theorem pollFailsAt_of_halted (j : ℕ) (s : Subscriber)
    (hrun : Run (PollStep host) (startSubscriber config.targetMessageCount startTime false)
      (streamPrefix env j) s)
    (hhalt : pollGuard s = false)
    (hshort : ¬ config.targetMessageCount.toNat ≤ s.recorded.length)
    (hquiet : ∀ i, i < j → (env i).signal = false) : ∃ k, PollFailsAt config env k := by
  rw [recorded_length_run host config startTime env htarget j s hrun] at hshort
  have hsignal : (streamPrefix env j).any signalled = false := by
    apply List.any_eq_false.mpr
    intro poll hpoll
    obtain ⟨i, hi, rfl⟩ := mem_streamPrefix.mp hpoll
    simp [signalled, hquiet i hi]
  have hfailed := failed_of_halted host _ (poll_invariant host _ startTime false htarget hrun)
    hhalt hsignal (by omega)
  cases j with
  | zero => simp at hfailed
  | succ k =>
    rw [streamPrefix_succ, List.getLast?_concat] at hfailed
    exact ⟨k, fun i hi => hquiet i (by omega), by omega, by simpa [failed] using hfailed⟩

omit startTime endTime env in
theorem subscriberTruthful_iff (env : SubscriberEnv) :
    SubscriberTruthful host config env ↔
      env.allocated = false ∨ env.stopped = true ∨ ∀ k, ¬ PollFailsAt config env.polls k := by
  obtain ⟨allocated, startTime, stopped, polls, endTime⟩ := env
  cases allocated with
  | false =>
    refine ⟨fun _ => Or.inl rfl, ?_⟩
    intro _ fuel r hret
    cases hret
    exact exitTruthful_of_error _ _ (by decide)
  | true =>
    cases stopped with
    | true =>
      refine ⟨fun _ => Or.inr (Or.inl rfl), ?_⟩
      intro _ fuel r _
      exact exitTruthful_of_justified _ _ (Or.inr (Or.inl rfl))
    | false =>
      constructor
      · intro h
        refine Or.inr (Or.inr ?_)
        intro k hfail
        exact subscriber_not_truthful host config startTime endTime polls htarget k hfail h
      · intro h fuel r hret
        have hnone : ∀ k, ¬ PollFailsAt config polls k := by
          rcases h with h | h | h
          · cases h
          · cases h
          · exact h
        obtain ⟨j, s, _, hrun, hhalt, rfl⟩ := (runSubscriber_eq_some_iff host startTime false
          config endTime polls fuel r).mp hret
        apply exitTruthful_of_justified
        by_contra hnot
        simp only [SubscriberJustified, not_or, not_exists, not_and, Bool.not_eq_true] at hnot
        have hshort := hnot.1 _ rfl
        rw [tail_recorded] at hshort
        obtain ⟨k, hk⟩ := pollFailsAt_of_halted host config startTime polls htarget j s hrun
          hhalt hshort hnot.2.2
        exact hnone k hk

end Subscriber

/-- The exit status of the publisher is truthful if and only if no fatal result and no exhausted
retry comes before its last message and any signal, and that of the subscriber if and only if
no failed poll comes before its target and any signal; failing to allocate and being stopped
before the loop are always reported truthfully. -/
theorem exitStatus_truthful_iff (host : ByteOrder) (config : Config)
    (hvalid : validateConfig config = .success) (publisherEnv : PublisherEnv)
    (subscriberEnv : SubscriberEnv) :
    (PublisherTruthful host config publisherEnv ↔
        publisherEnv.allocation = none ∨ publisherEnv.stopped = true ∨
          ∀ k, ¬ SendFailsAt config publisherEnv.iterations k) ∧
      (SubscriberTruthful host config subscriberEnv ↔
        subscriberEnv.allocated = false ∨ subscriberEnv.stopped = true ∨
          ∀ k, ¬ PollFailsAt config subscriberEnv.polls k) :=
  ⟨publisherTruthful_iff host config hvalid publisherEnv,
    subscriberTruthful_iff host config (validateConfig_success config hvalid).2.2 subscriberEnv⟩

/-- The publication is closed under the first offer, or the first poll fails: both programs
exit with status 0. -/
theorem failures_not_truthful :
    parsePublisherArgs blankConfig none [('s', "16".toList), ('c', "2".toList)] =
        .ok (sizedConfig 16 2 defaultTargetMessageCount) ∧
      ¬ PublisherTruthful .little (sizedConfig 16 2 defaultTargetMessageCount)
        ⟨some (fun _ => 0), 0, false, fun _ => ⟨0, aeronPublicationClosed, false⟩, 0⟩ ∧
      parseSubscriberArgs blankConfig none [('c', "2".toList)] =
        .ok (sizedConfig defaultMessageSize defaultMessageCount 2) ∧
      ¬ SubscriberTruthful .little (sizedConfig defaultMessageSize defaultMessageCount 2)
        ⟨true, 0, false, fun _ => ⟨[], -1, false⟩, 0⟩ := by
  refine ⟨rfl, ?_, rfl, ?_⟩
  · exact publisher_not_truthful .little _ (fun _ => 0) 0 0 _ (by decide) 0
      ⟨fun _ _ => rfl, by decide, Or.inl (by decide)⟩
  · exact subscriber_not_truthful .little _ 0 0 _ (by decide) 0
      ⟨fun _ _ => rfl, by decide, by decide⟩

/-- Accepted offers, and polls that each deliver a message, keep the status truthful. -/
theorem untroubled_truthful :
    PublisherTruthful .little (sizedConfig 16 2 2)
        ⟨some (fun _ => 0), 0, false, fun _ => ⟨0, 1, false⟩, 0⟩ ∧
      SubscriberTruthful .little (sizedConfig 16 2 2)
        ⟨true, 0, false, fun _ => ⟨[⟨List.replicate 16 0, 0⟩], 1, false⟩, 0⟩ := by
  have h := exitStatus_truthful_iff .little (sizedConfig 16 2 2) (by decide)
    ⟨some (fun _ => 0), 0, false, fun _ => ⟨0, 1, false⟩, 0⟩
    ⟨true, 0, false, fun _ => ⟨[⟨List.replicate 16 0, 0⟩], 1, false⟩, 0⟩
  refine ⟨h.1.mpr (Or.inr (Or.inr ?_)), h.2.mpr (Or.inr (Or.inr ?_))⟩
  · intro k hfail
    rcases hfail.2.2 with hfatal | hrefused
    · simp [transient, sent] at hfatal
    · rw [streamPrefix_succ, backPressureRun_snoc_neg _ _ rfl] at hrefused
      omega
  · intro k hfail
    simp [PollFailsAt] at hfail

end AeronFast.ExitStatus
