import AeronFast.PublisherRuns

/-!
When the publisher sends everything it was asked to. The results of Aeron are
an infinite stream of acceptances and of refusals that a retry may overcome.
The loop retries back pressure only, so an administrative action before the
last message is sent ends the run short of its target; without its message
buffer the publisher does not begin.
-/
namespace AeronFast.PublisherCompleteness

open CommonTypes ByteBuffers ConfigParser LabelledRuns BinaryPublisher PublisherRuns
open PublisherRuns.Iteration

/-- Every refusal is one that Aeron documents as worth a retry, the refusals come in
stretches of at most a million, and enough offers are accepted. -/
structure TransientRefusals (config : Config) (env : ℕ → Iteration) : Prop where
  results : ∀ i, 0 < (env i).result ∨ (env i).result = aeronPublicationBackPressured ∨
    (env i).result = aeronPublicationAdminAction
  enough : ∃ k, config.messageCount.toNat ≤ (streamPrefix env k).countP sent
  gaps : ∀ i, ∃ j, j ≤ 1000000 ∧ 0 < (env (i + j)).result
  unsignalled : ∀ i, (env i).signal = false

/-- The run returns with as many messages sent as were asked for. -/
def SendsAll (host : ByteOrder) (config : Config) (env : PublisherEnv) : Prop :=
  ∃ fuel r p, runPublisher host config env fuel = some r ∧ r.final = some p ∧
    p.successfulSends = config.messageCount ∧ p.stats.messagesSent = config.messageCount

/-- A run of refusals at the end of a prefix is a stretch of the stream. -/
theorem backPressureRun_stream (env : ℕ → Iteration) (m k : ℕ)
    (h : m ≤ backPressureRun (streamPrefix env k)) :
    m ≤ k ∧ ∀ j, k - m ≤ j → j < k → backPressured (env j) = true := by
  induction m generalizing k with
  | zero => exact ⟨Nat.zero_le _, fun j hlow hhigh => by omega⟩
  | succ m ih =>
    cases k with
    | zero => simp [backPressureRun] at h
    | succ k =>
      rw [streamPrefix_succ] at h
      cases hb : backPressured (env k) with
      | false =>
        rw [backPressureRun_snoc_neg _ _ hb] at h
        omega
      | true =>
        rw [backPressureRun_snoc_pos _ _ hb] at h
        obtain ⟨hmk, hstretch⟩ := ih k (by omega)
        refine ⟨by omega, ?_⟩
        intro j hlow hhigh
        by_cases hj : j = k
        · rw [hj]
          exact hb
        · exact hstretch j (by omega) (by omega)

section Completeness

variable (host : ByteOrder) (config : Config) (garbage : ℕ → UInt8)
variable (startTime finalTime : TimestampNs) (env : ℕ → Iteration)

/-- A run that sends everything met no administrative action on its way. -/
theorem no_adminAction_of_sendsAll (hvalid : validateConfig config = .success)
    (h : SendsAll host config ⟨some garbage, startTime, false, env, finalTime⟩) :
    ∃ n, (streamPrefix env n).countP sent = config.messageCount.toNat ∧
      ∀ i, i < n → (env i).result ≠ aeronPublicationAdminAction := by
  obtain ⟨fuel, r, p, hret, hfinal, hsends, _⟩ := h
  obtain ⟨k, q, _, hrun, _, rfl⟩ := (runPublisher_eq_some_iff host config garbage startTime
    finalTime false env fuel r).mp hret
  cases hfinal
  have hinv := send_invariant host config garbage startTime false hvalid hrun
  have hcount : (streamPrefix env k).countP sent = config.messageCount.toNat := by
    rw [← hinv.counted.successfulSends, ← hsends]
  refine ⟨k, hcount, ?_⟩
  intro i hi hadmin
  have hmem : env i ∈ streamPrefix env k := mem_streamPrefix.mpr ⟨i, hi, rfl⟩
  have hnot : transient (env i) = false := by
    simp [transient, sent, backPressured, hadmin, aeronPublicationAdminAction,
      aeronPublicationBackPressured]
  have hstate := hinv.controlled.exit
  cases hexit : q.exit with
  | none =>
    rw [hexit] at hstate
    simp [hstate.1 (env i) hmem] at hnot
  | some e =>
    rw [hexit] at hstate
    cases e with
    | targetReached => simp [hstate.1 (env i) hmem] at hnot
    | retriesExhausted => simp [hstate.1 (env i) hmem] at hnot
    | sendFailed code =>
      have hlt := hstate.1
      omega

/-- Without an administrative action before the last acceptance, everything is sent. -/
theorem sendsAll_of_no_adminAction (hvalid : validateConfig config = .success)
    (henv : TransientRefusals config env) (n : ℕ)
    (hn : (streamPrefix env n).countP sent = config.messageCount.toNat)
    (hadmin : ∀ i, i < n → (env i).result ≠ aeronPublicationAdminAction) :
    SendsAll host config ⟨some garbage, startTime, false, env, finalTime⟩ := by
  obtain ⟨k, p, _, hrun, hhalt⟩ :=
    exists_send_halt host config garbage startTime false hvalid env
  have hinv := send_invariant host config garbage startTime false hvalid hrun
  have hword : p.successfulSends = config.messageCount := by
    by_contra hne
    obtain ⟨i, hfail⟩ := failsAt_of_halted host config garbage startTime env hvalid k p hrun
      hhalt hne (fun i _ => henv.unsignalled i)
    rcases hfail.2.2 with hfatal | hrefused
    · -- the only fatal result is an administrative action, and it comes too early
      have hbefore : i < n := by
        by_contra hle
        have hmono := countP_streamPrefix_mono sent env (show n ≤ i by omega)
        have hbelow := hfail.2.1
        omega
      simp only [transient, sent, backPressured, Bool.or_eq_false_iff,
        decide_eq_false_iff_not] at hfatal
      rcases henv.results i with h | h | h
      · exact hfatal.1 h
      · exact hfatal.2 h
      · exact hadmin i hbefore h
    · -- a stretch of 1,000,001 refusals is more than a gap may have
      obtain ⟨hi, hstretch⟩ := backPressureRun_stream env 1000001 (i + 1) hrefused
      obtain ⟨j, hj, hpos⟩ := henv.gaps (i + 1 - 1000001)
      have hback := hstretch (i + 1 - 1000001 + j) (by omega) (by omega)
      have hresult : (env (i + 1 - 1000001 + j)).result = -2 := of_decide_eq_true hback
      omega
  refine ⟨k, _, { p with running := false }, (runPublisher_eq_some_iff host config garbage
    startTime finalTime false env k _).mpr ⟨k, p, Nat.le_refl _, hrun, hhalt, rfl⟩, rfl, hword, ?_⟩
  simpa only [hinv.counted.messagesSent] using hword

/-- Without a message buffer nothing is sent. -/
theorem not_sendsAll_of_no_buffer :
    ¬ SendsAll host config ⟨none, startTime, false, env, finalTime⟩ := by
  rintro ⟨fuel, r, p, hret, hfinal, _⟩
  have hnone : r = ⟨.memoryAllocation, 0, none, none⟩ := (Option.some.inj hret).symm
  rw [hnone] at hfinal
  cases hfinal

/-- The publisher sends all its messages if and only if it gets its message buffer and no
administrative action comes before the acceptance of the last message. -/
theorem sendsAll_iff (allocation : Option (ℕ → UInt8))
    (hvalid : validateConfig config = .success) (henv : TransientRefusals config env) :
    SendsAll host config ⟨allocation, startTime, false, env, finalTime⟩ ↔
      allocation.isSome = true ∧
        ∃ n, (streamPrefix env n).countP sent = config.messageCount.toNat ∧
          ∀ i, i < n → (env i).result ≠ aeronPublicationAdminAction := by
  cases allocation with
  | none =>
    constructor
    · intro h
      exact absurd h (not_sendsAll_of_no_buffer host config startTime finalTime env)
    · intro h
      exact absurd h.1 (by decide)
  | some garbage =>
    constructor
    · intro h
      exact ⟨rfl, no_adminAction_of_sendsAll host config garbage startTime finalTime env hvalid h⟩
    · intro h
      obtain ⟨_, n, hn, hadmin⟩ := h
      exact sendsAll_of_no_adminAction host config garbage startTime finalTime env hvalid henv
        n hn hadmin

end Completeness

/-- An administrative action, then only acceptances. -/
def adminFirst (i : ℕ) : Iteration :=
  ⟨0, if i = 0 then aeronPublicationAdminAction else 1, false⟩

theorem adminFirst_transient :
    TransientRefusals (sizedConfig 16 2 defaultTargetMessageCount) adminFirst where
  results i := by
    by_cases hi : i = 0
    · exact Or.inr (Or.inr (by simp [adminFirst, hi]))
    · exact Or.inl (by simp [adminFirst, hi])
  enough := ⟨3, by decide⟩
  gaps i := ⟨1, by omega, by simp [adminFirst]⟩
  unsignalled _ := rfl

/-- The first offer meets an administrative action and the publisher gives up. -/
theorem adminFirst_not_sendsAll :
    parsePublisherArgs blankConfig none [('s', "16".toList), ('c', "2".toList)] =
        .ok (sizedConfig 16 2 defaultTargetMessageCount) ∧
      TransientRefusals (sizedConfig 16 2 defaultTargetMessageCount) adminFirst ∧
      ¬ SendsAll .little (sizedConfig 16 2 defaultTargetMessageCount)
        ⟨some (fun _ => 0), 0, false, adminFirst, 0⟩ := by
  refine ⟨rfl, adminFirst_transient, ?_⟩
  intro h
  obtain ⟨n, hn, hadmin⟩ := no_adminAction_of_sendsAll .little _ _ 0 0 adminFirst (by decide) h
  have hpos : 0 < n := by
    by_contra hzero
    obtain rfl : n = 0 := by omega
    exact absurd hn (by decide)
  exact hadmin 0 hpos rfl

/-- Back pressure on every other offer does not keep the messages from being sent. -/
theorem alternating_sendsAll :
    SendsAll .little (sizedConfig 16 2 defaultTargetMessageCount)
      ⟨some (fun _ => 0), 0, false,
        fun i => ⟨0, if i % 2 = 0 then aeronPublicationBackPressured else 1, false⟩, 0⟩ :=
  (sendsAll_iff .little (sizedConfig 16 2 defaultTargetMessageCount) 0 0 _ (some (fun _ => 0))
    (by decide) {
      results := fun i => by
        by_cases hi : i % 2 = 0
        · exact Or.inr (Or.inl (by simp [hi]))
        · exact Or.inl (by simp [hi])
      enough := ⟨4, by decide⟩
      gaps := fun i => by
        by_cases hi : i % 2 = 0
        · exact ⟨1, by omega, by simp [show (i + 1) % 2 ≠ 0 by omega]⟩
        · exact ⟨0, by omega, by simp [hi]⟩
      unsignalled := fun _ => rfl }).mpr
    ⟨rfl, 4, by decide, by decide⟩

end AeronFast.PublisherCompleteness
