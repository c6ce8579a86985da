import AeronFast.PublisherRuns

/-!
The books the publisher keeps of its offers, over whole runs of the send loop.
Every counter is a function of the history of results; two of Aeron's codes
fall through the chain of branches and leave no trace in any counter. The
buffers offered, the retry limit and the stop signal are described as well.
-/
namespace AeronFast.OfferAccounting

open CommonTypes ByteBuffers BinaryMessage ConfigParser LabelledRuns WordArithmetic
open BinaryPublisher PublisherRuns PublisherRuns.Iteration

/-- The results `aeron_publication_offer` is documented to return. -/
def Documented (result : Int) : Prop :=
  0 < result ∨ result = aeronPublicationNotConnected ∨
    result = aeronPublicationBackPressured ∨ result = aeronPublicationAdminAction ∨
    result = aeronPublicationClosed ∨ result = aeronPublicationMaxPositionExceeded ∨
    result = aeronPublicationError

/-- Exactly one of the three counters went up, by one. -/
def CountedOnce (before after : PublisherStats) : Prop :=
  (after.messagesSent = before.messagesSent + 1 ∧
      after.backPressureEvents = before.backPressureEvents ∧
      after.sendErrors = before.sendErrors) ∨
    (after.messagesSent = before.messagesSent ∧
      after.backPressureEvents = before.backPressureEvents + 1 ∧
      after.sendErrors = before.sendErrors) ∨
    (after.messagesSent = before.messagesSent ∧
      after.backPressureEvents = before.backPressureEvents ∧
      after.sendErrors = before.sendErrors + 1)

section Accounting

variable (host : ByteOrder) (config : Config)

/-- The offers made so far are the sum of the three counters, each of them was counted
once when it was made, and the byte total moved on accepted offers only. -/
structure AccountedFor (start : Publisher) (labels : List Iteration) (p : Publisher) : Prop where
  total : p.offered.length = p.stats.messagesSent.toNat + p.stats.backPressureEvents.toNat +
    p.stats.sendErrors.toNat
  each : ∀ earlier it later q, labels = earlier ++ it :: later →
    Run (SendStep host config) start earlier q →
    CountedOnce q.stats (sendIteration host config it q).stats
  bytes : ∀ earlier it later q, labels = earlier ++ it :: later →
    Run (SendStep host config) start earlier q →
    (sendIteration host config it q).stats.bytesSent ≠ q.stats.bytesSent → 0 < it.result

/-- A code that no branch of `publish_message` counts. -/
def unaccounted (it : Iteration) : Bool :=
  !sent it && !backPressured it && !refused it

theorem length_eq_counts (labels : List Iteration) :
    labels.length = labels.countP sent + labels.countP backPressured +
      labels.countP refused + labels.countP unaccounted := by
  induction labels using List.reverseRecOn with
  | nil => rfl
  | append_singleton labels it ih =>
    rw [List.length_append, List.length_singleton]
    rcases outcome_cases it with ⟨hs, hb, hr⟩ | ⟨hs, hb, hr⟩ | ⟨hs, hb, hr⟩ | ⟨hs, hb, hr⟩
    · rw [countP_snoc_pos labels hs, countP_snoc_neg labels hb, countP_snoc_neg labels hr,
        countP_snoc_neg labels (f := unaccounted) (by simp [unaccounted, hs])]
      omega
    · rw [countP_snoc_neg labels hs, countP_snoc_pos labels hb, countP_snoc_neg labels hr,
        countP_snoc_neg labels (f := unaccounted) (by simp [unaccounted, hb])]
      omega
    · rw [countP_snoc_neg labels hs, countP_snoc_neg labels hb, countP_snoc_pos labels hr,
        countP_snoc_neg labels (f := unaccounted) (by simp [unaccounted, hr])]
      omega
    · rw [countP_snoc_neg labels hs, countP_snoc_neg labels hb, countP_snoc_neg labels hr,
        countP_snoc_pos labels (f := unaccounted) (by simp [unaccounted, hs, hb, hr])]
      omega

theorem refused_of_transient (it : Iteration) (h : transient it = true) : refused it = false := by
  cases hr : refused it with
  | false => rfl
  | true =>
    obtain ⟨hs, hb⟩ := refused_excludes it hr
    simp [transient, hs, hb] at h

theorem countP_refused_of_transient (labels : List Iteration)
    (h : ∀ it ∈ labels, transient it = true) : labels.countP refused = 0 := by
  apply List.countP_eq_zero.mpr
  intro it hit
  simp [refused_of_transient it (h it hit)]

/-- A counted refusal ends the loop, so there is at most one. -/
theorem countP_refused_le (stopped : Bool) (labels : List Iteration) (p : Publisher)
    (hp : SendInvariant config stopped labels p) : labels.countP refused ≤ 1 := by
  have hstate := hp.controlled.exit
  cases hexit : p.exit with
  | none =>
    rw [hexit] at hstate
    rw [countP_refused_of_transient labels hstate.1]
    omega
  | some e =>
    rw [hexit] at hstate
    cases e with
    | targetReached =>
      rw [countP_refused_of_transient labels hstate.1]
      omega
    | retriesExhausted =>
      rw [countP_refused_of_transient labels hstate.1]
      omega
    | sendFailed code =>
      obtain ⟨_, earlier, it, rfl, hearlier, _, _⟩ := hstate
      rw [List.countP_append, countP_refused_of_transient earlier hearlier, List.countP_singleton]
      split <;> omega

theorem countedOnce_of_accounted (it : Iteration) (q : Publisher) (h : unaccounted it = false) :
    CountedOnce q.stats (sendIteration host config it q).stats := by
  rcases outcome_cases it with ⟨hs, _, _⟩ | ⟨_, hb, _⟩ | ⟨_, _, hr⟩ | ⟨hs, hb, hr⟩
  · rw [sendIteration_sent host config it q hs]
    exact Or.inl ⟨rfl, rfl, rfl⟩
  · rw [sendIteration_backPressured host config it q hb]
    exact Or.inr (Or.inl ⟨rfl, rfl, rfl⟩)
  · rw [sendIteration_refused host config it q hr]
    exact Or.inr (Or.inr ⟨rfl, rfl, rfl⟩)
  · simp [unaccounted, hs, hb, hr] at h

theorem bytesSent_of_not_sent (it : Iteration) (q : Publisher) (h : sent it = false) :
    (sendIteration host config it q).stats.bytesSent = q.stats.bytesSent := by
  rcases outcome_cases it with ⟨hs, _, _⟩ | ⟨_, hb, _⟩ | ⟨_, _, hr⟩ | ⟨hs, hb, hr⟩
  · simp [hs] at h
  · rw [sendIteration_backPressured host config it q hb]
  · rw [sendIteration_refused host config it q hr]
  · rw [sendIteration_unaccounted host config it q hs hb hr]

theorem documented_accounted (it : Iteration) (h : Documented it.result)
    (hmax : it.result ≠ aeronPublicationMaxPositionExceeded)
    (herror : it.result ≠ aeronPublicationError) : unaccounted it = false := by
  rcases h with h | h | h | h | h | h | h
  · simp [unaccounted, sent, h]
  · simp [unaccounted, refused, h]
  · simp [unaccounted, backPressured, h]
  · simp [unaccounted, refused, h]
  · simp [unaccounted, refused, h]
  · exact absurd h hmax
  · exact absurd h herror

theorem uncounted_codes (it : Iteration) (h : unaccounted it = false) :
    it.result ≠ aeronPublicationMaxPositionExceeded ∧ it.result ≠ aeronPublicationError := by
  constructor
  · intro hr
    simp [unaccounted, sent, backPressured, refused, hr, aeronPublicationMaxPositionExceeded,
      aeronPublicationBackPressured, aeronPublicationNotConnected, aeronPublicationAdminAction,
      aeronPublicationClosed] at h
  · intro hr
    simp [unaccounted, sent, backPressured, refused, hr, aeronPublicationError,
      aeronPublicationBackPressured, aeronPublicationNotConnected, aeronPublicationAdminAction,
      aeronPublicationClosed] at h

variable (garbage : ℕ → UInt8) (startTime : TimestampNs) (stopped : Bool)

theorem counts_of_accounted {labels : List Iteration} {p : Publisher}
    (hvalid : validateConfig config = .success)
    (hrun : Run (SendStep host config) (startPublisher config garbage startTime stopped)
      labels p)
    (h : AccountedFor host config (startPublisher config garbage startTime stopped) labels p) :
    labels.countP unaccounted = 0 ∧ labels.countP backPressured < 2 ^ 64 := by
  have hinv := send_invariant host config garbage startTime stopped hvalid hrun
  have hlength := length_eq_counts labels
  have hrefused := countP_refused_le config stopped labels p hinv
  have htotal := h.total
  rw [hinv.encoded.offered, List.length_map, hinv.counted.messagesSent,
    hinv.counted.successfulSends, hinv.counted.backPressureEvents, hinv.counted.sendErrors]
    at htotal
  have hmod := Nat.mod_le (labels.countP backPressured) (2 ^ 64)
  have hlt := Nat.mod_lt (labels.countP backPressured) (show 0 < 2 ^ 64 by decide)
  have hmodr := Nat.mod_eq_of_lt (show labels.countP refused < 2 ^ 64 by omega)
  omega

/-- After every run of the loop the books are complete if and only if neither of the two
codes that fall through was met and the back-pressure counter has not wrapped. -/
theorem accountedFor_iff {labels : List Iteration} {p : Publisher}
    (hvalid : validateConfig config = .success)
    (hdocumented : ∀ it ∈ labels, Documented it.result)
    (hrun : Run (SendStep host config) (startPublisher config garbage startTime stopped)
      labels p) :
    AccountedFor host config (startPublisher config garbage startTime stopped) labels p ↔
      (∀ it ∈ labels, it.result ≠ aeronPublicationMaxPositionExceeded ∧
        it.result ≠ aeronPublicationError) ∧
      labels.countP (fun it => it.result = aeronPublicationBackPressured) < 2 ^ 64 := by
  have hinv := send_invariant host config garbage startTime stopped hvalid hrun
  constructor
  · intro h
    obtain ⟨hnone, hbound⟩ :=
      counts_of_accounted host config garbage startTime stopped hvalid hrun h
    refine ⟨?_, hbound⟩
    intro it hit
    apply uncounted_codes
    simpa using List.countP_eq_zero.mp hnone it hit
  · intro h
    obtain ⟨hcodes, hbound⟩ := h
    have hall : ∀ it ∈ labels, unaccounted it = false := fun it hit =>
      documented_accounted it (hdocumented it hit) (hcodes it hit).1 (hcodes it hit).2
    have hnone : labels.countP unaccounted = 0 := by
      apply List.countP_eq_zero.mpr
      intro it hit
      simp [hall it hit]
    have hlength := length_eq_counts labels
    have hrefused := countP_refused_le config stopped labels p hinv
    constructor
    · rw [hinv.encoded.offered, List.length_map, hinv.counted.messagesSent,
        hinv.counted.successfulSends, hinv.counted.backPressureEvents, hinv.counted.sendErrors,
        Nat.mod_eq_of_lt (show labels.countP refused < 2 ^ 64 by omega),
        Nat.mod_eq_of_lt (show labels.countP backPressured < 2 ^ 64 from hbound)]
      omega
    · intro earlier it later q hsplit _
      apply countedOnce_of_accounted
      exact hall it (by simp [hsplit])
    · intro earlier it later q _ _ hchanged
      by_contra hnot
      exact hchanged (bytesSent_of_not_sent host config it q (decide_eq_false hnot))

end Accounting

/-- One offer that Aeron answers with a code the publisher does not count. -/
theorem maxPosition_not_accountedFor :
    parsePublisherArgs blankConfig none [('s', "16".toList), ('c', "2".toList)] =
        .ok (sizedConfig 16 2 defaultTargetMessageCount) ∧
      Documented aeronPublicationMaxPositionExceeded ∧
      ∃ p, Run (SendStep .little (sizedConfig 16 2 defaultTargetMessageCount))
          (startPublisher (sizedConfig 16 2 defaultTargetMessageCount) (fun _ => 0) 0 false)
          [⟨0, aeronPublicationMaxPositionExceeded, false⟩] p ∧
        ¬ AccountedFor .little (sizedConfig 16 2 defaultTargetMessageCount)
          (startPublisher (sizedConfig 16 2 defaultTargetMessageCount) (fun _ => 0) 0 false)
          [⟨0, aeronPublicationMaxPositionExceeded, false⟩] p := by
  have hrun : Run (SendStep .little (sizedConfig 16 2 defaultTargetMessageCount))
      (startPublisher (sizedConfig 16 2 defaultTargetMessageCount) (fun _ => 0) 0 false)
      ([] ++ [⟨0, aeronPublicationMaxPositionExceeded, false⟩]) _ :=
    Run.snoc (Run.nil _) ⟨by decide, rfl⟩
  refine ⟨rfl, by simp [Documented], _, hrun, ?_⟩
  intro h
  have hnone := (counts_of_accounted .little _ _ 0 false (by decide) hrun h).1
  exact absurd hnone (by decide)

/-- An acceptance, a back-pressured offer and a counted refusal are all in the books. -/
theorem three_offers_accountedFor :
    ∃ p, Run (SendStep .little (sizedConfig 16 2 defaultTargetMessageCount))
        (startPublisher (sizedConfig 16 2 defaultTargetMessageCount) (fun _ => 0) 0 false)
        [⟨0, 64, false⟩, ⟨1, aeronPublicationBackPressured, false⟩,
          ⟨2, aeronPublicationClosed, false⟩] p ∧
      AccountedFor .little (sizedConfig 16 2 defaultTargetMessageCount)
        (startPublisher (sizedConfig 16 2 defaultTargetMessageCount) (fun _ => 0) 0 false)
        [⟨0, 64, false⟩, ⟨1, aeronPublicationBackPressured, false⟩,
          ⟨2, aeronPublicationClosed, false⟩] p := by
  have hrun : Run (SendStep .little (sizedConfig 16 2 defaultTargetMessageCount))
      (startPublisher (sizedConfig 16 2 defaultTargetMessageCount) (fun _ => 0) 0 false)
      ([] ++ [⟨0, 64, false⟩] ++ [⟨1, aeronPublicationBackPressured, false⟩] ++
        [⟨2, aeronPublicationClosed, false⟩]) _ :=
    Run.snoc (Run.snoc (Run.snoc (Run.nil _) ⟨by decide, rfl⟩) ⟨by decide, rfl⟩) ⟨by decide, rfl⟩
  exact ⟨_, hrun, (accountedFor_iff .little _ (fun _ => 0) 0 false (by decide)
    (by simp [Documented]) hrun).mpr ⟨by decide, by decide⟩⟩

section RunInvariant

variable (host : ByteOrder) (config : Config)

/-- What holds of the history of a run and the state it has led to. -/
structure PublisherRunInvariant (stopped : Bool) (labels : List Iteration) (p : Publisher) :
    Prop where
  messagesSent : p.stats.messagesSent = p.successfulSends
  successfulSends : p.successfulSends.toNat = labels.countP (fun it => 0 < it.result)
  target : p.successfulSends ≤ config.messageCount
  bytesSent : p.stats.bytesSent.toNat =
    p.stats.messagesSent.toNat * config.messageSize.toNat % 2 ^ 64
  backPressureEvents : p.stats.backPressureEvents.toNat =
    labels.countP (fun it => it.result = aeronPublicationBackPressured) % 2 ^ 64
  retryCount : (∀ code, p.exit ≠ some (.sendFailed code)) → p.retryCount.toNat =
    (labels.rtakeWhile (fun it => it.result = aeronPublicationBackPressured)).length
  noLateOffer : ∀ earlier it later, labels = earlier ++ it :: later →
    earlier.countP (fun it => 0 < it.result) < config.messageCount.toNat
  givesUp : p.exit = some .retriesExhausted ↔ ∃ earlier last, labels = earlier ++ last ∧
    last.length = 1000001 ∧ ∀ it ∈ last, it.result = aeronPublicationBackPressured
  notRestarted : stopped = true → labels = []
  stops : ∀ earlier it later, labels = earlier ++ it :: later → it.signal = true → later = []
  offered : p.offered =
    labels.map (fun it => referenceEncoding config.messageSize.toNat it.clock)

theorem backPressureRun_ge_iff (labels : List Iteration) (m : ℕ) :
    m ≤ backPressureRun labels ↔ ∃ earlier last, labels = earlier ++ last ∧ last.length = m ∧
      ∀ it ∈ last, it.result = aeronPublicationBackPressured := by
  constructor
  · intro h
    refine ⟨labels.rdropWhile backPressured ++
        (labels.rtakeWhile backPressured).take (backPressureRun labels - m),
      (labels.rtakeWhile backPressured).drop (backPressureRun labels - m), ?_, ?_, ?_⟩
    · rw [List.append_assoc, List.take_append_drop, List.rdropWhile_append_rtakeWhile]
    · rw [List.length_drop]
      change backPressureRun labels - (backPressureRun labels - m) = m
      omega
    · intro it hit
      have hb : backPressured it = true :=
        List.mem_rtakeWhile_imp (List.mem_of_mem_drop hit)
      exact of_decide_eq_true hb
  · intro h
    obtain ⟨earlier, last, rfl, hlength, hall⟩ := h
    subst hlength
    induction last using List.reverseRecOn with
    | nil => exact Nat.zero_le _
    | append_singleton last it ih =>
      have hit : backPressured it = true := decide_eq_true (hall it (by simp))
      rw [← List.append_assoc, backPressureRun_snoc_pos _ it hit, List.length_append]
      have hlast := ih (fun e he => hall e (by simp [he]))
      simpa using hlast

theorem exhausted_iff (stopped : Bool) (labels : List Iteration) (p : Publisher)
    (hp : SendInvariant config stopped labels p) :
    p.exit = some .retriesExhausted ↔ 1000001 ≤ backPressureRun labels := by
  have hstate := hp.controlled.exit
  cases hexit : p.exit with
  | none =>
    rw [hexit] at hstate
    have hrun := hstate.2.2
    simp only [reduceCtorEq, false_iff]
    omega
  | some e =>
    rw [hexit] at hstate
    cases e with
    | targetReached =>
      have hrun := hstate.2.2
      simp only [Option.some.injEq, reduceCtorEq, false_iff]
      omega
    | retriesExhausted =>
      have hrun := hstate.2.2
      simp only [true_iff]
      omega
    | sendFailed code =>
      obtain ⟨_, earlier, it, rfl, _, hit, _⟩ := hstate
      have hb : backPressured it = false := by
        simp only [transient, Bool.or_eq_false_iff] at hit
        exact hit.2
      rw [backPressureRun_snoc_neg earlier it hb]
      simp

/-- Before each of its turns a run was in a state that passed the loop test. -/
theorem guard_before (start : Publisher) {earlier later : List Iteration} {it : Iteration}
    {p : Publisher} (h : Run (SendStep host config) start (earlier ++ it :: later) p) :
    ∃ q, Run (SendStep host config) start earlier q ∧ sendGuard config q = true := by
  rw [show earlier ++ it :: later = (earlier ++ [it]) ++ later by simp] at h
  obtain ⟨t, ht, _⟩ := h.split
  obtain ⟨q, hq, hstep⟩ := Run.snoc_inv ht
  exact ⟨q, hq, hstep.1⟩

variable (garbage : ℕ → UInt8) (startTime : TimestampNs) (stopped : Bool)

/-- The invariant of every run of the send loop, whatever the results, the clock and the
moment of the stop signal. -/
theorem publisher_run_invariant {labels : List Iteration} {p : Publisher}
    (hvalid : validateConfig config = .success)
    (hrun : Run (SendStep host config) (startPublisher config garbage startTime stopped)
      labels p) :
    PublisherRunInvariant config stopped labels p := by
  have hinv := send_invariant host config garbage startTime stopped hvalid hrun
  have hearlier : ∀ earlier it later, labels = earlier ++ it :: later →
      ∃ q, SendInvariant config stopped earlier q ∧ sendGuard config q = true := by
    intro earlier it later hsplit
    rw [hsplit] at hrun
    obtain ⟨q, hq, hguard⟩ := guard_before host config _ hrun
    exact ⟨q, send_invariant host config garbage startTime stopped hvalid hq, hguard⟩
  constructor
  · exact hinv.counted.messagesSent
  · exact hinv.counted.successfulSends
  · rw [UInt64.le_iff_toNat_le, hinv.counted.successfulSends]
    exact countP_sent_le config stopped labels p hinv
  · rw [hinv.counted.messagesSent, hinv.counted.successfulSends]
    exact hinv.counted.bytesSent
  · exact hinv.counted.backPressureEvents
  · exact hinv.controlled.retryCount
  · intro earlier it later hsplit
    obtain ⟨q, hq, hguard⟩ := hearlier earlier it later hsplit
    obtain ⟨_, _, hlt⟩ := (sendGuard_iff config q).mp hguard
    have hlt' := UInt64.lt_iff_toNat_lt.mp hlt
    rw [hq.counted.successfulSends] at hlt'
    exact hlt'
  · exact (exhausted_iff config stopped labels p hinv).trans (backPressureRun_ge_iff labels 1000001)
  · intro hstopped
    cases labels with
    | nil => rfl
    | cons it later =>
      obtain ⟨q, hq, hguard⟩ := hearlier [] it later rfl
      obtain ⟨_, hrunning, _⟩ := (sendGuard_iff config q).mp hguard
      simp [hq.controlled.running, hstopped] at hrunning
  · intro earlier it later hsplit hsignal
    cases later with
    | nil => rfl
    | cons next later =>
      obtain ⟨q, hq, hguard⟩ := hearlier (earlier ++ [it]) next later (by simp [hsplit])
      obtain ⟨_, hrunning, _⟩ := (sendGuard_iff config q).mp hguard
      simp [hq.controlled.running, hsignal] at hrunning
  · exact hinv.encoded.offered

end RunInvariant

/-- Three back-pressured offers before each accepted one. -/
def threeRefusals (i : ℕ) : Iteration :=
  ⟨0, if i % 4 = 3 then 1 else aeronPublicationBackPressured, false⟩

theorem threeRefusals_counts (k : ℕ) :
    (streamPrefix threeRefusals k).countP sent = k / 4 ∧
      (streamPrefix threeRefusals k).countP backPressured = k - k / 4 := by
  induction k with
  | zero => simp
  | succ k ih =>
    rw [streamPrefix_succ]
    by_cases hk : k % 4 = 3
    · have hs : sent (threeRefusals k) = true := by simp [sent, threeRefusals, hk]
      have hb : backPressured (threeRefusals k) = false := by
        simp [backPressured, threeRefusals, hk, aeronPublicationBackPressured]
      rw [countP_snoc_pos _ hs, countP_snoc_neg _ hb, ih.1, ih.2]
      omega
    · have hb : backPressured (threeRefusals k) = true := by
        simp [backPressured, threeRefusals, hk]
      have hs := not_sent_of_backPressured _ hb
      rw [countP_snoc_neg _ hs, countP_snoc_pos _ hb, ih.1, ih.2]
      omega

theorem threeRefusals_transient (k : ℕ) :
    ∀ it ∈ streamPrefix threeRefusals k, transient it = true := by
  intro it hit
  obtain ⟨i, _, rfl⟩ := mem_streamPrefix.mp hit
  by_cases hi : i % 4 = 3
  · simp [transient, sent, threeRefusals, hi]
  · simp [transient, backPressured, threeRefusals, hi]

theorem threeRefusals_run (k : ℕ) :
    backPressureRun (streamPrefix threeRefusals k) = k % 4 := by
  induction k with
  | zero => rfl
  | succ k ih =>
    rw [streamPrefix_succ]
    by_cases hk : k % 4 = 3
    · rw [backPressureRun_snoc_neg _ _ (by
        simp [backPressured, threeRefusals, hk, aeronPublicationBackPressured])]
      omega
    · rw [backPressureRun_snoc_pos _ _ (by simp [backPressured, threeRefusals, hk]), ih]
      omega

/-- With three refusals before each acceptance the loop goes on until all is sent. -/
theorem threeRefusals_reaches (config : Config) (hvalid : validateConfig config = .success)
    (k : ℕ) (hk : k ≤ 4 * config.messageCount.toNat) :
    ∃ p, Run (SendStep .little config) (startPublisher config (fun _ => 0) 0 false)
      (streamPrefix threeRefusals k) p := by
  obtain ⟨j, p, _, hrun, hhalt⟩ :=
    exists_send_halt .little config (fun _ => 0) 0 false hvalid threeRefusals
  have hinv := send_invariant .little config _ 0 false hvalid hrun
  obtain ⟨hsent, _⟩ := threeRefusals_counts j
  have hstate := hinv.controlled.exit
  have htarget : j / 4 = config.messageCount.toNat := by
    rcases halted_cases config false _ p hinv hhalt with hexit | hstop
    · cases he : p.exit with
      | none => exact absurd he hexit
      | some e =>
        rw [he] at hstate
        cases e with
        | targetReached => exact hsent.symm.trans hstate.2.1
        | retriesExhausted =>
          have hlong := hstate.2.2
          rw [threeRefusals_run] at hlong
          omega
        | sendFailed code =>
          obtain ⟨_, earlier, it, hsplit, _, hit, _⟩ := hstate
          have hmem : it ∈ streamPrefix threeRefusals j := by simp [hsplit]
          simp [threeRefusals_transient j it hmem] at hit
    · rw [hinv.controlled.running] at hstop
      simp only [Bool.not_false, Bool.true_and, List.all_eq_false] at hstop
      obtain ⟨it, hit, hsignal⟩ := hstop
      obtain ⟨i, _, rfl⟩ := mem_streamPrefix.mp hit
      simp [threeRefusals] at hsignal
  exact exists_shorter_run (by omega) hrun

/-- The back-pressure counter is a word: after 2^64 back-pressured offers it reads zero. -/
theorem backPressureEvents_wraps :
    parsePublisherArgs blankConfig none [('c', "9223372036854775807".toList)] =
        .ok (sizedConfig 1024 9223372036854775807 defaultTargetMessageCount) ∧
      ∃ p, Run (SendStep .little (sizedConfig 1024 9223372036854775807 defaultTargetMessageCount))
          (startPublisher (sizedConfig 1024 9223372036854775807 defaultTargetMessageCount)
            (fun _ => 0) 0 false)
          (streamPrefix threeRefusals 24595658764946068821) p ∧
        p.stats.backPressureEvents.toNat = 0 ∧
        (streamPrefix threeRefusals 24595658764946068821).countP
          (fun it => it.result = aeronPublicationBackPressured) = 2 ^ 64 := by
  have hvalid : validateConfig
      (sizedConfig 1024 9223372036854775807 defaultTargetMessageCount) = .success := by decide
  obtain ⟨p, hrun⟩ := threeRefusals_reaches _ hvalid 24595658764946068821 (by decide)
  have hinv := send_invariant .little _ _ 0 false hvalid hrun
  have hcount : (streamPrefix threeRefusals 24595658764946068821).countP backPressured =
      2 ^ 64 := (threeRefusals_counts 24595658764946068821).2
  refine ⟨rfl, p, hrun, ?_, hcount⟩
  rw [hinv.counted.backPressureEvents, hcount, Nat.mod_self]

/-- The invariant at a run that is stopped by a signal in its second turn. -/
theorem signalled_run_invariant :
    ∃ p, Run (SendStep .little (sizedConfig 16 3 defaultTargetMessageCount))
        (startPublisher (sizedConfig 16 3 defaultTargetMessageCount) (fun _ => 0) 0 false)
        [⟨5, 64, false⟩, ⟨7, aeronPublicationBackPressured, true⟩] p ∧
      PublisherRunInvariant (sizedConfig 16 3 defaultTargetMessageCount) false
        [⟨5, 64, false⟩, ⟨7, aeronPublicationBackPressured, true⟩] p := by
  have hrun : Run (SendStep .little (sizedConfig 16 3 defaultTargetMessageCount))
      (startPublisher (sizedConfig 16 3 defaultTargetMessageCount) (fun _ => 0) 0 false)
      ([] ++ [⟨5, 64, false⟩] ++ [⟨7, aeronPublicationBackPressured, true⟩]) _ :=
    Run.snoc (Run.snoc (Run.nil _) ⟨by decide, rfl⟩) ⟨by decide, rfl⟩
  exact ⟨_, hrun, publisher_run_invariant .little _ (fun _ => 0) 0 false (by decide) hrun⟩

end AeronFast.OfferAccounting
