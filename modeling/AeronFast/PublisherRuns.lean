import AeronFast.BinaryPublisher
import Mathlib.Data.List.DropRight

/-!
What the send loop does in one turn and what holds after every run of it. One
inversion lemma lists the four outcomes of a turn; the counters, the way out
of the loop and the offered buffers are then described by the history of the
turns alone. The retry and message limits bound the number of turns.
-/
namespace AeronFast.PublisherRuns

open CommonTypes ByteBuffers BinaryMessage ConfigParser LabelledRuns WordArithmetic BinaryPublisher

namespace Iteration

/-- Aeron accepted the message. -/
def sent (it : Iteration) : Bool := 0 < it.result

def backPressured (it : Iteration) : Bool := it.result = aeronPublicationBackPressured

/-- The refusals that `publish_message` counts as send errors. -/
def refused (it : Iteration) : Bool :=
  it.result = aeronPublicationNotConnected ∨ it.result = aeronPublicationAdminAction ∨
    it.result = aeronPublicationClosed

/-- A turn after which the loop may go on. -/
def transient (it : Iteration) : Bool := sent it || backPressured it

theorem not_sent_of_backPressured (it : Iteration) (h : backPressured it = true) :
    sent it = false := by
  have hr : it.result = -2 := of_decide_eq_true h
  simp [sent, hr]

theorem refused_excludes (it : Iteration) (h : refused it = true) :
    sent it = false ∧ backPressured it = false := by
  have hr : it.result = -1 ∨ it.result = -3 ∨ it.result = -4 := of_decide_eq_true h
  rcases hr with hr | hr | hr <;>
    simp [sent, backPressured, hr, aeronPublicationBackPressured]

/-- The four outcomes of a turn. -/
theorem outcome_cases (it : Iteration) :
    (sent it = true ∧ backPressured it = false ∧ refused it = false) ∨
      (sent it = false ∧ backPressured it = true ∧ refused it = false) ∨
      (sent it = false ∧ backPressured it = false ∧ refused it = true) ∨
      (sent it = false ∧ backPressured it = false ∧ refused it = false) := by
  have hback := not_sent_of_backPressured it
  have href := refused_excludes it
  revert hback href
  cases sent it <;> cases backPressured it <;> cases refused it <;> simp

end Iteration

open Iteration

theorem publishMessage_sent (g : PublisherStats) (size : UInt64) (it : Iteration)
    (h : sent it = true) :
    publishMessage g size it.result =
      ({ g with messagesSent := g.messagesSent + 1, bytesSent := g.bytesSent + size },
        it.result) :=
  if_pos (of_decide_eq_true h)

theorem publishMessage_backPressured (g : PublisherStats) (size : UInt64) (it : Iteration)
    (h : backPressured it = true) :
    publishMessage g size it.result =
      ({ g with backPressureEvents := g.backPressureEvents + 1 }, -1) := by
  have hr : it.result = aeronPublicationBackPressured := of_decide_eq_true h
  simp [publishMessage, hr, offerFailedHandler, aeronPublicationBackPressured]

theorem publishMessage_refused (g : PublisherStats) (size : UInt64) (it : Iteration)
    (h : refused it = true) :
    publishMessage g size it.result = ({ g with sendErrors := g.sendErrors + 1 }, -2) := by
  obtain ⟨hsent, hback⟩ := refused_excludes it h
  unfold publishMessage
  rw [if_neg (of_decide_eq_false hsent), if_neg (of_decide_eq_false hback),
    if_pos (of_decide_eq_true h)]

/-- The remaining codes fall through: no counter changes and the raw code comes back. -/
theorem publishMessage_unaccounted (g : PublisherStats) (size : UInt64) (it : Iteration)
    (hsent : sent it = false) (hback : backPressured it = false) (href : refused it = false) :
    publishMessage g size it.result = (g, it.result) := by
  unfold publishMessage
  rw [if_neg (of_decide_eq_false hsent), if_neg (of_decide_eq_false hback),
    if_neg (of_decide_eq_false href)]

section Loop

variable (host : ByteOrder) (config : Config)

/-- The part of a turn that does not depend on Aeron's answer. -/
def offerTurn (it : Iteration) (p : Publisher) : Publisher :=
  { p with
    running := p.running && !it.signal
    messageBuffer := createBinaryMessage host p.messageBuffer config.messageSize it.clock
    offered := p.offered ++
      [createBinaryMessage host p.messageBuffer config.messageSize it.clock] }

@[simp] theorem offerTurn_successfulSends (it : Iteration) (p : Publisher) :
    (offerTurn host config it p).successfulSends = p.successfulSends := rfl

theorem sendIteration_sent (it : Iteration) (p : Publisher) (h : sent it = true) :
    sendIteration host config it p =
      { offerTurn host config it p with
        stats := { p.stats with
          messagesSent := p.stats.messagesSent + 1
          bytesSent := p.stats.bytesSent + config.messageSize }
        successfulSends := p.successfulSends + 1
        retryCount := 0
        exit := if config.messageCount ≤ p.successfulSends + 1 then some .targetReached
          else none } := by
  have hpos : 0 < it.result := of_decide_eq_true h
  unfold sendIteration afterPublish
  rw [publishMessage_sent _ _ it h]
  simp only [hpos, if_true, offerTurn]

theorem sendIteration_backPressured (it : Iteration) (p : Publisher)
    (h : backPressured it = true) :
    sendIteration host config it p =
      { offerTurn host config it p with
        stats := { p.stats with backPressureEvents := p.stats.backPressureEvents + 1 }
        retryCount := p.retryCount + 1
        exit := if maxRetries < p.retryCount + 1 then some .retriesExhausted else none } := by
  unfold sendIteration afterPublish
  rw [publishMessage_backPressured _ _ it h]
  rfl

theorem sendIteration_refused (it : Iteration) (p : Publisher) (h : refused it = true) :
    sendIteration host config it p =
      { offerTurn host config it p with
        stats := { p.stats with sendErrors := p.stats.sendErrors + 1 }
        exit := some (.sendFailed (-2)) } := by
  unfold sendIteration afterPublish
  rw [publishMessage_refused _ _ it h]
  rfl

theorem sendIteration_unaccounted (it : Iteration) (p : Publisher)
    (hsent : sent it = false) (hback : backPressured it = false) (href : refused it = false) :
    sendIteration host config it p =
      { offerTurn host config it p with
        stats := p.stats
        exit := some (.sendFailed it.result) } := by
  have hpos : ¬ 0 < it.result := of_decide_eq_false hsent
  have hne : it.result ≠ -1 := by
    intro heq
    have hyes : refused it = true := decide_eq_true (Or.inl heq)
    rw [hyes] at href
    contradiction
  unfold sendIteration afterPublish
  rw [publishMessage_unaccounted _ _ it hsent hback href]
  simp only [hpos, hne, if_false, offerTurn]

/-- Whatever Aeron answers, a turn offers one message and notices the signal. -/
theorem sendIteration_offered (it : Iteration) (p : Publisher) :
    (sendIteration host config it p).offered = (offerTurn host config it p).offered ∧
      (sendIteration host config it p).messageBuffer =
        (offerTurn host config it p).messageBuffer ∧
      (sendIteration host config it p).running = (offerTurn host config it p).running := by
  rcases outcome_cases it with ⟨h, _, _⟩ | ⟨_, h, _⟩ | ⟨_, _, h⟩ | ⟨h1, h2, h3⟩
  · rw [sendIteration_sent host config it p h]
    exact ⟨rfl, rfl, rfl⟩
  · rw [sendIteration_backPressured host config it p h]
    exact ⟨rfl, rfl, rfl⟩
  · rw [sendIteration_refused host config it p h]
    exact ⟨rfl, rfl, rfl⟩
  · rw [sendIteration_unaccounted host config it p h1 h2 h3]
    exact ⟨rfl, rfl, rfl⟩

theorem sendGuard_iff (p : Publisher) :
    sendGuard config p = true ↔
      p.exit = none ∧ p.running = true ∧ p.successfulSends < config.messageCount := by
  simp [sendGuard, and_assoc]

/-- Length of the unbroken run of back-pressured offers at the end of a history. -/
def backPressureRun (labels : List Iteration) : ℕ := (labels.rtakeWhile backPressured).length

theorem backPressureRun_snoc_pos (labels : List Iteration) (it : Iteration)
    (h : backPressured it = true) :
    backPressureRun (labels ++ [it]) = backPressureRun labels + 1 := by
  simp [backPressureRun, List.rtakeWhile_concat_pos _ _ _ h]

theorem backPressureRun_snoc_neg (labels : List Iteration) (it : Iteration)
    (h : backPressured it = false) : backPressureRun (labels ++ [it]) = 0 := by
  simp [backPressureRun, List.rtakeWhile_concat_neg backPressured labels it (by simp [h])]

/-- The counters, as functions of the history. -/
structure Counted (labels : List Iteration) (p : Publisher) : Prop where
  messagesSent : p.stats.messagesSent = p.successfulSends
  successfulSends : p.successfulSends.toNat = labels.countP sent
  bytesSent : p.stats.bytesSent.toNat =
    labels.countP sent * config.messageSize.toNat % 2 ^ 64
  backPressureEvents : p.stats.backPressureEvents.toNat = labels.countP backPressured % 2 ^ 64
  sendErrors : p.stats.sendErrors.toNat = labels.countP refused % 2 ^ 64

theorem Counted.messagesSent_mod {labels : List Iteration} {p : Publisher}
    (h : Counted config labels p) :
    p.stats.messagesSent.toNat = labels.countP sent % 2 ^ 64 := by
  rw [h.messagesSent, ← h.successfulSends]
  exact (Nat.mod_eq_of_lt (UInt64.toNat_lt _)).symm

theorem counted_start (garbage : ℕ → UInt8) (startTime : TimestampNs) (stopped : Bool) :
    Counted config [] (startPublisher config garbage startTime stopped) := by
  constructor <;> simp [startPublisher, zeroStats]

theorem counted_step (labels : List Iteration) (it : Iteration) (p : Publisher)
    (hp : Counted config labels p) (hguard : sendGuard config p = true) :
    Counted config (labels ++ [it]) (sendIteration host config it p) := by
  obtain ⟨_, _, hlt⟩ := (sendGuard_iff config p).mp hguard
  have hroom : p.successfulSends.toNat + 1 < 2 ^ 64 := by
    have hcount := word_lt config.messageCount
    have hlt' := UInt64.lt_iff_toNat_lt.mp hlt
    omega
  have hsucc := toNat_add_one p.successfulSends hroom
  rcases outcome_cases it with ⟨hs, hb, hr⟩ | ⟨hs, hb, hr⟩ | ⟨hs, hb, hr⟩ | ⟨hs, hb, hr⟩
  · rw [sendIteration_sent host config it p hs]
    refine ⟨?_, ?_, ?_, ?_, ?_⟩
    · simp only [hp.messagesSent]
    · rw [countP_snoc_pos labels hs, hsucc, hp.successfulSends]
    · rw [countP_snoc_pos labels hs, Nat.add_mul, Nat.one_mul]
      exact total_add p.stats.bytesSent config.messageSize _ hp.bytesSent
    · rw [countP_snoc_neg labels hb, hp.backPressureEvents]
    · rw [countP_snoc_neg labels hr, hp.sendErrors]
  · rw [sendIteration_backPressured host config it p hb]
    refine ⟨hp.messagesSent, ?_, ?_, ?_, ?_⟩
    · rw [countP_snoc_neg labels hs, offerTurn_successfulSends, hp.successfulSends]
    · rw [countP_snoc_neg labels hs, hp.bytesSent]
    · rw [countP_snoc_pos labels hb]
      exact total_add p.stats.backPressureEvents 1 _ hp.backPressureEvents
    · rw [countP_snoc_neg labels hr, hp.sendErrors]
  · rw [sendIteration_refused host config it p hr]
    refine ⟨hp.messagesSent, ?_, ?_, ?_, ?_⟩
    · rw [countP_snoc_neg labels hs, offerTurn_successfulSends, hp.successfulSends]
    · rw [countP_snoc_neg labels hs, hp.bytesSent]
    · rw [countP_snoc_neg labels hb, hp.backPressureEvents]
    · rw [countP_snoc_pos labels hr]
      exact total_add p.stats.sendErrors 1 _ hp.sendErrors
  · rw [sendIteration_unaccounted host config it p hs hb hr]
    refine ⟨hp.messagesSent, ?_, ?_, ?_, ?_⟩
    · rw [countP_snoc_neg labels hs, offerTurn_successfulSends, hp.successfulSends]
    · rw [countP_snoc_neg labels hs, hp.bytesSent]
    · rw [countP_snoc_neg labels hb, hp.backPressureEvents]
    · rw [countP_snoc_neg labels hr, hp.sendErrors]

/-- How the loop stands after a history: still going, or left by one of its breaks. -/
def ExitState (labels : List Iteration) : Option Exit → Prop
  | none => (∀ it ∈ labels, transient it = true) ∧
      labels.countP sent < config.messageCount.toNat ∧ backPressureRun labels ≤ 1000000
  | some .targetReached => (∀ it ∈ labels, transient it = true) ∧
      labels.countP sent = config.messageCount.toNat ∧ backPressureRun labels = 0
  | some .retriesExhausted => (∀ it ∈ labels, transient it = true) ∧
      labels.countP sent < config.messageCount.toNat ∧ backPressureRun labels = 1000001
  | some (.sendFailed code) => labels.countP sent < config.messageCount.toNat ∧
      ∃ earlier it, labels = earlier ++ [it] ∧ (∀ e ∈ earlier, transient e = true) ∧
        transient it = false ∧ code = if refused it then -2 else it.result

/-- The control variables of the loop, as functions of the history. -/
structure Controlled (stopped : Bool) (labels : List Iteration) (p : Publisher) : Prop where
  running : p.running = (!stopped && labels.all (fun it => !it.signal))
  exit : ExitState config labels p.exit
  retryCount : (∀ code, p.exit ≠ some (.sendFailed code)) →
    p.retryCount.toNat = backPressureRun labels

theorem controlled_start (garbage : ℕ → UInt8) (startTime : TimestampNs) (stopped : Bool)
    (hvalid : validateConfig config = .success) :
    Controlled config stopped [] (startPublisher config garbage startTime stopped) := by
  refine ⟨by simp [startPublisher], ?_, ?_⟩
  · exact ⟨by simp, (validateConfig_success config hvalid).2.1, by simp [backPressureRun]⟩
  · intro _
    rfl

theorem transient_snoc (labels : List Iteration) (it : Iteration)
    (h : ∀ e ∈ labels, transient e = true) (hit : transient it = true) :
    ∀ e ∈ labels ++ [it], transient e = true := by
  intro e he
  rcases List.mem_append.mp he with hold | hnew
  · exact h e hold
  · rw [List.mem_singleton.mp hnew]
    exact hit

theorem controlled_step (stopped : Bool) (labels : List Iteration) (it : Iteration)
    (p : Publisher) (hc : Counted config labels p) (hp : Controlled config stopped labels p)
    (hguard : sendGuard config p = true) :
    Controlled config stopped (labels ++ [it]) (sendIteration host config it p) := by
  obtain ⟨hexit, hrun, hlt⟩ := (sendGuard_iff config p).mp hguard
  have hstate := hp.exit
  rw [hexit] at hstate
  obtain ⟨htransient, hcount, hback⟩ := hstate
  have hretry : p.retryCount.toNat = backPressureRun labels :=
    hp.retryCount (fun code => by simp [hexit])
  have hrunning : (sendIteration host config it p).running =
      (!stopped && (labels ++ [it]).all (fun it => !it.signal)) := by
    rw [(sendIteration_offered host config it p).2.2, offerTurn, hp.running]
    simp [Bool.and_assoc]
  refine ⟨hrunning, ?_, ?_⟩
  · rcases outcome_cases it with ⟨hs, hb, hr⟩ | ⟨hs, hb, hr⟩ | ⟨hs, hb, hr⟩ | ⟨hs, hb, hr⟩
    · rw [sendIteration_sent host config it p hs]
      have hall := transient_snoc labels it htransient (by simp [transient, hs])
      have hnext : (p.successfulSends + 1).toNat = labels.countP sent + 1 := by
        have hmax := word_lt config.messageCount
        rw [toNat_add_one _ (by rw [hc.successfulSends]; omega), hc.successfulSends]
      by_cases htarget : config.messageCount ≤ p.successfulSends + 1
      · have hle := UInt64.le_iff_toNat_le.mp htarget
        simp only [htarget, if_true]
        refine ⟨hall, ?_, backPressureRun_snoc_neg labels it hb⟩
        rw [countP_snoc_pos labels hs]
        omega
      · have hnle := UInt64.le_iff_toNat_le.not.mp htarget
        simp only [htarget, if_false]
        refine ⟨hall, ?_, by rw [backPressureRun_snoc_neg labels it hb]; omega⟩
        rw [countP_snoc_pos labels hs]
        omega
    · rw [sendIteration_backPressured host config it p hb]
      have hall := transient_snoc labels it htransient (by simp [transient, hb])
      have hnext : (p.retryCount + 1).toNat = backPressureRun labels + 1 := by
        rw [toNat_add_one _ (by omega), hretry]
      have hlimit : maxRetries < p.retryCount + 1 ↔ 1000000 < backPressureRun labels + 1 := by
        rw [UInt64.lt_iff_toNat_lt, hnext]
        rfl
      by_cases hmax : maxRetries < p.retryCount + 1
      · have hover := hlimit.mp hmax
        simp only [hmax, if_true]
        refine ⟨hall, by rw [countP_snoc_neg labels hs]; exact hcount, ?_⟩
        rw [backPressureRun_snoc_pos labels it hb]
        omega
      · have hunder := hlimit.not.mp hmax
        simp only [hmax, if_false]
        refine ⟨hall, by rw [countP_snoc_neg labels hs]; exact hcount, ?_⟩
        rw [backPressureRun_snoc_pos labels it hb]
        omega
    · rw [sendIteration_refused host config it p hr]
      refine ⟨by rw [countP_snoc_neg labels hs]; exact hcount, labels, it, rfl, htransient, ?_, ?_⟩
      · simp [transient, hs, hb]
      · simp [hr]
    · rw [sendIteration_unaccounted host config it p hs hb hr]
      refine ⟨by rw [countP_snoc_neg labels hs]; exact hcount, labels, it, rfl, htransient, ?_, ?_⟩
      · simp [transient, hs, hb]
      · simp [hr]
  · intro hno
    rcases outcome_cases it with ⟨hs, hb, hr⟩ | ⟨hs, hb, hr⟩ | ⟨hs, hb, hr⟩ | ⟨hs, hb, hr⟩
    · rw [sendIteration_sent host config it p hs, backPressureRun_snoc_neg labels it hb]
      rfl
    · rw [sendIteration_backPressured host config it p hb, backPressureRun_snoc_pos labels it hb]
      exact (toNat_add_one _ (by omega)).trans (by rw [hretry])
    · rw [sendIteration_refused host config it p hr] at hno
      exact absurd rfl (hno _)
    · rw [sendIteration_unaccounted host config it p hs hb hr] at hno
      exact absurd rfl (hno _)

/-- The offered buffers, as functions of the history. -/
structure Encoded (labels : List Iteration) (p : Publisher) : Prop where
  bufferLength : p.messageBuffer.length = config.messageSize.toNat
  offered : p.offered =
    labels.map (fun it => referenceEncoding config.messageSize.toNat it.clock)

theorem encoded_start (garbage : ℕ → UInt8) (startTime : TimestampNs) (stopped : Bool) :
    Encoded config [] (startPublisher config garbage startTime stopped) := by
  constructor <;> simp [startPublisher]

theorem encoded_step (labels : List Iteration) (it : Iteration) (p : Publisher)
    (hvalid : validateConfig config = .success) (hp : Encoded config labels p) :
    Encoded config (labels ++ [it]) (sendIteration host config it p) := by
  have hsize := (validateConfig_success config hvalid).1
  have hmessage := createBinaryMessage_eq host p.messageBuffer config.messageSize it.clock
    hp.bufferLength hsize
  obtain ⟨hoffered, hbuffer, _⟩ := sendIteration_offered host config it p
  constructor
  · rw [hbuffer, offerTurn, hmessage]
    exact referenceEncoding_length _ _ hsize
  · rw [hoffered, offerTurn, hmessage, hp.offered, List.map_append]
    rfl

/-- Everything the history of a run determines about its last state. -/
structure SendInvariant (stopped : Bool) (labels : List Iteration) (p : Publisher) : Prop where
  counted : Counted config labels p
  controlled : Controlled config stopped labels p
  encoded : Encoded config labels p

theorem send_invariant (garbage : ℕ → UInt8) (startTime : TimestampNs) (stopped : Bool)
    (hvalid : validateConfig config = .success) {labels : List Iteration} {p : Publisher}
    (hrun : Run (SendStep host config) (startPublisher config garbage startTime stopped)
      labels p) :
    SendInvariant config stopped labels p := by
  apply hrun.invariant (P := SendInvariant config stopped)
  · exact ⟨counted_start config garbage startTime stopped,
      controlled_start config garbage startTime stopped hvalid,
      encoded_start config garbage startTime stopped⟩
  · intro labels q it u _ ih hstep
    obtain ⟨hguard, rfl⟩ := hstep
    exact ⟨counted_step host config labels it q ih.counted hguard,
      controlled_step host config stopped labels it q ih.counted ih.controlled hguard,
      encoded_step host config labels it q hvalid ih.encoded⟩

/-- The turns left: what the messages to send and the retries left allow. -/
def turnsLeft (p : Publisher) : ℕ :=
  if p.exit.isSome then 0
  else (config.messageCount.toNat - p.successfulSends.toNat) * 1000001 - p.retryCount.toNat

theorem turnsLeft_le (p : Publisher) : turnsLeft config p ≤
    (config.messageCount.toNat - p.successfulSends.toNat) * 1000001 - p.retryCount.toNat := by
  unfold turnsLeft
  split
  · exact Nat.zero_le _
  · exact Nat.le_refl _

theorem turnsLeft_step (stopped : Bool) (labels : List Iteration) (it : Iteration)
    (p : Publisher) (hp : SendInvariant config stopped labels p)
    (hguard : sendGuard config p = true) :
    turnsLeft config (sendIteration host config it p) < turnsLeft config p := by
  obtain ⟨hexit, _, hlt⟩ := (sendGuard_iff config p).mp hguard
  have hlt' := UInt64.lt_iff_toNat_lt.mp hlt
  have hmax := word_lt config.messageCount
  have hretry : p.retryCount.toNat ≤ 1000000 := by
    have hstate := hp.controlled.exit
    rw [hexit] at hstate
    rw [hp.controlled.retryCount (fun code => by simp [hexit])]
    exact hstate.2.2
  have hbefore : turnsLeft config p =
      (config.messageCount.toNat - p.successfulSends.toNat) * 1000001 - p.retryCount.toNat := by
    simp [turnsLeft, hexit]
  rw [hbefore]
  rcases outcome_cases it with ⟨hs, hb, hr⟩ | ⟨hs, hb, hr⟩ | ⟨hs, hb, hr⟩ | ⟨hs, hb, hr⟩
  · have hnext := toNat_add_one p.successfulSends (by omega)
    apply lt_of_le_of_lt (turnsLeft_le config _)
    rw [sendIteration_sent host config it p hs]
    simp only [hnext, UInt64.toNat_zero]
    omega
  · have hnext := toNat_add_one p.retryCount (by omega)
    apply lt_of_le_of_lt (turnsLeft_le config _)
    rw [sendIteration_backPressured host config it p hb]
    simp only [hnext, offerTurn_successfulSends]
    omega
  · rw [sendIteration_refused host config it p hr]
    simp only [turnsLeft, Option.isSome_some, if_true]
    omega
  · rw [sendIteration_unaccounted host config it p hs hb hr]
    simp only [turnsLeft, Option.isSome_some, if_true]
    omega

/-- Along every stream of turns the loop test fails after boundedly many of them. -/
theorem exists_send_halt (garbage : ℕ → UInt8) (startTime : TimestampNs) (stopped : Bool)
    (hvalid : validateConfig config = .success) (env : ℕ → Iteration) :
    ∃ k p, k ≤ config.messageCount.toNat * 1000001 ∧
      Run (SendStep host config) (startPublisher config garbage startTime stopped)
        (streamPrefix env k) p ∧ sendGuard config p = false := by
  obtain ⟨k, p, hk, hrun, hhalt⟩ := exists_halt (sendGuard config)
    (sendIteration host config) env
    (s := startPublisher config garbage startTime stopped) (turnsLeft config)
    (fun k t hrun hguard => turnsLeft_step host config stopped _ (env k) t
      (send_invariant host config garbage startTime stopped hvalid hrun) hguard)
  exact ⟨k, p, by simpa [turnsLeft, startPublisher] using hk, hrun, hhalt⟩

/-- A loop that has ended was left by a break or by the stop signal. -/
theorem halted_cases (stopped : Bool) (labels : List Iteration) (p : Publisher)
    (hp : SendInvariant config stopped labels p) (hhalt : sendGuard config p = false) :
    p.exit ≠ none ∨ p.running = false := by
  by_contra hboth
  simp only [not_or, ne_eq, not_not, Bool.not_eq_false] at hboth
  obtain ⟨hexit, hrunning⟩ := hboth
  have hstate := hp.controlled.exit
  rw [hexit] at hstate
  have hlt : p.successfulSends < config.messageCount := by
    rw [UInt64.lt_iff_toNat_lt, hp.counted.successfulSends]
    exact hstate.2.1
  have hguard := (sendGuard_iff config p).mpr ⟨hexit, hrunning, hlt⟩
  simp [hguard] at hhalt

theorem countP_sent_le (stopped : Bool) (labels : List Iteration) (p : Publisher)
    (hp : SendInvariant config stopped labels p) :
    labels.countP sent ≤ config.messageCount.toNat := by
  have hstate := hp.controlled.exit
  cases hexit : p.exit with
  | none =>
    rw [hexit] at hstate
    exact Nat.le_of_lt hstate.2.1
  | some e =>
    rw [hexit] at hstate
    cases e with
    | targetReached => exact Nat.le_of_eq hstate.2.1
    | retriesExhausted => exact Nat.le_of_lt hstate.2.1
    | sendFailed code => exact Nat.le_of_lt hstate.1

/-- Without a signal the running flag stays set. -/
theorem running_of_quiet (env : ℕ → Iteration) (k : ℕ) (p : Publisher)
    (hp : SendInvariant config false (streamPrefix env k) p)
    (hquiet : ∀ i, i < k → (env i).signal = false) : p.running = true := by
  rw [hp.controlled.running]
  simp only [Bool.not_false, Bool.true_and, List.all_eq_true]
  intro it hit
  obtain ⟨i, hi, rfl⟩ := mem_streamPrefix.mp hit
  simp [hquiet i hi]

/-- With a buffer, `run_publisher` returns what its tail makes of a halted run. -/
theorem runPublisher_eq_some_iff (garbage : ℕ → UInt8) (startTime finalTime : TimestampNs)
    (stopped : Bool) (env : ℕ → Iteration) (fuel : ℕ) (r : PublisherResult) :
    runPublisher host config ⟨some garbage, startTime, stopped, env, finalTime⟩ fuel = some r ↔
      ∃ k p, k ≤ fuel ∧ Run (SendStep host config)
          (startPublisher config garbage startTime stopped) (streamPrefix env k) p ∧
        sendGuard config p = false ∧
        r = ⟨.success, k, some { p with running := false },
          some (printFinalStats p.stats finalTime)⟩ := by
  have hloop (k : ℕ) (p : Publisher) := whileLoop_eq_some_iff (sendGuard config)
    (sendIteration host config) env (j := k) (t := p) fuel 0
    (startPublisher config garbage startTime stopped) (Run.nil _)
  unfold runPublisher
  constructor
  · intro h
    split at h
    · rename_i hnone
      cases hnone
    · rename_i g hg
      cases hg
      split at h
      · cases h
      · rename_i k p hsome
        obtain ⟨_, hk, hrun, hhalt⟩ := (hloop k p).mp hsome
        exact ⟨k, p, by omega, hrun, hhalt, (Option.some.inj h).symm⟩
  · intro h
    obtain ⟨k, p, hk, hrun, hhalt, rfl⟩ := h
    have hsome := (hloop k p).mpr ⟨by omega, by omega, hrun, hhalt⟩
    simp only [hsome]

end Loop

section Failures

variable (host : ByteOrder) (config : Config)

/-- Before the last message is accepted and without a signal, result `k` is fatal or the last
of 1,000,001 refusals in a row. -/
def SendFailsAt (env : ℕ → Iteration) (k : ℕ) : Prop :=
  (∀ i, i ≤ k → (env i).signal = false) ∧
    (streamPrefix env k).countP sent < config.messageCount.toNat ∧
    (transient (env k) = false ∨ 1000001 ≤ backPressureRun (streamPrefix env (k + 1)))

theorem not_sent_of_failsAt (env : ℕ → Iteration) (k : ℕ) (h : SendFailsAt config env k) :
    sent (env k) = false := by
  rcases h.2.2 with hfatal | hrefused
  · simp only [transient, Bool.or_eq_false_iff] at hfatal
    exact hfatal.1
  · rw [streamPrefix_succ] at hrefused
    cases hb : backPressured (env k) with
    | true => exact not_sent_of_backPressured (env k) hb
    | false =>
      rw [backPressureRun_snoc_neg _ _ hb] at hrefused
      omega

variable (garbage : ℕ → UInt8) (startTime : TimestampNs) (env : ℕ → Iteration)
variable (hvalid : validateConfig config = .success)
include hvalid

/-- The loop does not outlive a failure. -/
theorem send_turns_le (k j : ℕ) (p : Publisher) (hfail : SendFailsAt config env k)
    (hrun : Run (SendStep host config) (startPublisher config garbage startTime false)
      (streamPrefix env j) p) : j ≤ k + 1 := by
  by_contra hlong
  obtain ⟨q, hq⟩ := exists_shorter_run (show k + 1 ≤ j by omega) hrun
  have hguard := guard_of_longer_run (show k + 1 < j by omega) hq hrun
  have hstate := (send_invariant host config garbage startTime false hvalid hq).controlled.exit
  rw [((sendGuard_iff config q).mp hguard).1] at hstate
  rcases hfail.2.2 with hfatal | hrefused
  · have htransient := hstate.1 (env k) (mem_streamPrefix.mpr ⟨k, by omega, rfl⟩)
    rw [hfatal] at htransient
    cases htransient
  · have hretries := hstate.2.2
    omega

/-- A halted loop that has neither met its target nor a signal has met a failure. -/
theorem failsAt_of_halted (j : ℕ) (p : Publisher)
    (hrun : Run (SendStep host config) (startPublisher config garbage startTime false)
      (streamPrefix env j) p)
    (hhalt : sendGuard config p = false) (hsends : p.successfulSends ≠ config.messageCount)
    (hquiet : ∀ i, i < j → (env i).signal = false) : ∃ k, SendFailsAt config env k := by
  have hinv := send_invariant host config garbage startTime false hvalid hrun
  have hrunning := running_of_quiet config env j p hinv hquiet
  have hexit : p.exit ≠ none := by
    rcases halted_cases config false _ p hinv hhalt with h | h
    · exact h
    · simp [hrunning] at h
  have hstate := hinv.controlled.exit
  cases he : p.exit with
  | none => exact absurd he hexit
  | some e =>
    rw [he] at hstate
    cases e with
    | targetReached =>
      exfalso
      apply hsends
      apply UInt64.toNat_inj.mp
      rw [hinv.counted.successfulSends, hstate.2.1]
    | retriesExhausted =>
      cases j with
      | zero =>
        have hnever := hstate.2.2
        simp [backPressureRun] at hnever
      | succ k =>
        have hmono := countP_streamPrefix_mono sent env (Nat.le_succ k)
        refine ⟨k, fun i hi => hquiet i (by omega), ?_, Or.inr (Nat.le_of_eq hstate.2.2.symm)⟩
        exact Nat.lt_of_le_of_lt hmono hstate.2.1
    | sendFailed code =>
      obtain ⟨hlt, earlier, it, hlabels, _, hfatal, _⟩ := hstate
      cases j with
      | zero => simp at hlabels
      | succ k =>
        have hmono := countP_streamPrefix_mono sent env (Nat.le_succ k)
        rw [streamPrefix_succ] at hlabels
        obtain ⟨_, hit⟩ := List.append_inj' hlabels rfl
        obtain rfl : env k = it := List.head_eq_of_cons_eq hit
        exact ⟨k, fun i hi => hquiet i (by omega), Nat.lt_of_le_of_lt hmono hlt,
          Or.inl hfatal⟩

end Failures

end AeronFast.PublisherRuns
