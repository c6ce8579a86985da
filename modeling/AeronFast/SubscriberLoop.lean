import AeronFast.ConfigParser
import AeronFast.SubscriberRuns

/-!
The receive loop over whole runs. The handler stops the loop when the target
is reached, a signal stops it at any time and a failed poll leaves it at once.
The running flag is a function of the history: the message counter meets the
target while it is still exact, and nothing sets the flag again.
-/
namespace AeronFast.SubscriberLoop

open CommonTypes ByteBuffers ConfigParser LabelledRuns WordArithmetic BinarySubscriber
open SubscriberRuns

/-- The fragments of a history of polls, oldest first. -/
def delivered (polls : List Poll) : List Fragment := polls.flatMap Poll.fragments

/-- The messages of a history of polls, over unbounded naturals. -/
def messageTotal (polls : List Poll) : ℕ := (delivered polls).countP counted

def failed (poll : Poll) : Bool := poll.result < 0

def signalled (poll : Poll) : Bool := poll.signal

theorem delivered_snoc (polls : List Poll) (poll : Poll) :
    delivered (polls ++ [poll]) = delivered polls ++ poll.fragments := by
  simp [delivered, List.flatMap_append]

theorem messageTotal_mono (env : ℕ → Poll) {i j : ℕ} (h : i ≤ j) :
    messageTotal (streamPrefix env i) ≤ messageTotal (streamPrefix env j) := by
  obtain ⟨rest, hrest⟩ := streamPrefix_extends env h
  rw [hrest, messageTotal, messageTotal, delivered, delivered, List.flatMap_append,
    List.countP_append]
  exact Nat.le_add_right _ _

/-- The books, the target and the running flag while a poll delivers; `going` tells whether
the loop was still to go on but for the target. -/
structure Watching (host : ByteOrder) (target : UInt64) (going : Bool)
    (fragments : List Fragment) (s : Subscriber) : Prop where
  received : Received host fragments s
  targetMessages : s.targetMessages = target
  running : s.running = (going && decide (fragments.countP counted < target.toNat))

section Handler

variable {host : ByteOrder} {target : UInt64} {going : Bool}
variable {fragments : List Fragment} {s : Subscriber}

/-- The counter meets the target before it can wrap. -/
theorem watching_counted (f : Fragment) (hf : counted f = true)
    (h : Watching host target going fragments s) :
    Watching host target going (fragments ++ [f])
      (checkTarget f.clock (countFragment host f s)) := by
  have hreceived := received_countFragment f hf h.received
  have hcount : (countFragment host f s).stats.messagesReceived.toNat =
      (fragments.countP counted + 1) % 2 ^ 64 := by
    rw [hreceived.messagesReceived_mod, countP_snoc_pos fragments hf]
  have htarget := word_lt target
  have hrunning := h.running
  refine ⟨received_checkTarget f.clock hreceived, ?_, ?_⟩
  · unfold checkTarget
    split
    · exact h.targetMessages
    · exact h.targetMessages
  · rw [countP_snoc_pos fragments hf]
    unfold checkTarget
    split
    · rename_i hreached
      rw [show (countFragment host f s).targetMessages = target from h.targetMessages,
        UInt64.le_iff_toNat_le, hcount] at hreached
      have hmod := Nat.mod_le (fragments.countP counted + 1) (2 ^ 64)
      have hnot : ¬ fragments.countP counted + 1 < target.toNat := by omega
      simp [hnot]
    · rename_i hbelow
      rw [show (countFragment host f s).targetMessages = target from h.targetMessages,
        UInt64.le_iff_toNat_le, hcount] at hbelow
      change s.running = _
      rw [hrunning]
      congr 1
      apply decide_eq_decide.mpr
      omega

theorem watching_process (f : Fragment) (h : Watching host target going fragments s) :
    Watching host target going (fragments ++ [f]) (processMessageFragment host f s) := by
  cases hf : counted f with
  | true =>
    rw [process_counted host f s hf]
    exact watching_counted f hf h
  | false =>
    have hreceived := received_process f h.received
    rw [process_short host f s hf] at hreceived ⊢
    refine ⟨hreceived, h.targetMessages, ?_⟩
    rw [countP_snoc_neg fragments hf]
    exact h.running

theorem watching_deliver (more : List Fragment) (h : Watching host target going fragments s) :
    Watching host target going (fragments ++ more) (deliver host more s) := by
  induction more using List.reverseRecOn with
  | nil => simpa [deliver] using h
  | append_singleton more f ih =>
    rw [← List.append_assoc, deliver, List.foldl_append]
    exact watching_process f ih

/-- Counting the turn touches none of it. -/
theorem watching_polled (h : Watching host target going fragments s) :
    Watching host target going fragments
      { s with stats := { s.stats with
          pollingIterations := s.stats.pollingIterations + 1 } } :=
  ⟨⟨h.received.recorded, h.received.messagesReceived, h.received.bytesReceived,
    h.received.fragmentsReceived, h.received.totalLatency, h.received.extremes,
    h.received.books⟩, h.targetMessages, h.running⟩

end Handler

section Loop

variable (host : ByteOrder) (target : UInt64) (startTime : TimestampNs) (stopped : Bool)

/-- The control variables of the receive loop, as functions of the history. -/
structure PollInvariant (polls : List Poll) (s : Subscriber) : Prop where
  watching : Watching host target (!stopped && !polls.any signalled) (delivered polls) s
  pollFailed : s.pollFailed = polls.getLast?.any failed

theorem poll_invariant_start (htarget : 0 < target.toNat) :
    PollInvariant host target stopped [] (startSubscriber target startTime stopped) := by
  refine ⟨⟨received_start host target startTime stopped, rfl, ?_⟩, rfl⟩
  change (!stopped) = _
  simp [delivered, htarget]

theorem poll_invariant_step (polls : List Poll) (poll : Poll) (s : Subscriber)
    (h : PollInvariant host target stopped polls s) :
    PollInvariant host target stopped (polls ++ [poll]) (pollIteration host poll s) := by
  have hw := h.watching
  have hdelivered := watching_deliver poll.fragments (watching_polled hw)
  refine ⟨⟨?_, hdelivered.targetMessages, ?_⟩, ?_⟩
  · rw [delivered_snoc]
    exact received_pollIteration poll hw.received
  · rw [delivered_snoc]
    simp only [pollIteration, hdelivered.running, List.any_append, List.any_cons, List.any_nil,
      signalled]
    cases stopped <;> cases poll.signal <;> simp
  · simp [pollIteration, failed]

theorem poll_invariant (htarget : 0 < target.toNat) {polls : List Poll} {s : Subscriber}
    (hrun : Run (PollStep host) (startSubscriber target startTime stopped) polls s) :
    PollInvariant host target stopped polls s := by
  apply hrun.invariant (P := PollInvariant host target stopped)
  · exact poll_invariant_start host target startTime stopped htarget
  · intro polls t poll u _ ih hstep
    obtain ⟨_, rfl⟩ := hstep
    exact poll_invariant_step host target stopped polls poll t ih

theorem pollGuard_iff (s : Subscriber) :
    pollGuard s = true ↔
      s.pollFailed = false ∧ s.running = true ∧ s.stats.messagesReceived < s.targetMessages := by
  simp [pollGuard, and_assoc]

/-- Short of the target and without a signal, only a failed poll ends the loop. -/
theorem failed_of_halted {polls : List Poll} {s : Subscriber}
    (h : PollInvariant host target false polls s) (hhalt : pollGuard s = false)
    (hsignal : polls.any signalled = false) (htotal : messageTotal polls < target.toNat) :
    polls.getLast?.any failed = true := by
  rw [← h.pollFailed]
  by_contra hnot
  have hrunning : s.running = true := by
    have htotal' : (delivered polls).countP counted < target.toNat := htotal
    rw [h.watching.running, hsignal]
    simp [htotal']
  have hbelow : s.stats.messagesReceived < s.targetMessages := by
    have hword := word_lt target
    have hreceived := h.watching.received
    rw [h.watching.targetMessages, UInt64.lt_iff_toNat_lt, hreceived.messagesReceived_mod]
    exact Nat.lt_of_le_of_lt (Nat.mod_le _ _) htotal
  have hguard := (pollGuard_iff s).mpr ⟨by simpa using hnot, hrunning, hbelow⟩
  rw [hguard] at hhalt
  cases hhalt

/-- By turn `k` the loop is over: the target is met, a signal has arrived or the last poll has
failed. -/
def StopsAt (env : ℕ → Poll) (k : ℕ) : Prop :=
  stopped = true ∨ target.toNat ≤ messageTotal (streamPrefix env k) ∨
    (streamPrefix env k).any signalled = true ∨ (streamPrefix env k).getLast?.any failed = true

theorem halted_of_stopsAt {env : ℕ → Poll} {k : ℕ} {s : Subscriber}
    (h : PollInvariant host target stopped (streamPrefix env k) s)
    (hstop : StopsAt target stopped env k) : pollGuard s = false := by
  by_contra hguard
  obtain ⟨hfailed, hrunning, _⟩ := (pollGuard_iff s).mp (by simpa using hguard)
  rw [h.watching.running] at hrunning
  simp only [Bool.and_eq_true, Bool.not_eq_true', decide_eq_true_eq] at hrunning
  rcases hstop with hstop | hreached | hsignal | hlast
  · rw [hrunning.1.1] at hstop
    cases hstop
  · exact absurd hrunning.2 (Nat.not_lt.mpr hreached)
  · rw [hrunning.1.2] at hsignal
    cases hsignal
  · rw [← h.pollFailed, hfailed] at hlast
    cases hlast

theorem exists_halt_of_stopsAt (htarget : 0 < target.toNat) (env : ℕ → Poll) (k : ℕ)
    (hstop : StopsAt target stopped env k) :
    ∃ j s, j ≤ k ∧ Run (PollStep host) (startSubscriber target startTime stopped)
        (streamPrefix env j) s ∧ pollGuard s = false := by
  rcases exists_run_or_halt pollGuard (pollIteration host) env
      (startSubscriber target startTime stopped) k with ⟨s, hrun⟩ | ⟨j, s, hj, hrun, hhalt⟩
  · exact ⟨k, s, Nat.le_refl _, hrun, halted_of_stopsAt host target stopped
      (poll_invariant host target startTime stopped htarget hrun) hstop⟩
  · exact ⟨j, s, Nat.le_of_lt hj, hrun, hhalt⟩

/-- With a statistics object, `run_subscriber` returns what its tail makes of a halted run. -/
theorem runSubscriber_eq_some_iff (config : Config) (endTime : TimestampNs) (env : ℕ → Poll)
    (fuel : ℕ) (r : SubscriberResult) :
    runSubscriber host config ⟨true, startTime, stopped, env, endTime⟩ fuel = some r ↔
      ∃ k s, k ≤ fuel ∧ Run (PollStep host)
          (startSubscriber config.targetMessageCount startTime stopped) (streamPrefix env k) s ∧
        pollGuard s = false ∧
        r = ⟨.success, k,
          some (cleanupSubscriberStats { setEndTime endTime s with running := false }),
          some (printFinalStats (setEndTime endTime s).stats)⟩ := by
  have hloop (k : ℕ) (s : Subscriber) := whileLoop_eq_some_iff pollGuard
    (pollIteration host) env (j := k) (t := s) fuel 0
    (startSubscriber config.targetMessageCount startTime stopped) (Run.nil _)
  unfold runSubscriber
  rw [if_neg (by simp [initSubscriberStats])]
  constructor
  · intro h
    split at h
    · cases h
    · rename_i k s hsome
      obtain ⟨_, hk, hrun, hhalt⟩ := (hloop k s).mp hsome
      exact ⟨k, s, by omega, hrun, hhalt, (Option.some.inj h).symm⟩
  · intro h
    obtain ⟨k, s, hk, hrun, hhalt, rfl⟩ := h
    have hsome := (hloop k s).mpr ⟨by omega, by omega, hrun, hhalt⟩
    simp only [hsome]

end Loop

end AeronFast.SubscriberLoop
