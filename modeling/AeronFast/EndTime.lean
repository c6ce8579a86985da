import AeronFast.SubscriberLoop

/-!
When the receive loop ends and what the end time is. The target test sits in
the handler and the loop test outside the poll, so the handler goes on until
the poll is over and every further counted fragment writes the end time anew.
A zero end time marks that the handler has not set it. The counter is a word:
a poll that takes it past 2^64 - 1 leaves it below the target again, and the
end time with the last fragment counted before.
-/
namespace AeronFast.EndTime

open CommonTypes ByteBuffers ConfigParser LabelledRuns WordArithmetic BinarySubscriber
open SubscriberRuns SubscriberLoop

/-- The receive readings of the counted fragments, oldest first. -/
def countedReadings (fragments : List Fragment) : List TimestampNs :=
  (fragments.filter counted).map Fragment.clock

/-- The last counted fragment whose number fits in a word, numbered from one. -/
def lastFitting (fragments : List Fragment) : ℕ :=
  min (fragments.countP counted) 18446744073709551615

/-- The end time as a function of the fragments: unset below the target, then the reading of the
last counted fragment that did not wrap the counter. -/
structure EndSet (target : ℕ) (fragments : List Fragment) (endTime : TimestampNs) : Prop where
  unset : fragments.countP counted < target → endTime = 0
  set : target ≤ fragments.countP counted →
    (countedReadings fragments)[lastFitting fragments - 1]? = some endTime

theorem countedReadings_snoc (fragments : List Fragment) {f : Fragment} (h : counted f = true) :
    countedReadings (fragments ++ [f]) = countedReadings fragments ++ [f.clock] := by
  simp [countedReadings, List.filter_append, h]

theorem countedReadings_snoc_short (fragments : List Fragment) {f : Fragment}
    (h : counted f = false) : countedReadings (fragments ++ [f]) = countedReadings fragments := by
  simp [countedReadings, List.filter_append, h]

theorem length_countedReadings (fragments : List Fragment) :
    (countedReadings fragments).length = fragments.countP counted := by
  rw [countedReadings, List.length_map, List.countP_eq_length_filter]

section Handler

variable {host : ByteOrder} {target : UInt64} {going : Bool}
variable {fragments : List Fragment} {s : Subscriber}

theorem checkTarget_endTime (now : TimestampNs) (s : Subscriber) :
    (checkTarget now s).stats.endTime =
      if s.targetMessages ≤ s.stats.messagesReceived then now else s.stats.endTime := by
  unfold checkTarget
  split
  · rfl
  · rfl

/-- A counted fragment writes its reading unless the counter is below the target, which at or
above the target means that it has wrapped. -/
theorem endSet_counted (f : Fragment) (hf : counted f = true) (htarget : 0 < target.toNat)
    (hw : Watching host target going fragments s)
    (h : EndSet target.toNat fragments s.stats.endTime)
    (hbound : fragments.countP counted + 1 < 2 ^ 64 + target.toNat) :
    EndSet target.toNat (fragments ++ [f])
      (checkTarget f.clock (countFragment host f s)).stats.endTime := by
  have hcount : (countFragment host f s).stats.messagesReceived.toNat =
      (fragments.countP counted + 1) % 2 ^ 64 := by
    rw [(received_countFragment f hf hw.received).messagesReceived_mod,
      countP_snoc_pos fragments hf]
  have hword := word_lt target
  have htest : (countFragment host f s).targetMessages ≤
      (countFragment host f s).stats.messagesReceived ↔
        target.toNat ≤ (fragments.countP counted + 1) % 2 ^ 64 := by
    rw [UInt64.le_iff_toNat_le, hcount, show (countFragment host f s).targetMessages = target
      from hw.targetMessages]
  rw [checkTarget_endTime]
  split
  · rename_i hreached
    rw [htest] at hreached
    have hfits : fragments.countP counted + 1 < 2 ^ 64 := by omega
    refine ⟨?_, ?_⟩
    · rw [countP_snoc_pos fragments hf]
      omega
    · intro _
      have hlast : lastFitting (fragments ++ [f]) - 1 = (countedReadings fragments).length := by
        rw [lastFitting, countP_snoc_pos fragments hf, length_countedReadings]
        omega
      rw [hlast, countedReadings_snoc fragments hf, List.getElem?_concat_length]
  · rename_i hbelow
    rw [htest] at hbelow
    change EndSet _ _ s.stats.endTime
    refine ⟨?_, ?_⟩
    · rw [countP_snoc_pos fragments hf]
      intro hless
      exact h.unset (by omega)
    · rw [countP_snoc_pos fragments hf]
      intro hreached
      have hsame : lastFitting (fragments ++ [f]) = lastFitting fragments := by
        rw [lastFitting, lastFitting, countP_snoc_pos fragments hf]
        omega
      have hold := h.set (by omega)
      have hlt : lastFitting fragments - 1 < (countedReadings fragments).length := by
        rw [lastFitting, length_countedReadings]
        omega
      rw [hsame, countedReadings_snoc fragments hf, List.getElem?_append_left hlt]
      exact hold

theorem endSet_process (f : Fragment) (htarget : 0 < target.toNat)
    (hw : Watching host target going fragments s)
    (h : EndSet target.toNat fragments s.stats.endTime)
    (hbound : (fragments ++ [f]).countP counted < 2 ^ 64 + target.toNat) :
    EndSet target.toNat (fragments ++ [f]) (processMessageFragment host f s).stats.endTime := by
  cases hf : counted f with
  | true =>
    rw [countP_snoc_pos fragments hf] at hbound
    rw [process_counted host f s hf]
    exact endSet_counted f hf htarget hw h hbound
  | false =>
    rw [process_short host f s hf]
    refine ⟨?_, ?_⟩
    · rw [countP_snoc_neg fragments hf]
      exact h.unset
    · rw [lastFitting, countP_snoc_neg fragments hf, countedReadings_snoc_short fragments hf]
      exact h.set

theorem endSet_deliver (more : List Fragment) (htarget : 0 < target.toNat)
    (hw : Watching host target going fragments s)
    (h : EndSet target.toNat fragments s.stats.endTime)
    (hbound : (fragments ++ more).countP counted < 2 ^ 64 + target.toNat) :
    EndSet target.toNat (fragments ++ more) (deliver host more s).stats.endTime := by
  induction more using List.reverseRecOn with
  | nil => simpa [deliver] using h
  | append_singleton more f ih =>
    rw [← List.append_assoc] at hbound ⊢
    have hearlier : (fragments ++ more).countP counted < 2 ^ 64 + target.toNat := by
      rw [List.countP_append] at hbound
      omega
    rw [deliver, List.foldl_append]
    exact endSet_process f htarget (watching_deliver more hw) (ih hearlier) hbound

end Handler

section Loop

variable (host : ByteOrder) (target : UInt64) (startTime : TimestampNs) (stopped : Bool)
variable (limit : ℕ)

/-- The fragments of a run and the end time: the last poll runs past the target by less than
the limit. -/
structure EndInvariant (polls : List Poll) (s : Subscriber) : Prop where
  overshoot : messageTotal polls ≤ target.toNat + limit - 1
  endSet : EndSet target.toNat (delivered polls) s.stats.endTime

/-- The loop test holds before a poll, so the poll starts below the target. -/
theorem end_invariant_step (htarget : 0 < target.toNat) (hlimit : limit < 2 ^ 64)
    (polls : List Poll) (poll : Poll) (s : Subscriber)
    (hp : PollInvariant host target stopped polls s) (hguard : pollGuard s = true)
    (hlength : poll.fragments.length ≤ limit) (h : EndInvariant target limit polls s) :
    EndInvariant target limit (polls ++ [poll]) (pollIteration host poll s) := by
  have hbelow : (delivered polls).countP counted < target.toNat := by
    have hrunning := ((pollGuard_iff s).mp hguard).2.1
    rw [hp.watching.running] at hrunning
    simp only [Bool.and_eq_true, decide_eq_true_eq] at hrunning
    exact hrunning.2
  have hpoll : poll.fragments.countP counted ≤ poll.fragments.length := List.countP_le_length
  have htotal : (delivered polls ++ poll.fragments).countP counted ≤
      target.toNat + limit - 1 := by
    rw [List.countP_append]
    omega
  constructor
  · rw [messageTotal, delivered_snoc]
    exact htotal
  · rw [delivered_snoc]
    exact endSet_deliver poll.fragments htarget (watching_polled hp.watching) h.endSet (by omega)

theorem end_invariant (htarget : 0 < target.toNat) (hlimit : limit < 2 ^ 64)
    {polls : List Poll} {s : Subscriber}
    (hpolls : ∀ poll ∈ polls, poll.fragments.length ≤ limit)
    (hrun : Run (PollStep host) (startSubscriber target startTime stopped) polls s) :
    EndInvariant target limit polls s := by
  generalize hstart : startSubscriber target startTime stopped = start at hrun
  induction hrun with
  | nil =>
    subst hstart
    refine ⟨Nat.zero_le _, fun _ => rfl, ?_⟩
    intro hzero
    exact absurd hzero (Nat.not_le.mpr htarget)
  | snoc hrun hstep ih =>
    subst hstart
    obtain ⟨hguard, rfl⟩ := hstep
    apply end_invariant_step host target stopped limit htarget hlimit _ _ _
      (poll_invariant host target startTime stopped htarget hrun) hguard
    · exact hpolls _ (by simp)
    · exact ih (fun poll hpoll => hpolls poll (by simp [hpoll]))

end Loop

/-- The final state against the fragments `received` in the run: the counter and its overshoot,
the end time above and below the target, and what is left of both when the counter wrapped. -/
structure EndMatches (config : Config) (env : SubscriberEnv) (received : List Fragment)
    (stats : SubscriberStats) : Prop where
  count : stats.messagesReceived.toNat = received.countP counted % 2 ^ 64
  overshoot : (received.countP counted : Int) ≤
    config.targetMessageCount.toNat + config.fragmentLimit - 1
  reached : config.targetMessageCount ≤ stats.messagesReceived →
    (countedReadings received).getLast? = some stats.endTime
  short : stats.messagesReceived < config.targetMessageCount →
    received.countP counted < 2 ^ 64 → stats.endTime = env.endTime
  wrapped : 2 ^ 64 ≤ received.countP counted →
    stats.messagesReceived < config.targetMessageCount ∧
      (countedReadings received)[18446744073709551614]? = some stats.endTime

/-- The same without an exception for a wrapped counter. -/
structure EndMatchesAlways (config : Config) (env : SubscriberEnv) (received : List Fragment)
    (stats : SubscriberStats) : Prop where
  overshoot : (stats.messagesReceived.toNat : Int) ≤
    config.targetMessageCount.toNat + config.fragmentLimit - 1
  reached : config.targetMessageCount ≤ stats.messagesReceived →
    (countedReadings received).getLast? = some stats.endTime
  short : stats.messagesReceived < config.targetMessageCount → stats.endTime = env.endTime

section Returned

variable (host : ByteOrder) (config : Config) (env : SubscriberEnv)
variable (htarget : 0 < config.targetMessageCount.toNat)
include htarget

theorem returns_of_stopsAt (k : ℕ)
    (h : StopsAt config.targetMessageCount env.stopped env.polls k) :
    ∃ r, runSubscriber host config env k = some r := by
  obtain ⟨allocated, startTime, stopped, polls, endTime⟩ := env
  cases allocated with
  | false => exact ⟨_, rfl⟩
  | true =>
    obtain ⟨j, s, hj, hrun, hhalt⟩ :=
      exists_halt_of_stopsAt host _ startTime stopped htarget polls k h
    exact ⟨_, (runSubscriber_eq_some_iff host startTime stopped config endTime polls k _).mpr
      ⟨j, s, hj, hrun, hhalt, rfl⟩⟩

end Returned

section Tail

theorem setEndTime_messagesReceived (now : TimestampNs) (s : Subscriber) :
    (setEndTime now s).stats.messagesReceived = s.stats.messagesReceived := by
  unfold setEndTime
  split
  · rfl
  · rfl

/-- A handler that has set the end time has set it to a reading, which is not zero. -/
theorem setEndTime_of_reached {s : Subscriber} {target : ℕ} {fragments : List Fragment}
    (now : TimestampNs) (hclock : ∀ f ∈ fragments, f.clock ≠ 0)
    (h : EndSet target fragments s.stats.endTime)
    (hreached : target ≤ fragments.countP counted) :
    (setEndTime now s).stats.endTime = s.stats.endTime := by
  have hmem := List.mem_of_getElem? (h.set hreached)
  obtain ⟨f, hf, hsame⟩ := List.mem_map.mp hmem
  have hne : s.stats.endTime ≠ 0 := by
    rw [← hsame]
    exact hclock f (List.mem_filter.mp hf).1
  rw [setEndTime, if_neg hne]

theorem setEndTime_of_short {s : Subscriber} {target : ℕ} {fragments : List Fragment}
    (now : TimestampNs) (h : EndSet target fragments s.stats.endTime)
    (hshort : fragments.countP counted < target) :
    (setEndTime now s).stats.endTime = now := by
  rw [setEndTime, if_pos (h.unset hshort)]

/-- Short of the word size the last fitting reading is the last one. -/
theorem getLast?_of_endSet {target : ℕ} {fragments : List Fragment} {endTime : TimestampNs}
    (h : EndSet target fragments endTime) (hreached : target ≤ fragments.countP counted)
    (hfits : fragments.countP counted < 2 ^ 64) :
    (countedReadings fragments).getLast? = some endTime := by
  have hset := h.set hreached
  have hlast : lastFitting fragments - 1 = (countedReadings fragments).length - 1 := by
    rw [lastFitting, length_countedReadings]
    omega
  rw [List.getLast?_eq_getElem?, ← hlast]
  exact hset

variable (host : ByteOrder) (config : Config) (env : SubscriberEnv)
variable (htarget : 0 < config.targetMessageCount.toNat) (hlimit : 1 ≤ config.fragmentLimit)
variable (hint : config.fragmentLimit < 2 ^ 31)
variable (hpolls : ∀ k, ((env.polls k).fragments.length : Int) ≤ config.fragmentLimit)
variable (hclock : ∀ k, ∀ f ∈ (env.polls k).fragments, f.clock ≠ 0)
include htarget hlimit hint hpolls hclock

theorem endMatches_of_run (k : ℕ) (s : Subscriber)
    (hrun : Run (PollStep host)
      (startSubscriber config.targetMessageCount env.startTime env.stopped)
      (streamPrefix env.polls k) s) :
    EndMatches config env (delivered (streamPrefix env.polls k))
      (setEndTime env.endTime s).stats := by
  have hword := word_lt config.targetMessageCount
  have hinv := poll_invariant host _ env.startTime env.stopped htarget hrun
  have hcount := hinv.watching.received.messagesReceived_mod
  obtain ⟨hovershoot, hset⟩ : EndInvariant config.targetMessageCount config.fragmentLimit.toNat
      (streamPrefix env.polls k) s := by
    apply end_invariant host _ env.startTime env.stopped _ htarget (by omega) _ hrun
    intro poll hpoll
    obtain ⟨i, _, rfl⟩ := mem_streamPrefix.mp hpoll
    have hlength := hpolls i
    omega
  rw [messageTotal] at hovershoot
  have hnonzero : ∀ f ∈ delivered (streamPrefix env.polls k), f.clock ≠ 0 := by
    intro f hf
    obtain ⟨poll, hpoll, hmem⟩ := List.mem_flatMap.mp hf
    obtain ⟨i, _, rfl⟩ := mem_streamPrefix.mp hpoll
    exact hclock i f hmem
  have hkeep := setEndTime_of_reached env.endTime hnonzero hset
  refine ⟨?_, by omega, ?_, ?_, ?_⟩
  · rw [setEndTime_messagesReceived]
    exact hcount
  · rw [setEndTime_messagesReceived, UInt64.le_iff_toNat_le, hcount]
    intro hreached
    -- a wrapped counter is below the limit, which is below the target
    have hfits : (delivered (streamPrefix env.polls k)).countP counted < 2 ^ 64 := by omega
    rw [hkeep (by omega)]
    exact getLast?_of_endSet hset (by omega) hfits
  · rw [setEndTime_messagesReceived, UInt64.lt_iff_toNat_lt, hcount]
    intro hshort hfits
    exact setEndTime_of_short env.endTime hset (by omega)
  · intro hwrapped
    constructor
    · rw [setEndTime_messagesReceived, UInt64.lt_iff_toNat_lt, hcount]
      omega
    · have hread := hset.set (by omega)
      rw [lastFitting, Nat.min_eq_right (by omega)] at hread
      rw [hkeep (by omega)]
      exact hread

end Tail

section StartTime

theorem deliver_startTime (host : ByteOrder) (fragments : List Fragment) (s : Subscriber) :
    (deliver host fragments s).stats.startTime = s.stats.startTime := by
  induction fragments using List.reverseRecOn with
  | nil => rfl
  | append_singleton earlier f ih =>
    rw [deliver, List.foldl_append]
    exact (process_marks host f _).1.trans ih

theorem run_startTime (host : ByteOrder) (target : UInt64) (startTime : TimestampNs)
    (stopped : Bool) {polls : List Poll} {s : Subscriber}
    (hrun : Run (PollStep host) (startSubscriber target startTime stopped) polls s) :
    s.stats.startTime = startTime := by
  apply hrun.invariant (P := fun _ q => q.stats.startTime = startTime)
  · rfl
  · intro earlier q poll u _ ih hstep
    obtain ⟨_, rfl⟩ := hstep
    exact (deliver_startTime host poll.fragments _).trans ih

theorem setEndTime_startTime (now : TimestampNs) (s : Subscriber) :
    (setEndTime now s).stats.startTime = s.stats.startTime := by
  unfold setEndTime
  split
  · rfl
  · rfl

end StartTime

/-- The end of every run, for any target, any limit of type `int`, any polls within the limit and
a signal at any point. The loop is over as soon as the target is met, a signal arrives or a poll
fails. The overshoot is below the limit; at or above the target the end time is the reading of
the last counted fragment, and below it the one taken after the loop, unless 2^64 or more
fragments were counted, when it is the reading of fragment number 2^64 - 1. -/
theorem end_matches (host : ByteOrder) (config : Config) (env : SubscriberEnv)
    (htarget : 0 < config.targetMessageCount.toNat) (hlimit : 1 ≤ config.fragmentLimit)
    (hint : config.fragmentLimit < 2 ^ 31)
    (hpolls : ∀ k, ((env.polls k).fragments.length : Int) ≤ config.fragmentLimit)
    (hclock : ∀ k, ∀ f ∈ (env.polls k).fragments, f.clock ≠ 0) :
    (∀ k, StopsAt config.targetMessageCount env.stopped env.polls k →
        ∃ r, runSubscriber host config env k = some r) ∧
      ∀ fuel r final, runSubscriber host config env fuel = some r → r.final = some final →
        EndMatches config env (delivered (streamPrefix env.polls r.turns)) final.stats ∧
          ∃ report, r.report = some report ∧
            report.messagesReceived = final.stats.messagesReceived ∧
            report.totalDuration = final.stats.endTime - env.startTime := by
  refine ⟨returns_of_stopsAt host config env htarget, ?_⟩
  intro fuel r final hret hfinal
  obtain ⟨allocated, startTime, stopped, polls, endTime⟩ := env
  cases allocated with
  | false =>
    cases hret
    cases hfinal
  | true =>
    obtain ⟨k, s, _, hrun, _, rfl⟩ :=
      (runSubscriber_eq_some_iff host startTime stopped config endTime polls fuel r).mp hret
    cases hfinal
    have hend := endMatches_of_run host config ⟨true, startTime, stopped, polls, endTime⟩ htarget
      hlimit hint hpolls hclock k s hrun
    refine ⟨⟨hend.count, hend.overshoot, hend.reached, hend.short, hend.wrapped⟩, _, rfl, rfl, ?_⟩
    change (setEndTime endTime s).stats.endTime - (setEndTime endTime s).stats.startTime = _
    rw [setEndTime_startTime, run_startTime host _ startTime stopped hrun]
    rfl

section Burst

/-- One counted fragment a poll, `n` times, and then a poll of two. -/
def burstPolls (n k : ℕ) : Poll :=
  ⟨List.replicate (if k < n then 1 else 2) ⟨List.replicate 8 0, 7⟩, 1, false⟩

theorem messageTotal_burst (n k : ℕ) (hk : k ≤ n) :
    messageTotal (streamPrefix (burstPolls n) k) = k := by
  induction k with
  | zero => rfl
  | succ k ih =>
    rw [streamPrefix_succ, messageTotal, delivered_snoc, List.countP_append]
    have hlast : (burstPolls n k).fragments.countP counted = 1 := by
      simp only [burstPolls, if_pos (show k < n from hk)]
      rfl
    rw [hlast]
    exact congrArg (· + 1) (ih (by omega))

theorem messageTotal_burst_last (n : ℕ) :
    messageTotal (streamPrefix (burstPolls n) (n + 1)) = n + 2 := by
  rw [streamPrefix_succ, messageTotal, delivered_snoc, List.countP_append]
  have hlast : (burstPolls n n).fragments.countP counted = 2 := by
    simp only [burstPolls, if_neg (Nat.lt_irrefl n)]
    rfl
  rw [hlast]
  exact congrArg (· + 2) (messageTotal_burst n n (Nat.le_refl n))

theorem burst_length (n k : ℕ) : (burstPolls n k).fragments.length ≤ 2 := by
  simp only [burstPolls, List.length_replicate]
  split
  · decide
  · decide

theorem burst_within (limit : Int) (hlimit : 2 ≤ limit) (n k : ℕ) :
    ((burstPolls n k).fragments.length : Int) ≤ limit := by
  have hlength := burst_length n k
  omega

theorem burst_clock (n k : ℕ) (f : Fragment) (h : f ∈ (burstPolls n k).fragments) :
    f.clock = 7 := by
  rw [(List.mem_replicate.mp h).2]

theorem burst_clock_ne_zero (n k : ℕ) (f : Fragment) (h : f ∈ (burstPolls n k).fragments) :
    f.clock ≠ 0 := by
  rw [burst_clock n k f h]
  decide

/-- The burst ends with its last poll, since no other one meets the target, signals or fails. -/
theorem burst_halts (host : ByteOrder) (target : UInt64) (startTime : TimestampNs) (n : ℕ)
    (htarget : target.toNat = n + 1) :
    ∃ s, Run (PollStep host) (startSubscriber target startTime false)
      (streamPrefix (burstPolls n) (n + 1)) s ∧ pollGuard s = false := by
  have hstop : StopsAt target false (burstPolls n) (n + 1) := by
    refine Or.inr (Or.inl ?_)
    rw [messageTotal_burst_last]
    omega
  obtain ⟨j, s, hj, hrun, hhalt⟩ :=
    exists_halt_of_stopsAt host target startTime false (by omega) (burstPolls n) (n + 1) hstop
  by_cases hlast : j = n + 1
  · subst hlast
    exact ⟨s, hrun, hhalt⟩
  · have hquiet : (streamPrefix (burstPolls n) j).any signalled = false := by
      apply List.any_eq_false.mpr
      intro poll hpoll
      obtain ⟨i, _, rfl⟩ := mem_streamPrefix.mp hpoll
      simp [signalled, burstPolls]
    have hfailed := failed_of_halted host target
      (poll_invariant host target startTime false (by omega) hrun) hhalt hquiet
      (by rw [messageTotal_burst n j (by omega)]; omega)
    cases hpoll : (streamPrefix (burstPolls n) j).getLast? with
    | none => simp [hpoll] at hfailed
    | some poll =>
      obtain ⟨i, _, rfl⟩ := mem_streamPrefix.mp (List.mem_of_getLast? hpoll)
      simp [hpoll, failed, burstPolls] at hfailed

/-- The last poll takes the counter from `2^64 - 2` past the target to zero. -/
theorem burst_not_always (host : ByteOrder) (config : Config) (startTime : TimestampNs) (n : ℕ)
    (htarget : config.targetMessageCount.toNat = n + 1) (hwraps : n + 2 = 2 ^ 64)
    (hlimit : 2 ≤ config.fragmentLimit) (hint : config.fragmentLimit < 2 ^ 31) :
    ∃ fuel r final,
      runSubscriber host config ⟨true, startTime, false, burstPolls n, 9⟩ fuel = some r ∧
        r.final = some final ∧
        ¬ EndMatchesAlways config ⟨true, startTime, false, burstPolls n, 9⟩
          (delivered (streamPrefix (burstPolls n) r.turns)) final.stats := by
  obtain ⟨s, hrun, hhalt⟩ := burst_halts host config.targetMessageCount startTime n htarget
  refine ⟨n + 1, _, _, (runSubscriber_eq_some_iff host startTime false config 9 (burstPolls n)
    (n + 1) _).mpr ⟨n + 1, s, Nat.le_refl _, hrun, hhalt, rfl⟩, rfl, ?_⟩
  intro halways
  have hend := endMatches_of_run host config ⟨true, startTime, false, burstPolls n, 9⟩ (by omega)
    (by omega) hint (burst_within _ hlimit n) (burst_clock_ne_zero n) (n + 1) s hrun
  have htotal : (delivered (streamPrefix (burstPolls n) (n + 1))).countP counted = 2 ^ 64 := by
    rw [← hwraps]
    exact messageTotal_burst_last n
  obtain ⟨hbelow, hread⟩ := hend.wrapped (Nat.le_of_eq htotal.symm)
  have hend9 : (setEndTime 9 s).stats.endTime = 9 := halways.short hbelow
  rw [hend9] at hread
  obtain ⟨f, hf, hclock⟩ := List.mem_map.mp (List.mem_of_getElem? hread)
  obtain ⟨poll, hpoll, hmem⟩ := List.mem_flatMap.mp (List.mem_filter.mp hf).1
  obtain ⟨i, _, rfl⟩ := mem_streamPrefix.mp hpoll
  rw [burst_clock n i f hmem] at hclock
  exact absurd hclock (by decide)

end Burst

/-- The greatest target, and a last poll of two fragments that takes the counter to zero: it is
below the target, yet the end time is a reading of the handler. -/
theorem wrapped_end_differs :
    parseSubscriberArgs blankConfig none [('c', "-1".toList)] =
        .ok (sizedConfig defaultMessageSize defaultMessageCount 18446744073709551615) ∧
      (∀ k, (burstPolls 18446744073709551614 k).fragments.length ≤ 2 ∧
        ∀ f ∈ (burstPolls 18446744073709551614 k).fragments, f.clock = 7) ∧
      ∃ fuel r final,
        runSubscriber .little
            (sizedConfig defaultMessageSize defaultMessageCount 18446744073709551615)
            ⟨true, 1, false, burstPolls 18446744073709551614, 9⟩ fuel = some r ∧
          r.final = some final ∧
          ¬ EndMatchesAlways
            (sizedConfig defaultMessageSize defaultMessageCount 18446744073709551615)
            ⟨true, 1, false, burstPolls 18446744073709551614, 9⟩
            (delivered (streamPrefix (burstPolls 18446744073709551614) r.turns)) final.stats :=
  ⟨rfl, fun k => ⟨burst_length _ k, burst_clock _ k⟩,
    burst_not_always .little _ 1 18446744073709551614 rfl rfl (by decide) (by decide)⟩

/-- Two fragments meet a target of one: the second reading is the end time. -/
theorem burst_of_two_ends :
    ∃ r final,
      runSubscriber .little (sizedConfig 16 1 1) ⟨true, 1, false, burstPolls 0, 9⟩ 1 = some r ∧
        r.final = some final ∧
        EndMatches (sizedConfig 16 1 1) ⟨true, 1, false, burstPolls 0, 9⟩
          (delivered (streamPrefix (burstPolls 0) r.turns)) final.stats ∧
        final.stats.messagesReceived = 2 ∧ final.stats.endTime = 7 := by
  obtain ⟨_, hmatch⟩ := end_matches .little (sizedConfig 16 1 1)
    ⟨true, 1, false, burstPolls 0, 9⟩ (by decide) (by decide) (by decide)
    (burst_within _ (by decide) 0) (burst_clock_ne_zero 0)
  exact ⟨_, _, rfl, rfl, (hmatch 1 _ _ rfl rfl).1, rfl, rfl⟩

end AeronFast.EndTime
