import AeronFast.HandleRelease
import AeronFast.PublisherRuns
import AeronFast.SubscriberLoop

/-!
How the two `main` functions end. They wait in three loops: for the addition of
the endpoint, which a stop signal interrupts; for a connection, which no signal
interrupts, only the clock; and in the loop of the transfer. Each loop ends or
not by what Aeron, the clock and the signals do, and the exit status says which
stage was reached.
-/
namespace AeronFast.MainExits

open CommonTypes ByteBuffers ConfigParser ParsedOptions Getopt DocumentedInvocations LabelledRuns
open BinaryPublisher BinarySubscriber PublisherRuns SubscriberLoop MainFunctions

section Loops

variable (env : MainEnv)

/-- Every set-up call up to the asynchronous addition succeeds. -/
structure SetUp : Prop where
  contextInit : 0 ≤ env.contextInit
  contextSetDir : 0 ≤ env.contextSetDir
  init : 0 ≤ env.init
  start : 0 ≤ env.start
  asyncAdd : 0 ≤ env.asyncAdd

/-- After the given polls the addition is pending, and no test of the flag has seen a signal. -/
def Undecided (k : ℕ) : Prop :=
  k = 0 ∨ env.signalled = false ∧
    ∀ j < k, (env.polls j).poll = .notComplete ∧ (env.polls j).signal = false

/-- The poll with the given index completes the addition. -/
def EndpointAt (k : ℕ) : Prop := Undecided env k ∧ (env.polls k).poll = .completed

/-- The flag after the given number of polls. -/
def flagAfter (k : ℕ) : Bool :=
  !env.signalled && (streamPrefix env.polls k).all (fun turn => !turn.signal)

/-- The connection is there, or the clock is past the timeout. -/
def Answers (n : ℕ) : Prop :=
  (env.waits n).connected = true ∨ 30 < (env.waits n).time - env.waitStart

variable {env}

theorem flagAfter_succ (k : ℕ) :
    flagAfter env (k + 1) = (flagAfter env k && !(env.polls k).signal) := by
  simp [flagAfter, streamPrefix_succ, Bool.and_assoc]

theorem flagAfter_eq_true_iff (k : ℕ) :
    flagAfter env k = true ↔ env.signalled = false ∧ ∀ j < k, (env.polls j).signal = false := by
  simp [flagAfter, mem_streamPrefix]

theorem undecided_succ_iff (k : ℕ) :
    Undecided env (k + 1) ↔ Undecided env k ∧ (env.polls k).poll = .notComplete ∧
      flagAfter env (k + 1) = true := by
  rw [flagAfter_eq_true_iff]
  constructor
  · rintro (hzero | ⟨hsignalled, hpolls⟩)
    · omega
    · refine ⟨Or.inr ⟨hsignalled, fun j hj => hpolls j (by omega)⟩, (hpolls k (by omega)).1,
        hsignalled, fun j hj => (hpolls j hj).2⟩
  · rintro ⟨hbefore, hpending, hsignalled, hsignals⟩
    refine Or.inr ⟨hsignalled, fun j hj => ⟨?_, hsignals j hj⟩⟩
    rcases Nat.lt_succ_iff_lt_or_eq.mp hj with hlt | rfl
    · rcases hbefore with rfl | ⟨_, hpolls⟩
      · omega
      · exact (hpolls j hlt).1
    · exact hpending

theorem Undecided.before {j k : ℕ} (hk : Undecided env k) (hle : j ≤ k) : Undecided env j := by
  rcases hk with rfl | ⟨hsignalled, hpolls⟩
  · exact Or.inl (by omega)
  · exact Or.inr ⟨hsignalled, fun i hi => hpolls i (by omega)⟩

theorem EndpointAt.decided {k : ℕ} (h : EndpointAt env k) : ¬Undecided env (k + 1) := by
  rw [undecided_succ_iff, h.2]
  rintro ⟨_, hpending, _⟩
  cases hpending

/-- The first decision is the only one. -/
theorem first_decided {j k : ℕ} (hj : Undecided env j) (hnext : ¬Undecided env (j + 1))
    (hk : Undecided env k) (hknext : ¬Undecided env (k + 1)) : j = k := by
  by_contra hne
  rcases Nat.lt_or_gt_of_ne hne with hlt | hgt
  · exact hnext (hk.before hlt)
  · exact hknext (hj.before hgt)

/-- The state of the polling loop, by the number of its polls. -/
structure PolledTo (env : MainEnv) (k : ℕ) (p : Polling) : Prop where
  flag : p.session.running = flagAfter env k
  guard : pollingGuard p = true ↔ Undecided env k
  fresh : k = 0 → p.session.endpoint = false
  last : ∀ j, k = j + 1 → Undecided env j ∧
    p.session.endpoint = (env.polls j).poll.handle ∧
    (p.interrupted = true ↔ (env.polls j).poll = .notComplete ∧ flagAfter env k = false)

/-- A poll answers 0 exactly if the addition is not complete. -/
theorem result_eq_zero_iff (poll : AsyncPoll) : poll.result = 0 ↔ poll = .notComplete := by
  cases poll <;> simp [AsyncPoll.result]

theorem polledTo_run {s : Session} {k : ℕ} {p : Polling} (hflag : s.running = !env.signalled)
    (hendpoint : s.endpoint = false)
    (hrun : Run (LoopStep pollingGuard pollingTurn) ⟨s, 0, false⟩ (streamPrefix env.polls k) p) :
    PolledTo env k p := by
  induction k generalizing p with
  | zero =>
    cases Run.nil_inv hrun
    exact ⟨by simp [hflag, flagAfter], by simp [pollingGuard, Undecided], fun _ => hendpoint,
      fun j hj => by omega⟩
  | succ k ih =>
    rw [streamPrefix_succ] at hrun
    obtain ⟨q, hq, hguard, rfl⟩ := Run.snoc_inv hrun
    have hpolled := ih hq
    have hundecided := hpolled.guard.mp hguard
    have hclosed : q.session.endpoint = false := by
      cases k with
      | zero => exact hpolled.fresh rfl
      | succ j =>
        rw [(hpolled.last j rfl).2.1, ((undecided_succ_iff j).mp hundecided).2.1]
        rfl
    have hrunning : (pollingTurn (env.polls k) q).session.running = flagAfter env (k + 1) := by
      rw [flagAfter_succ, ← hpolled.flag]
      rfl
    have hinterrupted : (pollingTurn (env.polls k) q).interrupted =
        (decide ((env.polls k).poll.result = 0) && !flagAfter env (k + 1)) := by
      rw [← hrunning]
      rfl
    refine ⟨hrunning, ?_, by omega, ?_⟩
    · have hguard' : pollingGuard (pollingTurn (env.polls k) q) =
          (decide ((env.polls k).poll.result = 0) &&
            !(pollingTurn (env.polls k) q).interrupted) := rfl
      rw [undecided_succ_iff, hguard', hinterrupted, ← result_eq_zero_iff]
      cases flagAfter env (k + 1) with
      | true => simp [hundecided]
      | false => simp
    · intro j hj
      obtain rfl : k = j := by omega
      refine ⟨hundecided, by simp [pollingTurn, hclosed], ?_⟩
      rw [hinterrupted, ← result_eq_zero_iff]
      simp

theorem handle_eq_false_iff (poll : AsyncPoll) : poll.handle = false ↔ poll ≠ .completed := by
  cases poll <;> simp [AsyncPoll.handle]

/-- The loop ends with a poll that decides, and the error exits are those without an endpoint. -/
theorem halted_polls {s : Session} {k : ℕ} {p : Polling} (hflag : s.running = !env.signalled)
    (hendpoint : s.endpoint = false)
    (hrun : Run (LoopStep pollingGuard pollingTurn) ⟨s, 0, false⟩ (streamPrefix env.polls k) p)
    (hhalt : pollingGuard p = false) :
    ∃ j, Undecided env j ∧ ¬Undecided env (j + 1) ∧ p.session.running = flagAfter env (j + 1) ∧
      (p.interrupted = true ∨ p.session.endpoint = false ↔ ¬EndpointAt env j) := by
  have hpolled := polledTo_run hflag hendpoint hrun
  have hdecided : ¬Undecided env k := by
    rw [← hpolled.guard, hhalt]
    simp
  cases k with
  | zero => exact absurd (Or.inl rfl) hdecided
  | succ j =>
    obtain ⟨hundecided, hhandle, hinterrupted⟩ := hpolled.last j rfl
    refine ⟨j, hundecided, hdecided, hpolled.flag, ?_⟩
    rw [hinterrupted, hhandle, EndpointAt, handle_eq_false_iff]
    constructor
    · rintro (⟨hpending, _⟩ | hnot) ⟨_, hcompleted⟩
      · rw [hpending] at hcompleted
        cases hcompleted
      · exact hnot hcompleted
    · intro hnot
      exact Or.inr (fun hcompleted => hnot ⟨hundecided, hcompleted⟩)

/-- The polling loop ends exactly if the addition is decided or the flag seen. -/
theorem exists_polls_iff {s : Session} (hflag : s.running = !env.signalled)
    (hendpoint : s.endpoint = false) :
    (∃ x, Yields (fun fuel => whileLoop pollingGuard pollingTurn env.polls fuel 0 ⟨s, 0, false⟩) x) ↔
      ∃ k, ¬Undecided env k := by
  have hguard : ∀ k p, Run (LoopStep pollingGuard pollingTurn) ⟨s, 0, false⟩
      (streamPrefix env.polls k) p → (pollingGuard p = false ↔ ¬Undecided env k) := by
    intro k p hrun
    rw [← (polledTo_run hflag hendpoint hrun).guard, Bool.not_eq_true]
  constructor
  · rintro ⟨⟨k, p⟩, h⟩
    obtain ⟨hrun, hhalt⟩ := yields_whileLoop_iff.mp h
    exact ⟨k, (hguard k p hrun).mp hhalt⟩
  · rintro ⟨k, hk⟩
    exact exists_yields_whileLoop (fun p hrun => (hguard k p hrun).mpr hk)

/-- The wait ends exactly if the peer is there at a turn or the clock is past the timeout. -/
theorem exists_wait_iff (calls : List AeronCall) :
    (∃ w, Yields (fun fuel => waitForConnection env.waitStart 30 env.waits fuel calls) w) ↔
      ∃ n, Answers env n := by
  have hcode : ∀ k w, Run (LoopStep (fun w : Waiting => w.code.isNone)
      (waitTurn env.waitStart 30)) ⟨none, calls⟩ (streamPrefix env.waits (k + 1)) w →
      (w.code.isNone = false ↔ Answers env k) := by
    intro k w hrun
    rw [streamPrefix_succ] at hrun
    obtain ⟨v, _, _, rfl⟩ := Run.snoc_inv hrun
    by_cases hconnected : (env.waits k).connected = true
    · simp [waitTurn, Answers, hconnected]
    · by_cases htime : 30 < (env.waits k).time - env.waitStart
      · simp [waitTurn, Answers, hconnected, htime]
      · simp [waitTurn, Answers, hconnected, htime]
  constructor
  · rintro ⟨w, fuel, h⟩
    obtain ⟨⟨k, v⟩, hloop, _⟩ := Option.map_eq_some_iff.mp h
    obtain ⟨hrun, hhalt⟩ := yields_whileLoop_iff.mp ⟨fuel, hloop⟩
    cases k with
    | zero =>
      cases Run.nil_inv hrun
      cases hhalt
    | succ n => exact ⟨n, (hcode n v hrun).mp hhalt⟩
  · rintro ⟨n, hn⟩
    obtain ⟨x, fuel, hloop⟩ := exists_yields_whileLoop
      (fun w hrun => (hcode n w hrun).mpr hn)
    exact ⟨x.2, fuel, Option.map_eq_some_iff.mpr ⟨x, hloop, rfl⟩⟩

end Loops

section Stages

variable {program : Program} {config : Config} {env : MainEnv}
variable {run : Config → Bool → ℕ → Option (ErrorCode × ℕ)} {s : Session}

variable (program config run s) in
theorem runAndClose_eq (fuel : ℕ) :
    runAndClose program config run fuel s = (run config s.running fuel).bind (fun x =>
      some ⟨exitStatus x.1,
        s.calls ++ List.replicate x.2 (transferCall program) ++ closeAll s⟩) := by
  unfold runAndClose
  cases run config s.running fuel <;> rfl

/-- The calls of the wait, which a session on shared memory skips. -/
def waited (config : Config) (env : MainEnv) (calls : List AeronCall) (fuel : ℕ) :
    Option (List AeronCall) :=
  if config.transportType ≠ .ipc then
    (waitForConnection env.waitStart 30 env.waits fuel calls).map Waiting.calls
  else some calls

theorem connectAndRun_eq (program : Program) (config : Config) (env : MainEnv)
    (run : Config → Bool → ℕ → Option (ErrorCode × ℕ)) (s : Session) (fuel : ℕ) :
    connectAndRun program config env run fuel s = (waited config env s.calls fuel).bind
      (fun calls => runAndClose program config run fuel { s with calls := calls }) := by
  unfold connectAndRun waited
  split
  · cases waitForConnection env.waitStart 30 env.waits fuel s.calls <;> rfl
  · rfl

theorem fuelled_waited (calls : List AeronCall) : Fuelled (waited config env calls) := by
  intro fuel more x hle h
  unfold waited at h ⊢
  split at h
  · rename_i hipc
    rw [if_pos hipc]
    obtain ⟨w, hw, rfl⟩ := Option.map_eq_some_iff.mp h
    obtain ⟨y, hy, rfl⟩ := Option.map_eq_some_iff.mp hw
    have hmore := fuelled_whileLoop fuel more y hle hy
    exact Option.map_eq_some_iff.mpr ⟨_, Option.map_eq_some_iff.mpr ⟨y, hmore, rfl⟩, rfl⟩
  · rename_i hipc
    rw [if_neg hipc]
    exact h

theorem exists_waited_iff (calls : List AeronCall) :
    (∃ x, Yields (waited config env calls) x) ↔
      (config.transportType ≠ .ipc → ∃ n, Answers env n) := by
  by_cases hipc : config.transportType ≠ .ipc
  · have hwaited : waited config env calls = fun fuel =>
        (waitForConnection env.waitStart 30 env.waits fuel calls).map Waiting.calls := by
      funext fuel
      exact if_pos hipc
    rw [hwaited, ← exists_wait_iff calls]
    constructor
    · rintro ⟨_, fuel, h⟩ _
      obtain ⟨w, hw, _⟩ := Option.map_eq_some_iff.mp h
      exact ⟨w, fuel, hw⟩
    · intro h
      obtain ⟨w, fuel, hw⟩ := h hipc
      exact ⟨w.calls, fuel, Option.map_eq_some_iff.mpr ⟨w, hw, rfl⟩⟩
  · have hwaited : waited config env calls = fun _ => some calls := by
      funext fuel
      exact if_neg hipc
    rw [hwaited]
    exact ⟨fun _ h => absurd h hipc, fun _ => ⟨calls, 0, rfl⟩⟩

/-- What follows the polling loop. -/
def afterPolls (program : Program) (config : Config) (env : MainEnv)
    (run : Config → Bool → ℕ → Option (ErrorCode × ℕ)) (p : Polling) (fuel : ℕ) :
    Option MainResult :=
  if p.interrupted = true ∨ p.session.endpoint = false then
    some ⟨1, p.session.calls ++ [.close, .contextClose]⟩
  else connectAndRun program config env run fuel p.session

theorem pollForEndpoint_eq (program : Program) (config : Config) (env : MainEnv)
    (run : Config → Bool → ℕ → Option (ErrorCode × ℕ)) (s : Session) (fuel : ℕ) :
    pollForEndpoint program config env run fuel s =
      (whileLoop pollingGuard pollingTurn env.polls fuel 0 ⟨s, 0, false⟩).bind
        (fun x => afterPolls program config env run x.2 fuel) := by
  unfold pollForEndpoint
  cases whileLoop pollingGuard pollingTurn env.polls fuel 0 ⟨s, 0, false⟩ with
  | none => rfl
  | some x =>
    simp only [Option.bind_some, afterPolls]
    cases x.2.interrupted with
    | true => rfl
    | false => cases x.2.session.endpoint <;> rfl

theorem yields_afterPolls_iff {p : Polling} {r : MainResult} :
    Yields (afterPolls program config env run p) r ↔
      (p.interrupted = true ∨ p.session.endpoint = false) ∧
          r = ⟨1, p.session.calls ++ [.close, .contextClose]⟩ ∨
        ¬(p.interrupted = true ∨ p.session.endpoint = false) ∧
          Yields (fun fuel => connectAndRun program config env run fuel p.session) r := by
  by_cases hover : p.interrupted = true ∨ p.session.endpoint = false
  · have hafter : afterPolls program config env run p =
        fun _ => some ⟨1, p.session.calls ++ [.close, .contextClose]⟩ := by
      funext fuel
      exact if_pos hover
    rw [hafter]
    constructor
    · rintro ⟨_, h⟩
      exact Or.inl ⟨hover, (Option.some.inj h).symm⟩
    · rintro (⟨_, rfl⟩ | ⟨hnot, _⟩)
      · exact ⟨0, rfl⟩
      · exact absurd hover hnot
  · have hafter : afterPolls program config env run p =
        fun fuel => connectAndRun program config env run fuel p.session := by
      funext fuel
      exact if_neg hover
    rw [hafter]
    constructor
    · intro h
      exact Or.inr ⟨hover, h⟩
    · rintro (⟨h, _⟩ | ⟨_, h⟩)
      · exact absurd h hover
      · exact h

section Fuelled

variable (hfuel : ∀ flag, Fuelled (run config flag))

include hfuel

theorem fuelled_runAndClose : Fuelled (fun fuel => runAndClose program config run fuel s) := by
  simp only [runAndClose_eq]
  exact (hfuel s.running).bind (fun _ => fuelled_const _)

theorem yields_runAndClose_iff {r : MainResult} :
    Yields (fun fuel => runAndClose program config run fuel s) r ↔
      ∃ x, Yields (run config s.running) x ∧
        r = ⟨exitStatus x.1,
          s.calls ++ List.replicate x.2 (transferCall program) ++ closeAll s⟩ := by
  simp only [runAndClose_eq]
  rw [yields_bind_iff (hfuel s.running) (fun _ => fuelled_const _)]
  simp [Yields, eq_comm]

theorem fuelled_connectAndRun :
    Fuelled (fun fuel => connectAndRun program config env run fuel s) := by
  simp only [connectAndRun_eq]
  exact (fuelled_waited s.calls).bind (fun _ => fuelled_runAndClose hfuel)

theorem yields_connectAndRun_iff {r : MainResult} :
    Yields (fun fuel => connectAndRun program config env run fuel s) r ↔
      ∃ calls, Yields (waited config env s.calls) calls ∧
        Yields (fun fuel => runAndClose program config run fuel { s with calls := calls }) r := by
  simp only [connectAndRun_eq]
  exact yields_bind_iff (fuelled_waited s.calls) (fun _ => fuelled_runAndClose hfuel)

theorem exists_connectAndRun_iff :
    (∃ r, Yields (fun fuel => connectAndRun program config env run fuel s) r) ↔
      (config.transportType ≠ .ipc → ∃ n, Answers env n) ∧
        ∃ x, Yields (run config s.running) x := by
  simp only [yields_connectAndRun_iff hfuel, yields_runAndClose_iff hfuel]
  constructor
  · rintro ⟨r, calls, hcalls, x, hx, _⟩
    exact ⟨(exists_waited_iff s.calls).mp ⟨calls, hcalls⟩, x, hx⟩
  · rintro ⟨hwait, x, hx⟩
    obtain ⟨calls, hcalls⟩ := (exists_waited_iff s.calls).mpr hwait
    exact ⟨_, calls, hcalls, x, hx, rfl⟩

theorem status_connectAndRun {r : MainResult}
    (h : Yields (fun fuel => connectAndRun program config env run fuel s) r) :
    r.status = 0 ↔ ∃ turns, Yields (run config s.running) (.success, turns) := by
  obtain ⟨calls, _, hr⟩ := (yields_connectAndRun_iff hfuel).mp h
  obtain ⟨x, hx, rfl⟩ := (yields_runAndClose_iff hfuel).mp hr
  constructor
  · intro hzero
    have hcode : x.1 = .success := by
      by_contra hne
      simp [exitStatus, hne] at hzero
    exact ⟨x.2, by rw [← hcode]; exact hx⟩
  · rintro ⟨turns, hy⟩
    rw [(hfuel s.running).unique hx hy]
    rfl

theorem fuelled_afterPolls (p : Polling) : Fuelled (afterPolls program config env run p) := by
  intro fuel more x hle h
  unfold afterPolls at h ⊢
  split at h
  · rename_i hover
    rw [if_pos hover]
    exact h
  · rename_i hover
    rw [if_neg hover]
    exact fuelled_connectAndRun hfuel fuel more x hle h

theorem yields_pollForEndpoint_iff {r : MainResult} :
    Yields (fun fuel => pollForEndpoint program config env run fuel s) r ↔
      ∃ k p, (Run (LoopStep pollingGuard pollingTurn) ⟨s, 0, false⟩ (streamPrefix env.polls k) p ∧
          pollingGuard p = false) ∧
        Yields (afterPolls program config env run p) r := by
  simp only [pollForEndpoint_eq]
  rw [yields_bind_iff fuelled_whileLoop (fun x => fuelled_afterPolls hfuel x.2)]
  simp only [Prod.exists, yields_whileLoop_iff]

section Flag

variable (hflag : s.running = !env.signalled) (hendpoint : s.endpoint = false)

include hflag hendpoint

theorem exists_pollForEndpoint_iff :
    (∃ r, Yields (fun fuel => pollForEndpoint program config env run fuel s) r) ↔
      (∃ k, ¬Undecided env k) ∧ ∀ k, EndpointAt env k →
        (config.transportType ≠ .ipc → ∃ n, Answers env n) ∧
          ∃ x, Yields (run config (flagAfter env (k + 1))) x := by
  simp only [yields_pollForEndpoint_iff hfuel, yields_afterPolls_iff]
  constructor
  · rintro ⟨r, k, p, ⟨hrun, hhalt⟩, hafter⟩
    obtain ⟨j, hundecided, hdecided, hrunning, hover⟩ := halted_polls hflag hendpoint hrun hhalt
    refine ⟨⟨j + 1, hdecided⟩, fun i hi => ?_⟩
    obtain rfl := first_decided hundecided hdecided hi.1 hi.decided
    rcases hafter with ⟨hleft, _⟩ | ⟨_, hyields⟩
    · exact absurd hi (hover.mp hleft)
    · rw [← hrunning]
      exact (exists_connectAndRun_iff hfuel).mp ⟨r, hyields⟩
  · rintro ⟨hdecided, hnext⟩
    obtain ⟨⟨k, p⟩, hloop⟩ := (exists_polls_iff hflag hendpoint).mpr hdecided
    obtain ⟨hrun, hhalt⟩ := yields_whileLoop_iff.mp hloop
    obtain ⟨j, _, _, hrunning, hover⟩ := halted_polls hflag hendpoint hrun hhalt
    by_cases hat : EndpointAt env j
    · have hboth := hnext j hat
      rw [← hrunning] at hboth
      obtain ⟨r, hr⟩ := (exists_connectAndRun_iff hfuel).mpr hboth
      exact ⟨r, k, p, ⟨hrun, hhalt⟩, Or.inr ⟨fun h => hover.mp h hat, hr⟩⟩
    · exact ⟨_, k, p, ⟨hrun, hhalt⟩, Or.inl ⟨hover.mpr hat, rfl⟩⟩

theorem status_pollForEndpoint {r : MainResult}
    (h : Yields (fun fuel => pollForEndpoint program config env run fuel s) r) :
    r.status = 0 ↔ ∃ k, EndpointAt env k ∧
      ∃ turns, Yields (run config (flagAfter env (k + 1))) (.success, turns) := by
  obtain ⟨k, p, ⟨hrun, hhalt⟩, hafter⟩ := (yields_pollForEndpoint_iff hfuel).mp h
  obtain ⟨j, hundecided, hdecided, hrunning, hover⟩ := halted_polls hflag hendpoint hrun hhalt
  rcases (yields_afterPolls_iff).mp hafter with ⟨hleft, rfl⟩ | ⟨hright, hyields⟩
  · constructor
    · intro hzero
      cases hzero
    · rintro ⟨i, hi, _⟩
      obtain rfl := first_decided hundecided hdecided hi.1 hi.decided
      exact absurd hi (hover.mp hleft)
  · have hat : EndpointAt env j := not_not.mp (mt hover.mpr hright)
    rw [status_connectAndRun hfuel hyields, hrunning]
    constructor
    · intro hturns
      exact ⟨j, hat, hturns⟩
    · rintro ⟨i, hi, hturns⟩
      obtain rfl := first_decided hundecided hdecided hi.1 hi.decided
      exact hturns

end Flag

end Fuelled

/-- The session with which the polling begins. -/
def polledSession (config : Config) (env : MainEnv) : Session where
  running := !env.signalled
  context := 0 ≤ env.contextInit
  aeron := 0 ≤ env.init
  endpoint := false
  calls := [.contextInit env.contextInit, .contextSetDir config.aeronDir env.contextSetDir,
    .init env.init, .start env.start,
    .asyncAdd (getEffectiveChannel config env.channelBuffer 512) config.streamId env.asyncAdd]

theorem setUpContext_of_setUp (h : SetUp env) (fuel : ℕ) :
    setUpContext program config env run fuel =
      pollForEndpoint program config env run fuel (polledSession config env) := by
  obtain ⟨hinit, hdir, hclient, hstart, hadd⟩ := h
  simp only [setUpContext, if_neg (Int.not_lt.mpr hinit), if_neg (Int.not_lt.mpr hdir), startClient,
    if_neg (Int.not_lt.mpr hclient), if_neg (Int.not_lt.mpr hstart), if_neg (Int.not_lt.mpr hadd)]
  rfl

variable (program config run) in
theorem setUpContext_of_failed (h : ¬SetUp env) :
    ∃ calls, ∀ fuel, setUpContext program config env run fuel = some ⟨1, calls⟩ := by
  have hset : ∀ fuel more, setUpContext program config env run fuel =
      setUpContext program config env run more ∧
      ∃ calls, setUpContext program config env run fuel = some ⟨1, calls⟩ := by
    intro fuel more
    by_cases hinit : env.contextInit < 0
    · simp [setUpContext, hinit]
    by_cases hdir : env.contextSetDir < 0
    · simp [setUpContext, hinit, hdir]
    by_cases hclient : env.init < 0
    · simp [setUpContext, hinit, hdir, startClient, hclient]
    by_cases hstart : env.start < 0
    · simp [setUpContext, hinit, hdir, startClient, hclient, hstart]
    by_cases hadd : env.asyncAdd < 0
    · simp [setUpContext, hinit, hdir, startClient, hclient, hstart, hadd]
    · exact absurd ⟨by omega, by omega, by omega, by omega, by omega⟩ h
  obtain ⟨_, calls, hcalls⟩ := hset 0 0
  exact ⟨calls, fun fuel => (hset fuel 0).1.trans hcalls⟩

end Stages

section Main

variable {program : Program} {env : MainEnv} (run : Config → Bool → ℕ → Option (ErrorCode × ℕ))
variable {ordering : OperandOrder} {memory : ConfigMemory} {aeronDir : Option (List Char)}
variable {argv : List (List Char)} (hfuel : ∀ config flag, Fuelled (run config flag))

include hfuel

omit hfuel in
theorem mainWith_of_error {code : Int}
    (hparse : parseArgv program ordering memory.1 aeronDir argv = .error code) (fuel : ℕ) :
    mainWith program env run ordering memory aeronDir argv fuel =
      some ⟨if code = 1 then 0 else 1, []⟩ := by
  simp only [mainWith, hparse]
  split <;> rfl

omit hfuel in
theorem mainWith_of_ok {config : Config}
    (hparse : parseArgv program ordering memory.1 aeronDir argv = .ok config) :
    mainWith program env run ordering memory aeronDir argv =
      setUpContext program config env run := by
  funext fuel
  simp only [mainWith, hparse]

/-- `main` returns exactly if each loop that it reaches does. -/
theorem exists_mainWith_iff :
    (∃ r, Yields (mainWith program env run ordering memory aeronDir argv) r) ↔
      ∀ config, parseArgv program ordering memory.1 aeronDir argv = .ok config → SetUp env →
        (∃ k, ¬Undecided env k) ∧ ∀ k, EndpointAt env k →
          (config.transportType ≠ .ipc → ∃ n, Answers env n) ∧
            ∃ x, Yields (run config (flagAfter env (k + 1))) x := by
  cases hparse : parseArgv program ordering memory.1 aeronDir argv with
  | error code =>
    constructor
    · intro _ config h
      cases h
    · intro _
      exact ⟨_, 0, mainWith_of_error run hparse 0⟩
  | ok config =>
    rw [mainWith_of_ok run hparse]
    by_cases hsetUp : SetUp env
    · have hstage : setUpContext program config env run =
          fun fuel => pollForEndpoint program config env run fuel (polledSession config env) :=
        funext (setUpContext_of_setUp hsetUp)
      rw [hstage, exists_pollForEndpoint_iff (hfuel config) rfl rfl]
      constructor
      · rintro h _ ⟨⟩ _
        exact h
      · intro h
        exact h config rfl hsetUp
    · obtain ⟨calls, hcalls⟩ := setUpContext_of_failed program config run hsetUp
      exact ⟨fun _ _ _ h => absurd h hsetUp, fun _ => ⟨_, 0, hcalls 0⟩⟩

theorem status_mainWith {r : MainResult}
    (h : Yields (mainWith program env run ordering memory aeronDir argv) r) :
    r.status = 0 ↔ parseArgv program ordering memory.1 aeronDir argv = .error 1 ∨
      ∃ config, parseArgv program ordering memory.1 aeronDir argv = .ok config ∧ SetUp env ∧
        ∃ k, EndpointAt env k ∧
          ∃ turns, Yields (run config (flagAfter env (k + 1))) (.success, turns) := by
  cases hparse : parseArgv program ordering memory.1 aeronDir argv with
  | error code =>
    obtain ⟨fuel, h⟩ := h
    rw [mainWith_of_error run hparse] at h
    cases h
    by_cases hone : code = 1
    · simp [hone]
    · simp [hone]
  | ok config =>
    rw [mainWith_of_ok run hparse] at h
    have hiff : r.status = 0 ↔ SetUp env ∧ ∃ k, EndpointAt env k ∧
        ∃ turns, Yields (run config (flagAfter env (k + 1))) (.success, turns) := by
      by_cases hsetUp : SetUp env
      · have hstage : setUpContext program config env run =
            fun fuel => pollForEndpoint program config env run fuel (polledSession config env) :=
          funext (setUpContext_of_setUp hsetUp)
        rw [hstage] at h
        rw [status_pollForEndpoint (hfuel config) rfl rfl h]
        exact ⟨fun hk => ⟨hsetUp, hk⟩, fun hk => hk.2⟩
      · obtain ⟨calls, hcalls⟩ := setUpContext_of_failed program config run hsetUp
        obtain ⟨fuel, h⟩ := h
        rw [hcalls fuel] at h
        cases h
        simp [hsetUp]
    rw [hiff]
    simp

end Main

section Transfers

variable (host : ByteOrder) (config : Config) (flag : Bool)

/-- The transfer as `publisherMain` calls it. -/
def publisherRun (publisherEnv : PublisherEnv) (config : Config) (flag : Bool) (fuel : ℕ) :
    Option (ErrorCode × ℕ) :=
  (runPublisher host config { publisherEnv with stopped := !flag || publisherEnv.stopped } fuel).map
    (fun r => (r.code, r.turns))

def subscriberRun (subscriberEnv : SubscriberEnv) (config : Config) (flag : Bool) (fuel : ℕ) :
    Option (ErrorCode × ℕ) :=
  (runSubscriber host config { subscriberEnv with stopped := !flag || subscriberEnv.stopped }
    fuel).map (fun r => (r.code, r.turns))

theorem publisherRun_eq (publisherEnv : PublisherEnv) (fuel : ℕ) :
    publisherRun host publisherEnv config flag fuel =
      match publisherEnv.allocation with
      | none => some (.memoryAllocation, 0)
      | some garbage =>
          (whileLoop (sendGuard config) (sendIteration host config) publisherEnv.iterations fuel 0
            (startPublisher config garbage publisherEnv.startTime
              (!flag || publisherEnv.stopped))).bind (fun x => some (.success, x.1)) := by
  unfold publisherRun runPublisher
  cases publisherEnv.allocation with
  | none => rfl
  | some garbage =>
    simp only
    cases whileLoop (sendGuard config) (sendIteration host config) publisherEnv.iterations fuel 0
      (startPublisher config garbage publisherEnv.startTime (!flag || publisherEnv.stopped)) <;> rfl

theorem subscriberRun_eq (subscriberEnv : SubscriberEnv) (fuel : ℕ) :
    subscriberRun host subscriberEnv config flag fuel =
      if subscriberEnv.allocated = true then
        (whileLoop pollGuard (pollIteration host) subscriberEnv.polls fuel 0
          (startSubscriber config.targetMessageCount subscriberEnv.startTime
            (!flag || subscriberEnv.stopped))).bind (fun x => some (.success, x.1))
      else some (.memoryAllocation, 0) := by
  unfold subscriberRun runSubscriber
  cases hallocated : subscriberEnv.allocated with
  | false => simp [initSubscriberStats]
  | true =>
    simp only [initSubscriberStats, ne_eq, not_true_eq_false, if_false, if_true]
    cases whileLoop pollGuard (pollIteration host) subscriberEnv.polls fuel 0
      (startSubscriber config.targetMessageCount subscriberEnv.startTime
        (!flag || subscriberEnv.stopped)) <;> rfl

theorem fuelled_publisherRun (publisherEnv : PublisherEnv) :
    Fuelled (publisherRun host publisherEnv config flag) := by
  have heq := funext (publisherRun_eq host config flag publisherEnv)
  rw [heq]
  cases publisherEnv.allocation with
  | none => exact fuelled_const _
  | some garbage => exact fuelled_whileLoop.bind (fun _ => fuelled_const _)

theorem fuelled_subscriberRun (subscriberEnv : SubscriberEnv) :
    Fuelled (subscriberRun host subscriberEnv config flag) := by
  have heq := funext (subscriberRun_eq host config flag subscriberEnv)
  rw [heq]
  cases subscriberEnv.allocated with
  | false => exact fuelled_const _
  | true => exact fuelled_whileLoop.bind (fun _ => fuelled_const _)

variable {config}

/-- The send loop of an accepted configuration always ends. -/
theorem exists_publisherRun (publisherEnv : PublisherEnv)
    (hvalid : validateConfig config = .success) :
    ∃ x, Yields (publisherRun host publisherEnv config flag) x ∧
      (x.1 = .success ↔ publisherEnv.allocation.isSome = true) := by
  have heq := funext (publisherRun_eq host config flag publisherEnv)
  rw [heq]
  cases publisherEnv.allocation with
  | none => exact ⟨_, ⟨0, rfl⟩, by simp⟩
  | some garbage =>
    obtain ⟨k, p, _, hrun, hhalt⟩ := exists_send_halt host config garbage publisherEnv.startTime
      (!flag || publisherEnv.stopped) hvalid publisherEnv.iterations
    obtain ⟨fuel, hloop⟩ := yields_whileLoop_iff.mpr ⟨hrun, hhalt⟩
    exact ⟨(.success, k), ⟨fuel, Option.bind_eq_some_iff.mpr ⟨(k, p), hloop, rfl⟩⟩, by simp⟩

/-- A halted receive loop has met its target, seen a signal or a failed poll. -/
theorem stopsAt_of_halted {target : UInt64} {startTime : TimestampNs} {stopped : Bool}
    {env : ℕ → Poll} {k : ℕ} {s : Subscriber} (htarget : 0 < target.toNat)
    (hrun : Run (PollStep host) (startSubscriber target startTime stopped) (streamPrefix env k) s)
    (hhalt : pollGuard s = false) : StopsAt target stopped env k := by
  have hinv := poll_invariant host target startTime stopped htarget hrun
  cases hstopped : stopped with
  | true => exact Or.inl rfl
  | false =>
    rw [hstopped] at hinv
    by_cases htotal : messageTotal (streamPrefix env k) < target.toNat
    · cases hsignal : (streamPrefix env k).any signalled with
      | true => exact Or.inr (Or.inr (Or.inl hsignal))
      | false =>
        exact Or.inr (Or.inr (Or.inr (failed_of_halted host target hinv hhalt hsignal htotal)))
    · exact Or.inr (Or.inl (Nat.le_of_not_lt htotal))

theorem exists_subscriberRun_iff (subscriberEnv : SubscriberEnv)
    (hvalid : validateConfig config = .success) :
    (∃ x, Yields (subscriberRun host subscriberEnv config flag) x) ↔
      (subscriberEnv.allocated = true → ∃ k, StopsAt config.targetMessageCount
        (!flag || subscriberEnv.stopped) subscriberEnv.polls k) := by
  have htarget := (validateConfig_success config hvalid).2.2
  have heq := funext (subscriberRun_eq host config flag subscriberEnv)
  rw [heq]
  cases subscriberEnv.allocated with
  | false => exact ⟨by simp, fun _ => ⟨_, 0, rfl⟩⟩
  | true =>
    simp only [if_true, forall_const]
    constructor
    · rintro ⟨_, fuel, h⟩
      obtain ⟨⟨k, s⟩, hloop, _⟩ := Option.bind_eq_some_iff.mp h
      obtain ⟨hrun, hhalt⟩ := yields_whileLoop_iff.mp ⟨fuel, hloop⟩
      exact ⟨k, stopsAt_of_halted host htarget hrun hhalt⟩
    · rintro ⟨k, hstop⟩
      obtain ⟨j, s, _, hrun, hhalt⟩ := exists_halt_of_stopsAt host _ subscriberEnv.startTime _
        htarget subscriberEnv.polls k hstop
      obtain ⟨fuel, hloop⟩ := yields_whileLoop_iff.mpr ⟨hrun, hhalt⟩
      exact ⟨(.success, j), fuel, Option.bind_eq_some_iff.mpr ⟨(j, s), hloop, rfl⟩⟩

theorem subscriberRun_success {subscriberEnv : SubscriberEnv} {x : ErrorCode × ℕ}
    (h : Yields (subscriberRun host subscriberEnv config flag) x) :
    x.1 = .success ↔ subscriberEnv.allocated = true := by
  obtain ⟨fuel, h⟩ := h
  rw [subscriberRun_eq] at h
  cases hallocated : subscriberEnv.allocated with
  | false =>
    rw [hallocated] at h
    cases h
    simp
  | true =>
    rw [hallocated] at h
    obtain ⟨_, _, hx⟩ := Option.bind_eq_some_iff.mp h
    cases hx
    simp

end Transfers

section Programs

variable (host : ByteOrder) (ordering : OperandOrder) (memory : ConfigMemory)
variable (aeronDir : Option (List Char)) (argv : List (List Char)) (env : MainEnv)

/-- The publisher's `main` returns unless the addition of the publication stays pending with no
signal, or the peer stays away and the clock does not pass the timeout. The subscriber's also
waits for its target, a signal or a failed poll. -/
theorem main_returns_iff (publisherEnv : PublisherEnv) (subscriberEnv : SubscriberEnv) :
    ((∃ r, Yields (publisherMain host ordering memory aeronDir argv env publisherEnv) r) ↔
      ∀ config, parseArgv .publisher ordering memory.1 aeronDir argv = .ok config → SetUp env →
        (∃ k, ¬Undecided env k) ∧ ∀ k, EndpointAt env k →
          config.transportType ≠ .ipc → ∃ n, Answers env n) ∧
      ((∃ r, Yields (subscriberMain host ordering memory aeronDir argv env subscriberEnv) r) ↔
        ∀ config, parseArgv .subscriber ordering memory.1 aeronDir argv = .ok config → SetUp env →
          (∃ k, ¬Undecided env k) ∧ ∀ k, EndpointAt env k →
            (config.transportType ≠ .ipc → ∃ n, Answers env n) ∧
              (subscriberEnv.allocated = true → ∃ j, StopsAt config.targetMessageCount
                (!flagAfter env (k + 1) || subscriberEnv.stopped) subscriberEnv.polls j)) := by
  constructor
  · refine (exists_mainWith_iff (publisherRun host publisherEnv)
      (fun config flag => fuelled_publisherRun host config flag publisherEnv)).trans ?_
    refine forall_congr' fun config => forall_congr' fun hparse => ?_
    have hvalid := accepted_valid hparse
    constructor
    · intro h hsetUp
      exact ⟨(h hsetUp).1, fun k hk => ((h hsetUp).2 k hk).1⟩
    · intro h hsetUp
      refine ⟨(h hsetUp).1, fun k hk => ⟨(h hsetUp).2 k hk, ?_⟩⟩
      obtain ⟨x, hx, _⟩ := exists_publisherRun host (flagAfter env (k + 1)) publisherEnv hvalid
      exact ⟨x, hx⟩
  · refine (exists_mainWith_iff (subscriberRun host subscriberEnv)
      (fun config flag => fuelled_subscriberRun host config flag subscriberEnv)).trans ?_
    refine forall_congr' fun config => forall_congr' fun hparse => ?_
    simp only [exists_subscriberRun_iff host _ subscriberEnv (accepted_valid hparse)]

/-- The exit status of a `main` that returns is 0 for the help text, and for a session in which
every set-up call succeeded, the addition completed before a signal was seen and the transfer
had its memory; what the transfer achieved plays no part. -/
theorem main_status_iff (publisherEnv : PublisherEnv) (subscriberEnv : SubscriberEnv)
    (r : MainResult) :
    (Yields (publisherMain host ordering memory aeronDir argv env publisherEnv) r →
      (r.status = 0 ↔ parseArgv .publisher ordering memory.1 aeronDir argv = .error 1 ∨
        (∃ config, parseArgv .publisher ordering memory.1 aeronDir argv = .ok config) ∧
          SetUp env ∧ (∃ k, EndpointAt env k) ∧ publisherEnv.allocation.isSome = true)) ∧
      (Yields (subscriberMain host ordering memory aeronDir argv env subscriberEnv) r →
        (r.status = 0 ↔ parseArgv .subscriber ordering memory.1 aeronDir argv = .error 1 ∨
          (∃ config, parseArgv .subscriber ordering memory.1 aeronDir argv = .ok config) ∧
            SetUp env ∧ (∃ k, EndpointAt env k) ∧ subscriberEnv.allocated = true)) := by
  constructor
  · intro h
    have hfuel := fun config flag => fuelled_publisherRun host config flag publisherEnv
    rw [status_mainWith (publisherRun host publisherEnv) hfuel h]
    refine or_congr_right ?_
    constructor
    · rintro ⟨config, hparse, hsetUp, k, hk, turns, hturns⟩
      obtain ⟨x, hx, hcode⟩ := exists_publisherRun host (flagAfter env (k + 1)) publisherEnv
        (accepted_valid hparse)
      obtain rfl := (hfuel config _).unique hx hturns
      exact ⟨⟨config, hparse⟩, hsetUp, ⟨k, hk⟩, hcode.mp rfl⟩
    · rintro ⟨⟨config, hparse⟩, hsetUp, ⟨k, hk⟩, hallocated⟩
      obtain ⟨x, hx, hcode⟩ := exists_publisherRun host (flagAfter env (k + 1)) publisherEnv
        (accepted_valid hparse)
      refine ⟨config, hparse, hsetUp, k, hk, x.2, ?_⟩
      rw [← hcode.mpr hallocated]
      exact hx
  · intro h
    have hfuel := fun config flag => fuelled_subscriberRun host config flag subscriberEnv
    rw [status_mainWith (subscriberRun host subscriberEnv) hfuel h]
    refine or_congr_right ?_
    constructor
    · rintro ⟨config, hparse, hsetUp, k, hk, turns, hturns⟩
      exact ⟨⟨config, hparse⟩, hsetUp, ⟨k, hk⟩, (subscriberRun_success host _ hturns).mp rfl⟩
    · rintro ⟨⟨config, hparse⟩, hsetUp, ⟨k, hk⟩, hallocated⟩
      obtain ⟨x, hx⟩ := (((exists_mainWith_iff (subscriberRun host subscriberEnv) hfuel).mp
        ⟨r, h⟩ config hparse hsetUp).2 k hk).2
      refine ⟨config, hparse, hsetUp, k, hk, x.2, ?_⟩
      rw [← (subscriberRun_success host _ hx).mpr hallocated]
      exact hx

end Programs

/-- A publisher that sends its two messages, and a subscriber interrupted after its first poll. -/
theorem smooth_main_status :
    (∃ r, Yields (publisherMain .little .permute blankMemory none
          ["publisher".toList, "-s".toList, "16".toList, "-c".toList, "2".toList]
          (HandleRelease.smoothEnv false)
          ⟨some (fun _ => 0), 0, false, fun _ => ⟨0, 1, false⟩, 0⟩) r ∧
        r.status = 0 ∧ SetUp (HandleRelease.smoothEnv false) ∧
        ∃ k, EndpointAt (HandleRelease.smoothEnv false) k) ∧
      ∃ r, Yields (subscriberMain .little .permute blankMemory none
          ["subscriber".toList, "-c".toList, "2".toList] (HandleRelease.smoothEnv true)
          ⟨true, 0, false, fun _ => ⟨[], 0, false⟩, 0⟩) r ∧
        r.status = 1 ∧ ¬∃ k, EndpointAt (HandleRelease.smoothEnv true) k := by
  constructor
  · refine ⟨_, ⟨3, rfl⟩, rfl, ?_⟩
    have hiff := (main_status_iff .little .permute blankMemory none
      ["publisher".toList, "-s".toList, "16".toList, "-c".toList, "2".toList]
      (HandleRelease.smoothEnv false) ⟨some (fun _ => 0), 0, false, fun _ => ⟨0, 1, false⟩, 0⟩
      ⟨true, 0, false, fun _ => ⟨[], 0, false⟩, 0⟩ _).1 ⟨3, rfl⟩
    rcases hiff.mp rfl with hhelp | ⟨_, hsetUp, hat, _⟩
    · cases hhelp
    · exact ⟨hsetUp, hat⟩
  · refine ⟨_, ⟨3, rfl⟩, rfl, ?_⟩
    rintro hat
    have hiff := (main_status_iff .little .permute blankMemory none
      ["subscriber".toList, "-c".toList, "2".toList]
      (HandleRelease.smoothEnv true) ⟨some (fun _ => 0), 0, false, fun _ => ⟨0, 1, false⟩, 0⟩
      ⟨true, 0, false, fun _ => ⟨[], 0, false⟩, 0⟩ _).2 ⟨3, rfl⟩
    have hzero := hiff.mpr (Or.inr ⟨⟨_, rfl⟩, ⟨by decide, by decide, by decide, by decide,
      by decide⟩, hat, rfl⟩)
    cases hzero

end AeronFast.MainExits
