import AeronFast.MainFunctions

/-!
The Aeron handles that `main` owns. Behind the parser each of the two functions
has eight exits with a clean-up of its own, one of them inside the polling
loop; each closes what the trace of calls holds at that point, and nothing
else.
-/
namespace AeronFast.HandleRelease

open CommonTypes ByteBuffers ConfigParser ParsedOptions Getopt
open LabelledRuns BinaryPublisher BinarySubscriber ResourceTraces MainFunctions

/-- The polling loop was entered and none of its polls completed or failed, so that only the
stop signal can have ended it. -/
def LeftBySignal (calls : List AeronCall) : Prop :=
  (∃ poll, .asyncAddPoll poll ∈ calls) ∧
    ∀ poll, .asyncAddPoll poll ∈ calls → poll = .notComplete

/-- What every exit of `main` owes. -/
structure CleansUp (r : MainResult) : Prop where
  released : Released AeronCall.footprint r.calls
  failed : (∃ c ∈ r.calls, c.failed = true) → r.status = 1
  interrupted : LeftBySignal r.calls → r.status = 1

/-- An error exit owes nothing but the closes. -/
theorem cleansUp_of_holds {calls closes : List AeronCall} {held : List Handle}
    (h : Holds AeronCall.footprint calls held)
    (hcloses : closes.map AeronCall.footprint = held.map (fun a => ⟨none, [a], some a⟩)) :
    CleansUp ⟨1, calls ++ closes⟩ :=
  ⟨(h.close_all hcloses).released, fun _ => rfl, fun _ => rfl⟩

/-- The state of `main` before the first close: what it holds, and no failure so far. -/
structure Acquired (calls : List AeronCall) (held : List Handle) : Prop where
  holds : Holds AeronCall.footprint calls held
  none_closed : closed AeronCall.footprint calls = []
  none_failed : ∀ c ∈ calls, c.failed = false

namespace Acquired

variable {calls more : List AeronCall} {held : List Handle} {c : AeronCall} {a : Handle}

theorem nil : Acquired [] [] := ⟨Holds.nil, rfl, by simp⟩

theorem snoc (h : Acquired calls held) {held' : List Handle}
    (hholds : Holds AeronCall.footprint (calls ++ [c]) held')
    (hcloses : c.footprint.closes = none) (hfailed : c.failed = false) :
    Acquired (calls ++ [c]) held' where
  holds := hholds
  none_closed := by simp [closed_snoc, h.none_closed, hcloses]
  none_failed := by
    intro d hd
    rcases List.mem_append.mp hd with hd | hd
    · exact h.none_failed d hd
    · rw [List.mem_singleton.mp hd, hfailed]

theorem use (h : Acquired calls held) (hobtains : c.footprint.obtains = none)
    (hcloses : c.footprint.closes = none) (huses : ∀ b ∈ c.footprint.uses, b ∈ held)
    (hfailed : c.failed = false) : Acquired (calls ++ [c]) held :=
  h.snoc (h.holds.use hobtains hcloses huses) hcloses hfailed

theorem obtain_handle (h : Acquired calls held) (hobtains : c.footprint.obtains = some a)
    (hcloses : c.footprint.closes = none) (huses : ∀ b ∈ c.footprint.uses, b ∈ held)
    (hnew : a ∉ held) (hfailed : c.failed = false) : Acquired (calls ++ [c]) (a :: held) :=
  h.snoc (h.holds.obtain_handle h.none_closed hobtains hcloses huses hnew) hcloses hfailed

/-- The calls on the endpoint between the set-up and the clean-up. -/
theorem use_endpoint (h : Acquired calls held) (hheld : .endpoint ∈ held)
    (hmore : ∀ d ∈ more, d.footprint = ⟨none, [.endpoint], none⟩ ∧ d.failed = false) :
    Acquired (calls ++ more) held := by
  induction more using List.reverseRecOn with
  | nil => simpa using h
  | append_singleton more d ih =>
    obtain ⟨hfootprint, hfailed⟩ := hmore d (by simp)
    rw [← List.append_assoc]
    apply (ih (fun e he => hmore e (by simp [he]))).use
    · rw [hfootprint]
    · rw [hfootprint]
    · simpa [hfootprint] using hheld
    · exact hfailed

end Acquired

/-- Waiting for a connection only asks the endpoint whether it is connected. -/
theorem waitForConnection_calls {start timeoutSeconds : Int} {turns : ℕ → ConnectionTurn}
    {fuel : ℕ} {calls : List AeronCall} {w : Waiting}
    (h : waitForConnection start timeoutSeconds turns fuel calls = some w) :
    ∃ answers : List Bool, w.calls = calls ++ answers.map .isConnected := by
  obtain ⟨⟨k, w'⟩, hloop, rfl⟩ := Option.map_eq_some_iff.mp h
  obtain ⟨_, _, hrun, _⟩ := (whileLoop_eq_some_iff _ _ turns fuel 0 _ (Run.nil _)).mp hloop
  refine hrun.invariant (P := fun _ v => ∃ answers : List Bool,
    v.calls = calls ++ answers.map .isConnected) ⟨[], by simp⟩ ?_
  rintro labels v turn u _ ⟨answers, hv⟩ ⟨_, rfl⟩
  exact ⟨answers ++ [turn.connected], by simp [waitTurn, hv]⟩

/-- What the polling loop has obtained, by the answer of its last poll. -/
inductive Polled (p : Polling) : Prop
  | pending (hresult : p.result = 0) (hendpoint : p.session.endpoint = false)
      (hacquired : Acquired p.session.calls [.client, .context])
  | completed (hresult : p.result ≠ 0) (hinterrupted : p.interrupted = false)
      (hendpoint : p.session.endpoint = true)
      (hacquired : Acquired p.session.calls [.endpoint, .client, .context])
      (hmem : .asyncAddPoll .completed ∈ p.session.calls)
  | failed (hresult : p.result ≠ 0) (hinterrupted : p.interrupted = false)
      (hendpoint : p.session.endpoint = false)
      (hholds : Holds AeronCall.footprint p.session.calls [.client, .context])

theorem polled_step {p : Polling} (turn : AsyncTurn) (h : Polled p)
    (hguard : pollingGuard p = true) : Polled (pollingTurn turn p) := by
  have hzero : p.result = 0 := by
    simp only [pollingGuard, Bool.and_eq_true, decide_eq_true_eq] at hguard
    exact hguard.1
  cases h with
  | completed hresult => exact absurd hzero hresult
  | failed hresult => exact absurd hzero hresult
  | pending _ hendpoint hacquired =>
    obtain ⟨poll, signal⟩ := turn
    cases poll with
    | notComplete =>
      refine .pending rfl ?_ (hacquired.use rfl rfl (by simp [AeronCall.footprint]) rfl)
      simp [pollingTurn, hendpoint, AsyncPoll.handle]
    | completed =>
      refine .completed Int.one_ne_zero rfl ?_
        (hacquired.obtain_handle rfl rfl (by simp [AeronCall.footprint]) (by decide) rfl) ?_
      · simp [pollingTurn, AsyncPoll.handle]
      · simp [pollingTurn]
    | failed code =>
      have hnegative : (AsyncPoll.failed code).result ≠ 0 := by
        simp [AsyncPoll.result]
      refine .failed hnegative ?_ ?_ (hacquired.holds.use rfl rfl (by simp [AeronCall.footprint]))
      · simp [pollingTurn, hnegative]
      · simp [pollingTurn, hendpoint, AsyncPoll.handle]

section Exits

variable {program : Program} {config : Config} {env : MainEnv}
variable {run : Config → Bool → ℕ → Option (ErrorCode × ℕ)} {fuel : ℕ} {r : MainResult}

theorem footprint_transferCall (program : Program) :
    (transferCall program).footprint = ⟨none, [.endpoint], none⟩ ∧
      (transferCall program).failed = false := by
  cases program with
  | publisher => exact ⟨rfl, rfl⟩
  | subscriber => exact ⟨rfl, rfl⟩

/-- `main` with all three handles. -/
structure Served (s : Session) : Prop where
  context : s.context = true
  aeron : s.aeron = true
  endpoint : s.endpoint = true
  acquired : Acquired s.calls [.endpoint, .client, .context]
  completed : .asyncAddPoll .completed ∈ s.calls

theorem runAndClose_cleansUp {s : Session} (hs : Served s)
    (h : runAndClose program config run fuel s = some r) : CleansUp r := by
  unfold runAndClose at h
  split at h
  · cases h
  · rename_i code turns _
    cases h
    have hcloses : closeAll s = [.endpointClose, .close, .contextClose] := by
      simp [closeAll, hs.context, hs.aeron, hs.endpoint]
    have hacquired : Acquired (s.calls ++ List.replicate turns (transferCall program))
        [.endpoint, .client, .context] := by
      apply hs.acquired.use_endpoint (by decide)
      intro d hd
      rw [(List.mem_replicate.mp hd).2]
      exact footprint_transferCall program
    have hclosing : ∀ c ∈ [AeronCall.endpointClose, .close, .contextClose],
        c.failed = false := by decide
    rw [hcloses]
    refine ⟨(hacquired.holds.close_all rfl).released, ?_, ?_⟩
    · rintro ⟨c, hc, hfailed⟩
      rcases List.mem_append.mp hc with hc | hc
      · rw [hacquired.none_failed c hc] at hfailed
        cases hfailed
      · rw [hclosing c hc] at hfailed
        cases hfailed
    · intro hsignal
      have hcompleted := hsignal.2 .completed (by simp [hs.completed])
      cases hcompleted

theorem connectAndRun_cleansUp {s : Session} (hs : Served s)
    (h : connectAndRun program config env run fuel s = some r) : CleansUp r := by
  unfold connectAndRun at h
  split at h
  · split at h
    · cases h
    · rename_i w hw
      obtain ⟨answers, hcalls⟩ := waitForConnection_calls hw
      apply runAndClose_cleansUp ?_ h
      refine ⟨hs.context, hs.aeron, hs.endpoint, ?_, ?_⟩
      · rw [hcalls]
        apply hs.acquired.use_endpoint (by decide)
        intro d hd
        obtain ⟨answer, _, rfl⟩ := List.mem_map.mp hd
        exact ⟨rfl, rfl⟩
      · rw [hcalls]
        exact List.mem_append_left _ hs.completed
  · exact runAndClose_cleansUp hs h

theorem pollForEndpoint_cleansUp {s : Session} (hcontext : s.context = true)
    (haeron : s.aeron = true) (hendpoint : s.endpoint = false)
    (hs : Acquired s.calls [.client, .context])
    (h : pollForEndpoint program config env run fuel s = some r) : CleansUp r := by
  unfold pollForEndpoint at h
  split at h
  · cases h
  · rename_i k p hloop
    obtain ⟨_, _, hrun, hhalt⟩ :=
      (whileLoop_eq_some_iff _ _ env.polls fuel 0 _ (Run.nil _)).mp hloop
    obtain ⟨hpolled, hpc, hpa⟩ := hrun.invariant
      (P := fun _ p => Polled p ∧ p.session.context = true ∧ p.session.aeron = true)
      ⟨.pending rfl hendpoint hs, hcontext, haeron⟩
      (by
        rintro labels p turn u _ ⟨hp, hpointers⟩ ⟨hguard, rfl⟩
        exact ⟨polled_step turn hp hguard, hpointers⟩)
    cases hpolled with
    | pending hresult _ hacquired =>
      have hinterrupted : p.interrupted = true := by
        simpa [pollingGuard, hresult] using hhalt
      rw [if_pos hinterrupted] at h
      cases h
      exact cleansUp_of_holds hacquired.holds rfl
    | completed _ hinterrupted hset hacquired hmem =>
      simp only [hinterrupted, hset, Bool.not_true, Bool.false_eq_true, if_false] at h
      exact connectAndRun_cleansUp ⟨hpc, hpa, hset, hacquired, hmem⟩ h
    | failed _ hinterrupted hset hholds =>
      simp only [hinterrupted, hset, Bool.not_false, Bool.false_eq_true, if_false, if_true] at h
      cases h
      exact cleansUp_of_holds hholds rfl

theorem startClient_cleansUp {s : Session} (hcontext : s.context = true)
    (hendpoint : s.endpoint = false) (hs : Acquired s.calls [.context])
    (h : startClient program config env run fuel s = some r) : CleansUp r := by
  unfold startClient at h
  split at h
  · rename_i hinit
    cases h
    have hholds : Holds AeronCall.footprint (s.calls ++ [.init env.init]) [.context] :=
      hs.holds.use (by simp [AeronCall.footprint, hinit]) rfl (by simp [AeronCall.footprint])
    exact cleansUp_of_holds hholds rfl
  · rename_i hinit
    have hclient : Acquired (s.calls ++ [.init env.init]) [.client, .context] :=
      hs.obtain_handle (by simp [AeronCall.footprint, hinit]) rfl
        (by simp [AeronCall.footprint]) (by decide) (by simpa [AeronCall.failed] using hinit)
    split at h
    · cases h
      exact cleansUp_of_holds
        (hclient.holds.use rfl rfl (by simp [AeronCall.footprint])) rfl
    · rename_i hstart
      have hstarted := hclient.use (c := .start env.start) rfl rfl
        (by simp [AeronCall.footprint]) (by simpa [AeronCall.failed] using hstart)
      split at h
      · cases h
        exact cleansUp_of_holds
          (hstarted.holds.use rfl rfl (by simp [AeronCall.footprint])) rfl
      · rename_i hadd
        have haeron : (0 : Int) ≤ env.init := by omega
        refine pollForEndpoint_cleansUp ?_ ?_ ?_ ?_ h
        · exact hcontext
        · simpa [Session.call, Session.init] using haeron
        · exact hendpoint
        · exact hstarted.use rfl rfl (by simp [AeronCall.footprint])
            (by simpa [AeronCall.failed] using hadd)

theorem setUpContext_cleansUp (h : setUpContext program config env run fuel = some r) :
    CleansUp r := by
  unfold setUpContext at h
  split at h
  · rename_i hinit
    cases h
    have hholds : Holds AeronCall.footprint ([] ++ [.contextInit env.contextInit]) [] :=
      Holds.nil.use (by simp [AeronCall.footprint, hinit]) rfl (by simp [AeronCall.footprint])
    exact ⟨hholds.released, fun _ => rfl, fun _ => rfl⟩
  · rename_i hinit
    have hcontext : Acquired ([] ++ [.contextInit env.contextInit]) [.context] :=
      Acquired.nil.obtain_handle (by simp [AeronCall.footprint, hinit]) rfl
        (by simp [AeronCall.footprint]) (by decide) (by simpa [AeronCall.failed] using hinit)
    split at h
    · cases h
      exact cleansUp_of_holds
        (hcontext.holds.use rfl rfl (by simp [AeronCall.footprint])) rfl
    · rename_i hdir
      refine startClient_cleansUp ?_ rfl ?_ h
      · simpa [Session.call, Session.contextInit] using hinit
      · exact hcontext.use rfl rfl (by simp [AeronCall.footprint])
          (by simpa [AeronCall.failed] using hdir)

theorem mainWith_cleansUp {ordering : OperandOrder} {memory : ConfigMemory}
    {aeronDir : Option (List Char)} {argv : List (List Char)}
    (h : mainWith program env run ordering memory aeronDir argv fuel = some r) : CleansUp r := by
  unfold mainWith at h
  split at h
  · have hcalls : r.calls = [] := by
      split at h
      · cases h
        rfl
      · cases h
        rfl
    refine ⟨?_, ?_, ?_⟩
    · rw [hcalls]
      exact Holds.nil.released
    · simp [hcalls]
    · simp [LeftBySignal, hcalls]
  · exact setUpContext_cleansUp h

end Exits

/-- Whatever Aeron answers and whenever a stop signal arrives, a `main` that returns has closed
every handle it obtained once, the latest first, and has used none before it was obtained or
after it was closed; it returns 1 if a set-up call failed or the signal ended the polling. -/
theorem main_cleansUp (host : ByteOrder) (ordering : OperandOrder) (memory : ConfigMemory)
    (aeronDir : Option (List Char)) (argv : List (List Char)) (env : MainEnv)
    (publisherEnv : PublisherEnv) (subscriberEnv : SubscriberEnv) (fuel : ℕ) (r : MainResult)
    (h : publisherMain host ordering memory aeronDir argv env publisherEnv fuel = some r ∨
      subscriberMain host ordering memory aeronDir argv env subscriberEnv fuel = some r) :
    CleansUp r := by
  rcases h with h | h
  · exact mainWith_cleansUp h
  · exact mainWith_cleansUp h

/-- Aeron accepts everything, the addition needs a second poll and the peer is there. -/
def smoothEnv (signal : Bool) : MainEnv where
  contextInit := 0
  contextSetDir := 0
  init := 0
  start := 0
  asyncAdd := 0
  channelBuffer := List.replicate 512 nul
  signalled := false
  polls := fun i => if i = 0 then ⟨.notComplete, signal⟩ else ⟨.completed, false⟩
  waitStart := 0
  waits := fun _ => ⟨true, 0⟩

/-- A publisher that sends its two messages, and a subscriber interrupted after its first poll. -/
theorem smooth_main_cleansUp :
    (∃ r, publisherMain .little .permute blankMemory none
          ["publisher".toList, "-s".toList, "16".toList, "-c".toList, "2".toList]
          (smoothEnv false) ⟨some (fun _ => 0), 0, false, fun _ => ⟨0, 1, false⟩, 0⟩ 3 = some r ∧
        r.status = 0 ∧
        r.calls.drop 7 = [.isConnected true, .publicationOffer, .publicationOffer,
          .endpointClose, .close, .contextClose] ∧ CleansUp r) ∧
      ∃ r, subscriberMain .little .permute blankMemory none
          ["subscriber".toList, "-c".toList, "2".toList]
          (smoothEnv true) ⟨true, 0, false, fun _ => ⟨[], 0, false⟩, 0⟩ 3 = some r ∧
        r.status = 1 ∧
        r.calls.drop 5 = [.asyncAddPoll .notComplete, .close, .contextClose] ∧ CleansUp r := by
  constructor
  · refine ⟨_, rfl, rfl, rfl, ?_⟩
    exact main_cleansUp .little .permute blankMemory none
      ["publisher".toList, "-s".toList, "16".toList, "-c".toList, "2".toList] (smoothEnv false)
      ⟨some (fun _ => 0), 0, false, fun _ => ⟨0, 1, false⟩, 0⟩
      ⟨true, 0, false, fun _ => ⟨[], 0, false⟩, 0⟩ 3 _ (Or.inl rfl)
  · refine ⟨_, rfl, rfl, rfl, ?_⟩
    exact main_cleansUp .little .permute blankMemory none
      ["subscriber".toList, "-c".toList, "2".toList] (smoothEnv true)
      ⟨some (fun _ => 0), 0, false, fun _ => ⟨0, 1, false⟩, 0⟩
      ⟨true, 0, false, fun _ => ⟨[], 0, false⟩, 0⟩ 3 _ (Or.inr rfl)

end AeronFast.HandleRelease
