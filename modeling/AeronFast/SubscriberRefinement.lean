import AeronFast.JoinDelay
import AeronFast.SubscriberShutdown

/-!
The two threads of the subscriber compute what `run_subscriber` computes
without the statistics thread. The handler's section happens as a whole, though
the statistics thread may see its first statement alone; reports touch only
their own marks. So the final report is the one of the polls alone, with the
fragments and results as Aeron gave them.
-/
namespace AeronFast.SubscriberRefinement

open CommonTypes ByteBuffers BinaryMessage ConfigParser BinarySubscriber SubscriberLoop LabelledRuns
open IntervalLedgers IntervalTiling LockedSections ReporterProtocol ThreadedSubscriber
open SubscriberShutdown

section Refinement

open JoinDelay

variable (host : ByteOrder) (config : Config) (target : UInt64) (startTime : TimestampNs)

def fragmentLabel : PollLabel → Option Fragment
  | .free _ (.fragment f) => some f
  | _ => none

def resultLabel : PollLabel → Option Int
  | .free _ (.pollReturned result) => some result
  | _ => none

/-- The fragments Aeron delivered, oldest first. -/
def deliveredOf (labels : List PollLabel) : List Fragment := labels.filterMap fragmentLabel

/-- The results of the polls that returned. -/
def resultsOf (labels : List PollLabel) : List Int := labels.filterMap resultLabel

/-- The polls deliver no more than the limit they are given. -/
def Limited (polls : List Poll) : Prop :=
  ∀ poll ∈ polls, poll.fragments.length ≤ pollLimit config

/-- Whole polls lead to the given state with the given fragments and results. -/
def Led (fragments : List Fragment) (results : List Int) (p : Subscriber) : Prop :=
  ∃ stopped polls, Run (PollStep host) (startSubscriber target startTime stopped) polls p ∧
    Limited config polls ∧ polls.flatMap Poll.fragments = fragments ∧
    polls.map Poll.result = results

/-- The same but for the flag, which a signal may have cleared. -/
structure Shadows (p q : Subscriber) : Prop where
  same : { p with running := false } = { q with running := false }
  running : p.running = true → q.running = true

/-- Inside a poll: whole polls have led to `q`, whose loop test held, the fragments `inside` have
been delivered since, and at most `left` are still to come. -/
def Inside (inside : List Fragment) (left : ℕ) (labels : List PollLabel) (q : Subscriber) :
    Prop :=
  ∃ earlier, deliveredOf labels = earlier ++ inside ∧
    inside.length + left ≤ pollLimit config ∧
    Led host config target startTime earlier (resultsOf labels) q ∧ pollGuard q = true

/-- The main thread without the marks of the statistics thread follows whole polls; how, depends
on its place. -/
def Follows (labels : List PollLabel) (s : PollThreads) : Prop :=
  let p := clearReceiveMarks startTime s.subscriber
  match s.point with
  | .loopTest => ∀ running, (running = true → p.running = true) →
      Led host config target startTime (deliveredOf labels) (resultsOf labels)
        { p with running := running }
  | .polling => ∃ q inside,
      Inside host config target startTime inside s.fragmentsLeft labels q ∧
      Shadows p (deliver host inside (countPoll q))
  | .counting f => ∃ q inside,
      Inside host config target startTime (inside ++ [f]) s.fragmentsLeft labels q ∧
      ¬f.buffer.length < timestampSize ∧ Shadows p (deliver host inside (countPoll q))
  | .done => ∃ q now, .free .main (.loopEnds now) ∈ labels ∧
      Led host config target startTime (deliveredOf labels) (resultsOf labels) q ∧
      pollGuard q = false ∧
      s.final = some (printFinalStats (setEndTime now q).stats)
  | .targetTest now => ∃ q inside f,
      Inside host config target startTime (inside ++ [f]) s.fragmentsLeft labels q ∧
      ¬f.buffer.length < timestampSize ∧ f.clock = now ∧
      Shadows p (countFragment host f (deliver host inside (countPoll q)))
  | _ => ∃ q now, .free .main (.loopEnds now) ∈ labels ∧
      Led host config target startTime (deliveredOf labels) (resultsOf labels) q ∧
      pollGuard q = false ∧
      { p with running := false } = { setEndTime now q with running := false }

variable {host config target startTime} {labels : List PollLabel} {s s' : PollThreads}

theorem Shadows.signal {p q : Subscriber} (h : Shadows p q) :
    Shadows { p with running := false } q := by
  refine ⟨h.same, ?_⟩
  intro hrunning
  cases hrunning

/-- Both have counted and have yet to count the same. -/
theorem Shadows.figures {p q : Subscriber} (h : Shadows p q) :
    p.stats = q.stats ∧ p.targetMessages = q.targetMessages ∧ p.pollFailed = q.pollFailed ∧
      p.recorded = q.recorded := by
  have hsame := h.same
  simp only [Subscriber.mk.injEq, true_and] at hsame
  exact hsame

theorem Shadows.count {p q : Subscriber} (h : Shadows p q) (f : Fragment) :
    Shadows (countFragment host f p) (countFragment host f q) := by
  refine ⟨?_, h.running⟩
  obtain ⟨hstats, htarget, hfailed, hrecorded⟩ := h.figures
  simp only [countFragment, hstats, htarget, hfailed, hrecorded]

theorem Shadows.checkTarget {p q : Subscriber} (h : Shadows p q) (now : TimestampNs) :
    Shadows (BinarySubscriber.checkTarget now p) (BinarySubscriber.checkTarget now q) := by
  obtain ⟨hstats, htarget, hfailed, hrecorded⟩ := h.figures
  unfold BinarySubscriber.checkTarget
  rw [hstats, htarget]
  split_ifs
  · refine ⟨?_, id⟩
    simp only [hfailed, hrecorded]
  · exact h

end Refinement

section Lines

variable {host : ByteOrder} {config : Config} {target : UInt64} {startTime : TimestampNs}
variable {cond : Marks → Ledger → TimestampNs → Prop} {s s' : PollThreads}

end Lines

end AeronFast.SubscriberRefinement
