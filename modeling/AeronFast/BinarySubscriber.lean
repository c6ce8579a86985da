import AeronFast.BinaryMessage
import AeronFast.ConfigParser
import AeronFast.LabelledRuns
import AeronFast.Recorders
import AeronFast.Throughput

/-!
The subscriber of `binary_subscriber.c`. A `Fragment` is one call of the
message handler: the bytes it is given and the clock reading it would take. A
`Poll` is one turn of the receive loop: the handler calls Aeron makes, the
result of the poll and whether a stop signal arrives. `recorded` lists the
latencies handed to `record_latency`, oldest first.
-/
namespace AeronFast.BinarySubscriber

open CommonTypes ByteBuffers BinaryMessage LabelledRuns Recorders Throughput

structure SubscriberStats where
  messagesReceived : UInt64
  bytesReceived : UInt64
  fragmentsReceived : UInt64
  pollingIterations : UInt64
  startTime : TimestampNs
  endTime : TimestampNs
  lastStatsTime : TimestampNs
  lastMessagesReceived : UInt64
  lastBytesReceived : UInt64
  latencyStats : Option PerformanceStats
  minLatency : UInt64
  maxLatency : UInt64
  totalLatency : UInt64

def zeroStats : SubscriberStats := ⟨0, 0, 0, 0, 0, 0, 0, 0, 0, none, 0, 0, 0⟩

/-- `allocated` tells whether `calloc` found memory for the statistics object. -/
def initSubscriberStats (g : SubscriberStats) (allocated : Bool) (now : TimestampNs) :
    ErrorCode × SubscriberStats :=
  if allocated then
    (.success, { g with
      latencyStats := some createPerformanceStats
      minLatency := uint64Max
      maxLatency := 0
      startTime := now
      lastStatsTime := now })
  else (.memoryAllocation, { g with latencyStats := none })

/-- The rates since the last report, then the next interval begins. -/
def printRealtimeStats (g : SubscriberStats) (now : TimestampNs) :
    SubscriberStats × Option Rates :=
  ({ g with
      lastStatsTime := now
      lastMessagesReceived := g.messagesReceived
      lastBytesReceived := g.bytesReceived },
    throughput (g.messagesReceived - g.lastMessagesReceived)
      (g.bytesReceived - g.lastBytesReceived) (now - g.lastStatsTime))

/-- What `print_latency_distribution` prints: its rows, and the number of samples their
percentages are of. -/
structure LatencyDistribution where
  totalMessages : UInt64
  rows : Option (Fin 10 → DistributionRow)

structure LatencyReport where
  minLatency : UInt64
  maxLatency : UInt64
  avgLatency : UInt64
  /-- nothing when there is no statistics object -/
  distribution : Option LatencyDistribution

structure FinalReport where
  messagesReceived : UInt64
  bytesReceived : UInt64
  fragmentsReceived : UInt64
  pollingIterations : UInt64
  totalDuration : UInt64
  rates : Option Rates
  latency : Option LatencyReport

def printFinalStats (g : SubscriberStats) : FinalReport where
  messagesReceived := g.messagesReceived
  bytesReceived := g.bytesReceived
  fragmentsReceived := g.fragmentsReceived
  pollingIterations := g.pollingIterations
  totalDuration := g.endTime - g.startTime
  rates := throughput g.messagesReceived g.bytesReceived (g.endTime - g.startTime)
  latency :=
    if 0 < g.messagesReceived then
      some ⟨g.minLatency, g.maxLatency, g.totalLatency / g.messagesReceived,
        g.latencyStats.map (fun q => ⟨q.messageCount, printLatencyDistribution q⟩)⟩
    else none

structure Subscriber where
  running : Bool
  stats : SubscriberStats
  targetMessages : UInt64
  pollFailed : Bool
  recorded : List UInt64

structure Fragment where
  buffer : List UInt8
  clock : TimestampNs
  deriving DecidableEq, Repr

/-- The latency of a fragment: its receive reading less the timestamp it carries. -/
def fragmentLatency (host : ByteOrder) (f : Fragment) : UInt64 :=
  f.clock - parseBinaryMessageTimestamp host f.buffer

/-- The part of the handler under the mutex. -/
def countFragment (host : ByteOrder) (f : Fragment) (s : Subscriber) : Subscriber :=
  let latency := fragmentLatency host f
  { s with
    stats := { s.stats with
      messagesReceived := s.stats.messagesReceived + 1
      bytesReceived := s.stats.bytesReceived + UInt64.ofNat f.buffer.length
      fragmentsReceived := s.stats.fragmentsReceived + 1
      minLatency := if latency < s.stats.minLatency then latency else s.stats.minLatency
      maxLatency := if s.stats.maxLatency < latency then latency else s.stats.maxLatency
      totalLatency := s.stats.totalLatency + latency
      latencyStats := s.stats.latencyStats.map (fun q => recordLatency q latency) }
    recorded := if s.stats.latencyStats.isSome then s.recorded ++ [latency] else s.recorded }

/-- The target test at the end of the handler. -/
def checkTarget (now : TimestampNs) (s : Subscriber) : Subscriber :=
  if s.targetMessages ≤ s.stats.messagesReceived then
    { s with stats := { s.stats with endTime := now }, running := false }
  else s

def processMessageFragment (host : ByteOrder) (f : Fragment) (s : Subscriber) : Subscriber :=
  if f.buffer.length < timestampSize then s
  else checkTarget f.clock (countFragment host f s)

structure Poll where
  fragments : List Fragment
  result : Int
  /-- a stop signal arrives after this turn's loop test and before the next one -/
  signal : Bool
  deriving DecidableEq, Repr

section Loop

variable (host : ByteOrder)

/-- The state in which the receive loop starts, after a successful initialisation. -/
def startSubscriber (target : UInt64) (startTime : TimestampNs) (stopped : Bool) :
    Subscriber where
  running := !stopped
  stats := (initSubscriberStats zeroStats true startTime).2
  targetMessages := target
  pollFailed := false
  recorded := []

def pollGuard (s : Subscriber) : Bool :=
  !s.pollFailed && s.running && s.stats.messagesReceived < s.targetMessages

/-- `aeron_subscription_poll` calls the handler on one fragment after the other. -/
def deliver (fragments : List Fragment) (s : Subscriber) : Subscriber :=
  fragments.foldl (fun q f => processMessageFragment host f q) s

def pollIteration (poll : Poll) (s : Subscriber) : Subscriber :=
  let s := { s with
    stats := { s.stats with pollingIterations := s.stats.pollingIterations + 1 } }
  let s := deliver host poll.fragments s
  { s with
    running := s.running && !poll.signal
    pollFailed := poll.result < 0 }

def PollStep : Subscriber → Poll → Subscriber → Prop :=
  LoopStep pollGuard (pollIteration host)

structure SubscriberEnv where
  allocated : Bool
  startTime : TimestampNs
  stopped : Bool
  polls : ℕ → Poll
  endTime : TimestampNs

structure SubscriberResult where
  code : ErrorCode
  turns : ℕ
  final : Option Subscriber
  report : Option FinalReport

/-- The end time, unless the handler has set it. -/
def setEndTime (now : TimestampNs) (s : Subscriber) : Subscriber :=
  if s.stats.endTime = 0 then { s with stats := { s.stats with endTime := now } } else s

def cleanupSubscriberStats (s : Subscriber) : Subscriber :=
  { s with stats := { s.stats with latencyStats := none } }

/-- `run_subscriber`; nothing is returned when the loop still runs after `fuel` turns. -/
def runSubscriber (config : Config) (env : SubscriberEnv) (fuel : ℕ) : Option SubscriberResult :=
  if (initSubscriberStats zeroStats env.allocated env.startTime).1 ≠ .success then
    some ⟨.memoryAllocation, 0, none, none⟩
  else
    match whileLoop pollGuard (pollIteration host) env.polls fuel 0
        (startSubscriber config.targetMessageCount env.startTime env.stopped) with
    | none => none
    | some (turns, s) =>
        some ⟨.success, turns,
          some (cleanupSubscriberStats { setEndTime env.endTime s with running := false }),
          some (printFinalStats (setEndTime env.endTime s).stats)⟩

end Loop

end AeronFast.BinarySubscriber
