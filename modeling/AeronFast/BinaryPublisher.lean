import AeronFast.BinaryMessage
import AeronFast.ConfigParser
import AeronFast.LabelledRuns
import AeronFast.Throughput

/-!
The publisher of `binary_publisher.c`. Aeron enters through the results of
`aeron_publication_offer`, the clock through its readings and the operating
system through the stop signal: one `Iteration` holds what a turn of the send
loop meets. `offered` lists the buffers handed to Aeron, oldest first.
-/
namespace AeronFast.BinaryPublisher

open CommonTypes ByteBuffers BinaryMessage LabelledRuns Throughput

def aeronPublicationNotConnected : Int := -1

def aeronPublicationBackPressured : Int := -2

def aeronPublicationAdminAction : Int := -3

def aeronPublicationClosed : Int := -4

def aeronPublicationMaxPositionExceeded : Int := -5

def aeronPublicationError : Int := -6

structure PublisherStats where
  messagesSent : UInt64
  bytesSent : UInt64
  sendErrors : UInt64
  backPressureEvents : UInt64
  startTime : TimestampNs
  lastStatsTime : TimestampNs
  lastMessagesSent : UInt64
  lastBytesSent : UInt64
  deriving DecidableEq, Repr

def zeroStats : PublisherStats := ⟨0, 0, 0, 0, 0, 0, 0, 0⟩

structure FinalReport where
  messagesSent : UInt64
  bytesSent : UInt64
  sendErrors : UInt64
  backPressureEvents : UInt64
  totalDuration : UInt64
  rates : Option Rates

/-- `print_stats(true)` at the clock reading `now`. -/
def printFinalStats (g : PublisherStats) (now : TimestampNs) : FinalReport where
  messagesSent := g.messagesSent
  bytesSent := g.bytesSent
  sendErrors := g.sendErrors
  backPressureEvents := g.backPressureEvents
  totalDuration := now - g.startTime
  rates := throughput g.messagesSent g.bytesSent (now - g.startTime)

/-- `print_stats(false)`: the rates since the last report, then the next interval begins. -/
def printIntervalStats (g : PublisherStats) (now : TimestampNs) : PublisherStats × Option Rates :=
  ({ g with
      lastStatsTime := now
      lastMessagesSent := g.messagesSent
      lastBytesSent := g.bytesSent },
    throughput (g.messagesSent - g.lastMessagesSent) (g.bytesSent - g.lastBytesSent)
      (now - g.lastStatsTime))

def offerFailedHandler (g : PublisherStats) : PublisherStats :=
  { g with backPressureEvents := g.backPressureEvents + 1 }

/-- The bookkeeping around one offer that Aeron answered with `result`. The
returned -1 and -2 are the publisher's own codes, not Aeron's. -/
def publishMessage (g : PublisherStats) (messageSize : UInt64) (result : Int) :
    PublisherStats × Int :=
  if 0 < result then
    ({ g with
        messagesSent := g.messagesSent + 1
        bytesSent := g.bytesSent + messageSize }, result)
  else if result = aeronPublicationBackPressured then
    (offerFailedHandler g, -1)
  else if result = aeronPublicationNotConnected ∨ result = aeronPublicationAdminAction ∨
      result = aeronPublicationClosed then
    ({ g with sendErrors := g.sendErrors + 1 }, -2)
  else (g, result)

/-- The three `break` statements of the send loop. -/
inductive Exit
  | targetReached
  | retriesExhausted
  | sendFailed (code : Int)
  deriving DecidableEq, Repr

structure Iteration where
  clock : TimestampNs
  result : Int
  /-- a stop signal arrives after this turn's loop test and before the next one -/
  signal : Bool
  deriving DecidableEq, Repr

structure Publisher where
  running : Bool
  stats : PublisherStats
  messageBuffer : List UInt8
  successfulSends : UInt64
  retryCount : UInt64
  exit : Option Exit
  offered : List (List UInt8)
  deriving DecidableEq, Repr

def maxRetries : UInt64 := 1000000

section Loop

variable (host : ByteOrder) (config : Config)

/-- The state in which the send loop starts: `garbage` is what the allocated
buffer held, `stopped` whether a stop signal has already arrived. -/
def startPublisher (garbage : ℕ → UInt8) (startTime : TimestampNs) (stopped : Bool) :
    Publisher where
  running := !stopped
  stats := { zeroStats with startTime := startTime, lastStatsTime := startTime }
  messageBuffer :=
    fillLoop (fun i => UInt8.ofNat (i % 256)) timestampSize
      (config.messageSize.toNat - timestampSize)
      ((List.range config.messageSize.toNat).map garbage)
  successfulSends := 0
  retryCount := 0
  exit := none
  offered := []

def sendGuard (p : Publisher) : Bool :=
  p.exit.isNone && p.running && p.successfulSends < config.messageCount

/-- What the loop does with the code `publish_message` returned. -/
def afterPublish (p : Publisher) (result : Int) : Publisher :=
  if 0 < result then
    { p with
      successfulSends := p.successfulSends + 1
      retryCount := 0
      exit := if config.messageCount ≤ p.successfulSends + 1 then some .targetReached else none }
  else if result = -1 then
    { p with
      retryCount := p.retryCount + 1
      exit := if maxRetries < p.retryCount + 1 then some .retriesExhausted else none }
  else { p with exit := some (.sendFailed result) }

def sendIteration (it : Iteration) (p : Publisher) : Publisher :=
  let message := createBinaryMessage host p.messageBuffer config.messageSize it.clock
  let published := publishMessage p.stats config.messageSize it.result
  afterPublish config
    { p with
      running := p.running && !it.signal
      stats := published.1
      messageBuffer := message
      offered := p.offered ++ [message] }
    published.2

def SendStep : Publisher → Iteration → Publisher → Prop :=
  LoopStep (sendGuard config) (sendIteration host config)

structure PublisherEnv where
  /-- the bytes `malloc` handed out, or nothing when it failed -/
  allocation : Option (ℕ → UInt8)
  startTime : TimestampNs
  stopped : Bool
  iterations : ℕ → Iteration
  finalTime : TimestampNs

structure PublisherResult where
  code : ErrorCode
  turns : ℕ
  final : Option Publisher
  report : Option FinalReport

/-- `run_publisher`; nothing is returned when the loop still runs after `fuel` turns. -/
def runPublisher (env : PublisherEnv) (fuel : ℕ) : Option PublisherResult :=
  match env.allocation with
  | none => some ⟨.memoryAllocation, 0, none, none⟩
  | some garbage =>
      match whileLoop (sendGuard config) (sendIteration host config) env.iterations fuel 0
          (startPublisher config garbage env.startTime env.stopped) with
      | none => none
      | some (turns, p) =>
          some ⟨.success, turns, some { p with running := false },
            some (printFinalStats p.stats env.finalTime)⟩

end Loop

end AeronFast.BinaryPublisher
