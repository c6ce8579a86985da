import AeronFast.BinaryPublisher
import AeronFast.BinarySubscriber
import AeronFast.DocumentedInvocations
import AeronFast.ResourceTraces

/-!
The two `main` functions, which differ only in the parser and the loop they
call. Aeron enters through the results of its calls, and every call is kept, so
that a run of `main` is a trace of what was obtained, used and closed. Each
exit writes its clean-up out as the source does.
-/
namespace AeronFast.MainFunctions

open CommonTypes ByteBuffers ConfigParser ParsedOptions Getopt DocumentedInvocations
open LabelledRuns BinaryPublisher BinarySubscriber ResourceTraces

/-- The endpoint is the publication or the subscription. -/
inductive Handle
  | context
  | client
  | endpoint
  deriving DecidableEq, Repr

/-- What `aeron_async_add_publication_poll` or its sibling for subscriptions answers. -/
inductive AsyncPoll
  | notComplete
  | completed
  | failed (code : ℕ)
  deriving DecidableEq, Repr

def AsyncPoll.result : AsyncPoll → Int
  | notComplete => 0
  | completed => 1
  | failed code => Int.negSucc code

/-- The handle is set if the addition completed successfully. -/
def AsyncPoll.handle : AsyncPoll → Bool
  | notComplete => false
  | completed => true
  | failed _ => false

/-- The calls of the Aeron client, with the result where the source reads it. -/
inductive AeronCall
  | contextInit (result : Int)
  | contextSetDir (dir : List Char) (result : Int)
  | init (result : Int)
  | start (result : Int)
  | asyncAdd (channel : Option (List Char)) (streamId : Int) (result : Int)
  | asyncAddPoll (poll : AsyncPoll)
  | isConnected (answer : Bool)
  | publicationOffer
  | subscriptionPoll
  | endpointClose
  | close
  | contextClose
  deriving DecidableEq, Repr

namespace AeronCall

/-- A failed call obtains nothing. The pending addition belongs to the client. -/
def footprint : AeronCall → Footprint Handle
  | contextInit result => ⟨if result < 0 then none else some .context, [], none⟩
  | contextSetDir _ _ => ⟨none, [.context], none⟩
  | init result => ⟨if result < 0 then none else some .client, [.context], none⟩
  | start _ => ⟨none, [.client], none⟩
  | asyncAdd _ _ _ => ⟨none, [.client], none⟩
  | asyncAddPoll poll => ⟨if poll.handle then some .endpoint else none, [.client], none⟩
  | isConnected _ => ⟨none, [.endpoint], none⟩
  | publicationOffer => ⟨none, [.endpoint], none⟩
  | subscriptionPoll => ⟨none, [.endpoint], none⟩
  | endpointClose => ⟨none, [.endpoint], some .endpoint⟩
  | close => ⟨none, [.client], some .client⟩
  | contextClose => ⟨none, [.context], some .context⟩

/-- A set-up call that reports an error. -/
def failed : AeronCall → Bool
  | contextInit result => result < 0
  | contextSetDir _ result => result < 0
  | init result => result < 0
  | start result => result < 0
  | asyncAdd _ _ result => result < 0
  | asyncAddPoll poll => poll.result < 0
  | _ => false

end AeronCall

structure AsyncTurn where
  poll : AsyncPoll
  /-- a stop signal arrives before the flag is read after this poll -/
  signal : Bool

structure ConnectionTurn where
  connected : Bool
  time : Int

structure MainEnv where
  contextInit : Int
  contextSetDir : Int
  init : Int
  start : Int
  asyncAdd : Int
  /-- what the channel buffer on the stack held -/
  channelBuffer : List Char
  /-- a stop signal arrives before the first poll -/
  signalled : Bool
  polls : ℕ → AsyncTurn
  waitStart : Int
  waits : ℕ → ConnectionTurn

structure MainResult where
  status : Int
  calls : List AeronCall
  deriving DecidableEq, Repr

/-- The flag, which of the three pointers of `main` are set, and the calls made so far. -/
structure Session where
  running : Bool
  context : Bool
  aeron : Bool
  endpoint : Bool
  calls : List AeronCall

namespace Session

def call (c : AeronCall) (s : Session) : Session := { s with calls := s.calls ++ [c] }

def contextInit (result : Int) (s : Session) : Session :=
  { s.call (.contextInit result) with context := 0 ≤ result }

def init (result : Int) (s : Session) : Session :=
  { s.call (.init result) with aeron := 0 ≤ result }

end Session

section Waiting

structure Waiting where
  code : Option ErrorCode
  calls : List AeronCall

def waitTurn (start timeoutSeconds : Int) (turn : ConnectionTurn) (w : Waiting) : Waiting where
  code :=
    if turn.connected then some .success
    else if timeoutSeconds < turn.time - start then some .timeout
    else none
  calls := w.calls ++ [.isConnected turn.connected]

/-- `wait_for_connection` on the endpoint, after the given calls. -/
def waitForConnection (start timeoutSeconds : Int) (turns : ℕ → ConnectionTurn) (fuel : ℕ)
    (calls : List AeronCall) : Option Waiting :=
  (whileLoop (fun w : Waiting => w.code.isNone) (waitTurn start timeoutSeconds) turns fuel 0
    ⟨none, calls⟩).map Prod.snd

end Waiting

section Polling

structure Polling where
  session : Session
  result : Int
  interrupted : Bool

def pollingGuard (p : Polling) : Bool := p.result = 0 && !p.interrupted

/-- One poll, and the test of the flag when the addition is not complete. -/
def pollingTurn (turn : AsyncTurn) (p : Polling) : Polling :=
  let running := p.session.running && !turn.signal
  { session := { p.session with
      running := running
      endpoint := p.session.endpoint || turn.poll.handle
      calls := p.session.calls ++ [.asyncAddPoll turn.poll] }
    result := turn.poll.result
    interrupted := turn.poll.result = 0 && !running }

end Polling

section Main

variable (program : Program) (config : Config) (env : MainEnv)
variable (run : Config → Bool → ℕ → Option (ErrorCode × ℕ))

def transferCall : Program → AeronCall
  | .publisher => .publicationOffer
  | .subscriber => .subscriptionPoll

/-- The closes at the end of `main`, each behind the test of its pointer. -/
def closeAll (s : Session) : List AeronCall :=
  (if s.endpoint then [.endpointClose] else []) ++ (if s.aeron then [.close] else []) ++
    if s.context then [.contextClose] else []

/-- From the call of `run_publisher` or `run_subscriber` to the end; `run` is
given the flag and returns the code and the number of turns its loop took. -/
def runAndClose (fuel : ℕ) (s : Session) : Option MainResult :=
  match run config s.running fuel with
  | none => none
  | some (code, turns) =>
      some ⟨exitStatus code,
        s.calls ++ List.replicate turns (transferCall program) ++ closeAll s⟩

/-- A missing connection is only warned of. -/
def connectAndRun (fuel : ℕ) (s : Session) : Option MainResult :=
  if config.transportType ≠ .ipc then
    match waitForConnection env.waitStart 30 env.waits fuel s.calls with
    | none => none
    | some w => runAndClose program config run fuel { s with calls := w.calls }
  else runAndClose program config run fuel s

def pollForEndpoint (fuel : ℕ) (s : Session) : Option MainResult :=
  match whileLoop pollingGuard pollingTurn env.polls fuel 0 ⟨s, 0, false⟩ with
  | none => none
  | some (_, p) =>
      if p.interrupted then some ⟨1, p.session.calls ++ [.close, .contextClose]⟩
      else if !p.session.endpoint then some ⟨1, p.session.calls ++ [.close, .contextClose]⟩
      else connectAndRun program config env run fuel p.session

def startClient (fuel : ℕ) (s : Session) : Option MainResult :=
  let s := s.init env.init
  if env.init < 0 then some ⟨1, s.calls ++ [.contextClose]⟩
  else
    let s := s.call (.start env.start)
    if env.start < 0 then some ⟨1, s.calls ++ [.close, .contextClose]⟩
    else
      let channel := getEffectiveChannel config env.channelBuffer 512
      let s := s.call (.asyncAdd channel config.streamId env.asyncAdd)
      if env.asyncAdd < 0 then some ⟨1, s.calls ++ [.close, .contextClose]⟩
      else pollForEndpoint program config env run fuel s

def setUpContext (fuel : ℕ) : Option MainResult :=
  let s : Session := ⟨!env.signalled, false, false, false, []⟩
  let s := s.contextInit env.contextInit
  if env.contextInit < 0 then some ⟨1, s.calls⟩
  else
    let s := s.call (.contextSetDir config.aeronDir env.contextSetDir)
    if env.contextSetDir < 0 then some ⟨1, s.calls ++ [.contextClose]⟩
    else startClient program config env run fuel s

/-- Both `main` functions, up to the parser and the loop they call; nothing is
returned when a loop still runs after `fuel` turns. The code 1 of a parser is
that of the help text. -/
def mainWith (ordering : OperandOrder) (memory : ConfigMemory) (aeronDir : Option (List Char))
    (argv : List (List Char)) (fuel : ℕ) : Option MainResult :=
  match parseArgv program ordering memory.1 aeronDir argv with
  | .error code => if code = 1 then some ⟨0, []⟩ else some ⟨1, []⟩
  | .ok config => setUpContext program config env run fuel

end Main

section Programs

variable (host : ByteOrder) (ordering : OperandOrder) (memory : ConfigMemory)
variable (aeronDir : Option (List Char)) (argv : List (List Char)) (env : MainEnv)

def publisherMain (publisherEnv : PublisherEnv) : ℕ → Option MainResult :=
  mainWith .publisher env
    (fun config running fuel =>
      (runPublisher host config
        { publisherEnv with stopped := !running || publisherEnv.stopped } fuel).map
        (fun r => (r.code, r.turns)))
    ordering memory aeronDir argv

def subscriberMain (subscriberEnv : SubscriberEnv) : ℕ → Option MainResult :=
  mainWith .subscriber env
    (fun config running fuel =>
      (runSubscriber host config
        { subscriberEnv with stopped := !running || subscriberEnv.stopped } fuel).map
        (fun r => (r.code, r.turns)))
    ordering memory aeronDir argv

end Programs

end AeronFast.MainFunctions
