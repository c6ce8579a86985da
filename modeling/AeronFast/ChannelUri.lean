import AeronFast.AddressFields
import Mathlib.Data.Finmap

/-!
The channels of `ChannelUri.h`, the C++ class that comes with the bundled
client headers; the two programs pass their channels to the C library and do
not use it. A text is scanned once from the left: the media up to a question
mark, then keys and values in turn, each parameter ended by a bar. A key given
twice keeps its first value. The map of parameters has no order of its own, so
a channel is written in whatever order the map is walked.
-/
namespace AeronFast

/-- A parameter: its key and its value. -/
abbrev Param := Sigma fun _ : List Char => List Char

/-- The parameters of a channel, in no order. -/
abbrev Params := Finmap fun _ : List Char => List Char

structure ChannelUri where
  uriPrefix : List Char
  media : List Char
  params : Params
  deriving DecidableEq

namespace ChannelUri

def spyQualifier : List Char := "aeron-spy".toList

def aeronPrefix : List Char := "aeron:".toList

def ipcMedia : List Char := "ipc".toList

def udpMedia : List Char := "udp".toList

def spyPrefix : List Char := "aeron-spy:".toList

def endpointParamName : List Char := "endpoint".toList

def termLengthParamName : List Char := "term-length".toList

def sessionIdParamName : List Char := "session-id".toList

inductive State
  | media
  | paramsKey
  | paramsValue
  deriving DecidableEq

/-- The number that the message of an error shows for a state. -/
def State.toNat : State → ℕ
  | .media => 0
  | .paramsKey => 1
  | .paramsValue => 2

inductive UriError
  | notAeron
  | noMoreInput (state : State)
  | unknownMedia (media : List Char)
  | emptyKey (index : ℕ)
  | invalidEndOfKey (index : ℕ)
  | withinMedia (c : Char) (index : ℕ)
  deriving DecidableEq

/-- The text of the exception. The character within the media is shown by its code. -/
def UriError.what (uri : List Char) : UriError → List Char
  | .notAeron => "Aeron URIs must start with 'aeron:', found: ".toList ++ uri
  | .noMoreInput state => "no more input found, state=".toList ++ (toString state.toNat).toList
  | .unknownMedia media => "unknown media: ".toList ++ media
  | .emptyKey index =>
    "empty key not allowed at index ".toList ++ (toString index).toList ++ " in ".toList ++ uri
  | .invalidEndOfKey index =>
    "invalid end of key at index ".toList ++ (toString index).toList ++ " in ".toList ++ uri
  | .withinMedia c index =>
    "encountered '".toList ++ (toString c.toNat).toList ++
      "' within media definition at index ".toList ++ (toString index).toList ++
      " in ".toList ++ uri

/-- Where in the text the error is, for the errors that say so. -/
def UriError.index : UriError → Option ℕ
  | .notAeron => none
  | .noMoreInput _ => none
  | .unknownMedia _ => none
  | .emptyKey index => some index
  | .invalidEndOfKey index => some index
  | .withinMedia _ index => some index

/-- Whether the input has this text at the position, which lies within the input. -/
def startsWith (input : List Char) (position : ℕ) (text : List Char) : Bool :=
  if input.length - position < text.length then false
  else (List.range text.length).all fun i => input[position + i]? == text[i]?

/-- A value for a key that has none yet. -/
def emplace (params : Params) (key value : List Char) : Params :=
  if key ∈ params then params else params.insert key value

/-- What the scan has gathered of a text. -/
structure Scan where
  state : State
  builder : List Char
  media : List Char
  key : List Char
  params : Params

def step (i : ℕ) (c : Char) (scan : Scan) : Except UriError Scan :=
  match scan.state with
  | .media =>
    if c = '?' then
      .ok { scan with media := scan.builder, builder := [], state := .paramsKey }
    else if c = ':' ∨ c = '|' ∨ c = '=' then .error (.withinMedia c i)
    else .ok { scan with builder := scan.builder ++ [c] }
  | .paramsKey =>
    if c = '=' then
      if scan.builder.length = 0 then .error (.emptyKey i)
      else .ok { scan with key := scan.builder, builder := [], state := .paramsValue }
    else if c = '|' then .error (.invalidEndOfKey i)
    else .ok { scan with builder := scan.builder ++ [c] }
  | .paramsValue =>
    if c = '|' then
      .ok { scan with
        params := emplace scan.params scan.key scan.builder
        builder := []
        state := .paramsKey }
    else .ok { scan with builder := scan.builder ++ [c] }

/-- The loop over the characters, from this index on. -/
def scanFrom (i : ℕ) : List Char → Scan → Except UriError Scan
  | [], scan => .ok scan
  | c :: rest, scan => do scanFrom (i + 1) rest (← step i c scan)

def finish (uriPrefix : List Char) (scan : Scan) : Except UriError ChannelUri :=
  match scan.state with
  | .media =>
    if scan.builder ≠ ipcMedia ∧ scan.builder ≠ udpMedia then .error (.unknownMedia scan.builder)
    else .ok ⟨uriPrefix, scan.builder, scan.params⟩
  | .paramsValue => .ok ⟨uriPrefix, scan.media, emplace scan.params scan.key scan.builder⟩
  | .paramsKey => .error (.noMoreInput scan.state)

def initial : Scan := ⟨.media, [], [], [], ∅⟩

def parse (uri : List Char) : Except UriError ChannelUri := do
  let spy := startsWith uri 0 spyPrefix
  let position := if spy then spyPrefix.length else 0
  if startsWith uri position aeronPrefix then
    let start := position + aeronPrefix.length
    finish (if spy then spyQualifier else []) (← scanFrom start (uri.drop start) initial)
  else .error .notAeron

def get (uri : ChannelUri) (key : List Char) : List Char := (uri.params.lookup key).getD []

def put (uri : ChannelUri) (key value : List Char) : ChannelUri :=
  { uri with params := uri.params.insert key value }

/-- A parameter and the bar that ends it. -/
def closed (p : Param) : List Char := p.1 ++ '=' :: (p.2 ++ ['|'])

/-- The parameters as they are written, without the last bar. -/
def paramsText (order : List Param) : List Char :=
  if order.isEmpty then [] else ('?' :: order.flatMap closed).dropLast

def prefixText (uriPrefix : List Char) : List Char :=
  if uriPrefix.length = 0 then []
  else if uriPrefix.getLast? ≠ some ':' then uriPrefix ++ [':']
  else uriPrefix

/-- The text of a channel whose parameters are walked in this order. -/
def toText (uri : ChannelUri) (order : List Param) : List Char :=
  prefixText uri.uriPrefix ++ aeronPrefix ++ uri.media ++ paramsText order

/-- An order in which the parameters may be walked. -/
def Walks (params : Params) (order : List Param) : Prop := (order : Multiset Param) = params.entries

/-- The text of a number. -/
def decimal (n : Int32) : List Char := (toString n.toInt).toList

/-- The channel with the session put into it, the parameters being walked as `walk` says. -/
def addSessionId (walk : Params → List Param) (channel : List Char) (sessionId : Int32) :
    Except UriError (List Char) := do
  let channelUri := (← parse channel).put sessionIdParamName (decimal sessionId)
  return channelUri.toText (walk channelUri.params)

end ChannelUri

end AeronFast
