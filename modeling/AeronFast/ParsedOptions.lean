import AeronFast.ConfigParser
import Mathlib.Data.List.Induction

/-!
What the option loop makes of a list of decoded options. Some options end the
loop at once, with a code that does not depend on the configuration so far;
all others set one field. Without one that ends it, the loop is a fold, and a
field holds what the last option that names it says, or its default.
-/
namespace AeronFast.ParsedOptions

open CommonTypes ConfigParser

/-- A decoded option: its character and its argument. -/
abbrev Decoded := Char × List Char

/-- The argument of the last option with one of the given names. -/
def lastArg (names : List Char) (options : List Decoded) : Option (List Char) :=
  (options.filterMap (fun o => if o.1 ∈ names then some o.2 else none)).getLast?

def publisherEndpoints : List Char := ['b', 'l', 'e', 'i']

def subscriberEndpoints : List Char := ['o', 'e', 'i']

/-- The transport an argument of `-t` names. -/
def transportOf (arg : List Char) : Option TransportType :=
  if cString arg = "UDP".toList ∨ cString arg = "udp".toList then some .udp
  else if cString arg = "IPC".toList ∨ cString arg = "ipc".toList then some .ipc
  else if cString arg = "NETWORK_UDP".toList ∨ cString arg = "network_udp".toList then
    some .networkUdp
  else none

/-- The code with which an option ends the loop at once: help, a transport that does not exist,
or a character that is none of the program's names. -/
def stopCode (names : List Char) (o : Decoded) : Option Int :=
  if o.1 = 'h' then some 1
  else if o.1 = 't' then
    if (transportOf o.2).isSome then none else some ErrorCode.invalidParam.value
  else if o.1 ∈ names then none
  else some ErrorCode.invalidParam.value

def publisherStop : Decoded → Option Int := stopCode ('s' :: 'c' :: publisherEndpoints)

def subscriberStop : Decoded → Option Int := stopCode ('c' :: subscriberEndpoints)

/-- The configuration after an option that does not end the loop. -/
def publisherSet (config : Config) (o : Decoded) : Config :=
  (publisherOption config o.1 o.2).toOption.getD config

def subscriberSet (config : Config) (o : Decoded) : Config :=
  (subscriberOption config o.1 o.2).toOption.getD config

/-- The transport after an option that is neither a number nor an endpoint. -/
def nextTransport (config : Config) (o : Decoded) : TransportType :=
  if o.1 = 't' then (transportOf o.2).getD config.transportType else config.transportType

theorem setTransport_eq (config : Config) (arg : List Char) :
    setTransport config arg =
      (transportOf arg).elim (.error ErrorCode.invalidParam.value)
        (fun t => .ok { config with transportType := t }) := by
  unfold setTransport transportOf
  split
  · rfl
  · split
    · rfl
    · split
      · rfl
      · rfl

section Inversion

variable (config : Config) (o : Decoded)

theorem publisherOption_eq :
    publisherOption config o.1 o.2 =
      (publisherStop o).elim (.ok (publisherSet config o)) .error := by
  obtain ⟨opt, arg⟩ := o
  simp only [publisherSet]
  unfold publisherOption
  split
  any_goals rfl
  · simp only [setTransport_eq, publisherStop, stopCode]
    cases transportOf arg with
    | none => rfl
    | some t => rfl
  · simp_all [publisherStop, stopCode, publisherEndpoints]

theorem subscriberOption_eq :
    subscriberOption config o.1 o.2 =
      (subscriberStop o).elim (.ok (subscriberSet config o)) .error := by
  obtain ⟨opt, arg⟩ := o
  simp only [subscriberSet]
  unfold subscriberOption
  split
  any_goals rfl
  · simp only [setTransport_eq, subscriberStop, stopCode]
    cases transportOf arg with
    | none => rfl
    | some t => rfl
  · simp_all [subscriberStop, stopCode, subscriberEndpoints]

/-- A transport that is none leaves the field as it was. -/
theorem publisherSet_transport (arg : List Char) :
    publisherSet config ('t', arg) =
      { config with transportType := (transportOf arg).getD config.transportType } := by
  simp only [publisherSet, publisherOption, setTransport_eq]
  cases transportOf arg with
  | none => rfl
  | some t => rfl

theorem subscriberSet_transport (arg : List Char) :
    subscriberSet config ('t', arg) =
      { config with transportType := (transportOf arg).getD config.transportType } := by
  simp only [subscriberSet, subscriberOption, setTransport_eq]
  cases transportOf arg with
  | none => rfl
  | some t => rfl

/-- Everything an option can do to the publisher's configuration. -/
theorem publisherSet_cases :
    (o.1 = 's' ∧ publisherSet config o =
        { config with messageSize := UInt64.ofInt (atoi o.2) }) ∨
      (o.1 = 'c' ∧ publisherSet config o =
        { config with messageCount := UInt64.ofInt (atoll o.2) }) ∨
      (o.1 ∈ publisherEndpoints ∧ publisherSet config o = setEndpoint config o.2) ∨
      (o.1 ∉ 's' :: 'c' :: publisherEndpoints ∧
        publisherSet config o = { config with transportType := nextTransport config o }) := by
  obtain ⟨opt, arg⟩ := o
  simp only [publisherSet]
  unfold publisherOption
  split
  · exact Or.inl ⟨rfl, rfl⟩
  · exact Or.inr (Or.inl ⟨rfl, rfl⟩)
  · refine Or.inr (Or.inr (Or.inr ⟨by decide, ?_⟩))
    rw [nextTransport, if_pos rfl]
    exact publisherSet_transport config arg
  · exact Or.inr (Or.inr (Or.inl ⟨by decide, rfl⟩))
  · exact Or.inr (Or.inr (Or.inl ⟨by decide, rfl⟩))
  · exact Or.inr (Or.inr (Or.inl ⟨by decide, rfl⟩))
  · exact Or.inr (Or.inr (Or.inl ⟨by decide, rfl⟩))
  · exact Or.inr (Or.inr (Or.inr ⟨by decide, rfl⟩))
  · rename_i hs hc ht hb hl he hi _
    refine Or.inr (Or.inr (Or.inr ⟨?_, ?_⟩))
    · simpa [publisherEndpoints] using ⟨hs, hc, hb, hl, he, hi⟩
    · rw [nextTransport, if_neg ht]
      rfl

theorem subscriberSet_cases :
    (o.1 = 'c' ∧ subscriberSet config o =
        { config with targetMessageCount := UInt64.ofInt (atoll o.2) }) ∨
      (o.1 ∈ subscriberEndpoints ∧ subscriberSet config o = setEndpoint config o.2) ∨
      (o.1 ∉ 'c' :: subscriberEndpoints ∧
        subscriberSet config o = { config with transportType := nextTransport config o }) := by
  obtain ⟨opt, arg⟩ := o
  simp only [subscriberSet]
  unfold subscriberOption
  split
  · exact Or.inl ⟨rfl, rfl⟩
  · refine Or.inr (Or.inr ⟨by decide, ?_⟩)
    rw [nextTransport, if_pos rfl]
    exact subscriberSet_transport config arg
  · exact Or.inr (Or.inl ⟨by decide, rfl⟩)
  · exact Or.inr (Or.inl ⟨by decide, rfl⟩)
  · exact Or.inr (Or.inl ⟨by decide, rfl⟩)
  · exact Or.inr (Or.inr ⟨by decide, rfl⟩)
  · rename_i hc ht ho he hi _
    refine Or.inr (Or.inr ⟨?_, ?_⟩)
    · simpa [subscriberEndpoints] using ⟨hc, ho, he, hi⟩
    · rw [nextTransport, if_neg ht]
      rfl

variable {o}

theorem publisherSet_endpoint (h : o.1 ∈ publisherEndpoints) :
    publisherSet config o = setEndpoint config o.2 := by
  rcases publisherSet_cases config o with ⟨hopt, _⟩ | ⟨hopt, _⟩ | ⟨_, hset⟩ | ⟨hopt, _⟩
  · rw [hopt] at h
    exact absurd h (by decide)
  · rw [hopt] at h
    exact absurd h (by decide)
  · exact hset
  · exact absurd (by simp [h]) hopt

theorem subscriberSet_endpoint (h : o.1 ∈ subscriberEndpoints) :
    subscriberSet config o = setEndpoint config o.2 := by
  rcases subscriberSet_cases config o with ⟨hopt, _⟩ | ⟨_, hset⟩ | ⟨hopt, _⟩
  · rw [hopt] at h
    exact absurd h (by decide)
  · exact hset
  · exact absurd (by simp [h]) hopt

end Inversion

/-- The code a parser returns. -/
def returnCode : Except Int Config → Int
  | .ok _ => ErrorCode.success.value
  | .error code => code

/-- What is returned after the last option. -/
def checked (config : Config) : Except Int Config :=
  if validateConfig config = .success then .ok config
  else .error (validateConfig config).value

section Loop

variable {option : Config → Char → List Char → Except Int Config}
variable {stop : Decoded → Option Int} {set : Config → Decoded → Config}

/-- The loop returns at the first option that ends it, or checks the fold of all of them. -/
theorem parseOptions_eq
    (hoption : ∀ config o, option config o.1 o.2 = (stop o).elim (.ok (set config o)) .error)
    (config : Config) (options : List Decoded) :
    parseOptions option config options =
      (options.findSome? stop).elim (checked (options.foldl set config)) .error := by
  induction options generalizing config with
  | nil => rfl
  | cons o rest ih =>
    obtain ⟨opt, arg⟩ := o
    rw [parseOptions, hoption config (opt, arg), List.findSome?_cons]
    cases stop (opt, arg) with
    | none => exact ih (set config (opt, arg))
    | some code => rfl

theorem checked_eq_ok_iff (config result : Config) :
    checked config = .ok result ↔ result = config ∧ validateConfig result = .success := by
  unfold checked
  split
  · rename_i hvalid
    constructor
    · intro h
      cases h
      exact ⟨rfl, hvalid⟩
    · rintro ⟨rfl, _⟩
      rfl
  · rename_i hinvalid
    constructor
    · intro h
      cases h
    · rintro ⟨rfl, hvalid⟩
      exact absurd hvalid hinvalid

/-- An accepted list has no option that ends the loop, and its fold passes the final check. -/
theorem parseOptions_eq_ok_iff
    (hoption : ∀ config o, option config o.1 o.2 = (stop o).elim (.ok (set config o)) .error)
    (config result : Config) (options : List Decoded) :
    parseOptions option config options = .ok result ↔
      options.findSome? stop = none ∧ result = options.foldl set config ∧
        validateConfig result = .success := by
  rw [parseOptions_eq hoption]
  cases options.findSome? stop with
  | none => simpa using checked_eq_ok_iff (options.foldl set config) result
  | some code => simp

/-- Options that a switch cannot tell apart give the same result. -/
theorem parseOptions_map (f : Decoded → Decoded)
    (hsame : ∀ config o, option config (f o).1 (f o).2 = option config o.1 o.2)
    (config : Config) (options : List Decoded) :
    parseOptions option config (options.map f) = parseOptions option config options := by
  induction options generalizing config with
  | nil => rfl
  | cons o rest ih =>
    obtain ⟨opt, arg⟩ := o
    have h := hsame config (opt, arg)
    rw [List.map_cons, parseOptions, parseOptions, h]
    cases option config opt arg with
    | ok next => exact ih next
    | error code => rfl

theorem lastArg_snoc (names : List Char) (options : List Decoded) (o : Decoded) :
    lastArg names (options ++ [o]) = if o.1 ∈ names then some o.2 else lastArg names options := by
  rw [lastArg, List.filterMap_append]
  split
  · rename_i h
    simp [h]
  · rename_i h
    simp [h, lastArg]

/-- A field that only the options of some names set holds what the last of them says. -/
theorem field_foldl {β : Type} (field : Config → β) (names : List Char) (value : List Char → β)
    (config : Config) (options : List Decoded)
    (hset : ∀ config, ∀ o ∈ options,
      field (set config o) = if o.1 ∈ names then value o.2 else field config) :
    field (options.foldl set config) = (lastArg names options).elim (field config) value := by
  induction options using List.reverseRecOn with
  | nil => rfl
  | append_singleton options o ih =>
    have hbefore := ih (fun config o ho => hset config o (by simp [ho]))
    rw [List.foldl_append, List.foldl_cons, List.foldl_nil, hset _ o (by simp), hbefore,
      lastArg_snoc]
    split
    · rfl
    · rfl

/-- A property that every option keeps. -/
theorem foldl_keeps (P : Config → Prop) (hset : ∀ config o, P config → P (set config o))
    (config : Config) (options : List Decoded) (h : P config) : P (options.foldl set config) := by
  induction options generalizing config with
  | nil => exact h
  | cons o rest ih => exact ih (set config o) (hset config o h)

end Loop

section Programs

/-- The options leave all address fields alone but the endpoint, which theirs copy. -/
structure SetsEndpoint (set : Config → Decoded → Config) (endpoints : List Char) : Prop where
  channel : ∀ config o, (set config o).channel = config.channel
  aeronDir : ∀ config o, (set config o).aeronDir = config.aeronDir
  streamId : ∀ config o, (set config o).streamId = config.streamId
  customEndpoint : ∀ config o, (set config o).customEndpoint =
    if o.1 ∈ endpoints then copyField config.customEndpoint o.2 64 else config.customEndpoint

theorem setsEndpoint_of_cases {set : Config → Decoded → Config} {endpoints : List Char}
    (hcases : ∀ config o, (o.1 ∈ endpoints ∧ set config o = setEndpoint config o.2) ∨
      (o.1 ∉ endpoints ∧ ∃ transport size count target, set config o =
        { config with
          transportType := transport
          messageSize := size
          messageCount := count
          targetMessageCount := target })) : SetsEndpoint set endpoints := by
  refine ⟨?_, ?_, ?_, ?_⟩
  all_goals
    intro config o
    rcases hcases config o with ⟨hmem, h⟩ | ⟨hmem, _, _, _, _, h⟩
    · simp only [h, hmem, setEndpoint, if_true]
    · simp only [h, hmem, if_false]

theorem publisher_setsEndpoint : SetsEndpoint publisherSet publisherEndpoints := by
  apply setsEndpoint_of_cases
  intro config o
  rcases publisherSet_cases config o with ⟨hopt, h⟩ | ⟨hopt, h⟩ | hendpoint | ⟨hopt, h⟩
  · exact Or.inr ⟨by rw [hopt]; decide, _, _, _, _, h⟩
  · exact Or.inr ⟨by rw [hopt]; decide, _, _, _, _, h⟩
  · exact Or.inl hendpoint
  · exact Or.inr ⟨fun hmem => hopt (by simp [hmem]), _, _, _, _, h⟩

theorem subscriber_setsEndpoint : SetsEndpoint subscriberSet subscriberEndpoints := by
  apply setsEndpoint_of_cases
  intro config o
  rcases subscriberSet_cases config o with ⟨hopt, h⟩ | hendpoint | ⟨hopt, h⟩
  · exact Or.inr ⟨by rw [hopt]; decide, _, _, _, _, h⟩
  · exact Or.inl hendpoint
  · exact Or.inr ⟨fun hmem => hopt (by simp [hmem]), _, _, _, _, h⟩

inductive Program
  | publisher
  | subscriber
  deriving DecidableEq, Repr

namespace Program

def parseArgs : Program → Config → Option (List Char) → List Decoded → Except Int Config
  | publisher => parsePublisherArgs
  | subscriber => parseSubscriberArgs

def option : Program → Config → Char → List Char → Except Int Config
  | publisher => publisherOption
  | subscriber => subscriberOption

def endpoints : Program → List Char
  | publisher => publisherEndpoints
  | subscriber => subscriberEndpoints

def stop : Program → Decoded → Option Int
  | publisher => publisherStop
  | subscriber => subscriberStop

def set : Program → Config → Decoded → Config
  | publisher => publisherSet
  | subscriber => subscriberSet

end Program

/-- The defaults and the environment, before the first option. -/
def loaded (config : Config) (env : Option (List Char)) : Config :=
  loadConfigFromEnv (setDefaultConfig config) env

section Loaded

variable (config : Config) (env : Option (List Char))

@[simp] theorem loaded_transportType : (loaded config env).transportType = .udp := rfl

@[simp] theorem loaded_streamId : (loaded config env).streamId = defaultStreamId := rfl

@[simp] theorem loaded_messageSize : (loaded config env).messageSize = defaultMessageSize := rfl

end Loaded

variable (program : Program)

theorem parseArgs_def (config : Config) (env : Option (List Char)) (options : List Decoded) :
    program.parseArgs config env options =
      parseOptions program.option (loaded config env) options := by
  cases program with
  | publisher => rfl
  | subscriber => rfl

theorem option_eq (config : Config) (o : Decoded) :
    program.option config o.1 o.2 =
      (program.stop o).elim (.ok (program.set config o)) .error := by
  cases program with
  | publisher => exact publisherOption_eq config o
  | subscriber => exact subscriberOption_eq config o

theorem parseArgs_eq (config : Config) (env : Option (List Char)) (options : List Decoded) :
    program.parseArgs config env options = (options.findSome? program.stop).elim
      (checked (options.foldl program.set (loaded config env))) .error := by
  rw [parseArgs_def]
  exact parseOptions_eq (option_eq program) (loaded config env) options

theorem parseArgs_eq_ok_iff (config result : Config) (env : Option (List Char))
    (options : List Decoded) :
    program.parseArgs config env options = .ok result ↔
      options.findSome? program.stop = none ∧
        result = options.foldl program.set (loaded config env) ∧
        validateConfig result = .success := by
  rw [parseArgs_def]
  exact parseOptions_eq_ok_iff (option_eq program) (loaded config env) result options

theorem setsEndpoint : SetsEndpoint program.set program.endpoints := by
  cases program with
  | publisher => exact publisher_setsEndpoint
  | subscriber => exact subscriber_setsEndpoint

theorem set_transportType (config : Config) (o : Decoded) :
    (program.set config o).transportType = nextTransport config o := by
  have hother (h : o.1 ≠ 't') : config.transportType = nextTransport config o := by
    rw [nextTransport, if_neg h]
  cases program with
  | publisher =>
    rcases publisherSet_cases config o with ⟨hopt, h⟩ | ⟨hopt, h⟩ | ⟨hopt, h⟩ | ⟨_, h⟩
    · rw [Program.set, h]
      exact hother (by rw [hopt]; decide)
    · rw [Program.set, h]
      exact hother (by rw [hopt]; decide)
    · rw [Program.set, h]
      exact hother (fun heq => absurd (heq ▸ hopt) (by decide))
    · rw [Program.set, h]
  | subscriber =>
    rcases subscriberSet_cases config o with ⟨hopt, h⟩ | ⟨hopt, h⟩ | ⟨_, h⟩
    · rw [Program.set, h]
      exact hother (by rw [hopt]; decide)
    · rw [Program.set, h]
      exact hother (fun heq => absurd (heq ▸ hopt) (by decide))
    · rw [Program.set, h]

/-- Where the loop goes on, a transport option has named a transport. -/
theorem set_transportType_of_stop (config : Config) (o : Decoded) (hstop : program.stop o = none) :
    (program.set config o).transportType =
      if o.1 ∈ ['t'] then (transportOf o.2).getD .udp else config.transportType := by
  have hnamed (h : o.1 = 't') : (transportOf o.2).isSome = true := by
    by_contra hnone
    have hcode (names : List Char) : stopCode names o = some ErrorCode.invalidParam.value := by
      rw [stopCode, if_neg (by rw [h]; decide), if_pos h, if_neg hnone]
    cases program with
    | publisher => exact absurd ((hcode _).symm.trans hstop) (by simp)
    | subscriber => exact absurd ((hcode _).symm.trans hstop) (by simp)
  rw [set_transportType, nextTransport]
  simp only [List.mem_singleton]
  split
  · rename_i h
    obtain ⟨t, ht⟩ := Option.isSome_iff_exists.mp (hnamed h)
    rw [ht]
    rfl
  · rfl

/-- The arrays have their sizes and hold a terminator each. -/
structure Terminated (config : Config) : Prop where
  sizes : ArraySizes config
  channel : nul ∈ config.channel
  customEndpoint : nul ∈ config.customEndpoint
  aeronDir : nul ∈ config.aeronDir

theorem terminated_loaded (memory : ConfigMemory) (env : Option (List Char)) :
    Terminated (loaded memory.1 env) := by
  obtain ⟨config, hsizes⟩ := memory
  have hset : (config.aeronDir.set 0 nul).length = 256 := by
    rw [List.length_set, hsizes.aeronDir]
  have hendpoint : (config.customEndpoint.set 0 nul)[0]? = some nul := by
    rw [List.getElem?_set_self]
    rw [hsizes.customEndpoint]
    decide
  refine ⟨⟨copyField_length _ _ 256 hsizes.channel, ?_, copyField_length _ _ 256 hset⟩,
    nul_mem_copyField _ _ 256 (by decide) hsizes.channel, List.mem_of_getElem? hendpoint,
    nul_mem_copyField _ _ 256 (by decide) hset⟩
  exact (List.length_set ..).trans hsizes.customEndpoint

/-- Without an option the endpoint is the empty string, whatever the memory held. -/
theorem cString_loaded_endpoint (memory : ConfigMemory) (env : Option (List Char)) :
    cString (loaded memory.1 env).customEndpoint = [] := by
  have hterminated := terminated_loaded memory env
  apply (head?_eq_nul_iff _ (List.ne_nil_of_mem hterminated.customEndpoint)).mp
  obtain ⟨config, hsizes⟩ := memory
  have hpos : 0 < config.customEndpoint.length := by
    rw [hsizes.customEndpoint]
    decide
  change (config.customEndpoint.set 0 nul).head? = some nul
  rw [List.head?_eq_getElem?, List.getElem?_set_self hpos]

theorem cString_loaded_aeronDir (config : Config) (env : Option (List Char)) :
    cString (loaded config env).aeronDir =
      (cString (env.getD "/dev/shm/aeron".toList)).take 255 := cString_copyField _ _ 256

theorem terminated_set (config : Config) (o : Decoded) (h : Terminated config) :
    Terminated (program.set config o) := by
  have hset := setsEndpoint program
  have hchannel := hset.channel config o
  have hdir := hset.aeronDir config o
  have hendpoint := hset.customEndpoint config o
  have hsizes := h.sizes
  have hcopied : (program.set config o).customEndpoint.length = 64 ∧
      nul ∈ (program.set config o).customEndpoint := by
    rw [hendpoint]
    split
    · exact ⟨copyField_length _ _ 64 hsizes.customEndpoint,
        nul_mem_copyField _ _ 64 (by decide) hsizes.customEndpoint⟩
    · exact ⟨hsizes.customEndpoint, h.customEndpoint⟩
  exact ⟨⟨hchannel ▸ hsizes.channel, hcopied.1, hdir ▸ hsizes.aeronDir⟩,
    hchannel ▸ h.channel, hcopied.2, hdir ▸ h.aeronDir⟩

/-- The endpoint is what fits of the last argument that names one, and empty without any. -/
theorem folded_endpoint (memory : ConfigMemory) (env : Option (List Char))
    (options : List Decoded) :
    cString (options.foldl program.set (loaded memory.1 env)).customEndpoint =
      (lastArg program.endpoints options).elim [] (fun arg => (cString arg).take 63) := by
  rw [field_foldl (fun config => cString config.customEndpoint) program.endpoints
    (fun arg => (cString arg).take 63)]
  · simp only [cString_loaded_endpoint]
  · intro config o _
    rw [(setsEndpoint program).customEndpoint]
    split
    · exact cString_copyField _ _ 64
    · rfl

section Accepted

variable {program}
variable {memory : ConfigMemory} {env : Option (List Char)} {options : List Decoded}
variable {result : Config} (hparse : program.parseArgs memory.1 env options = .ok result)
include hparse

theorem accepted_terminated : Terminated result := by
  obtain ⟨_, rfl, _⟩ := (parseArgs_eq_ok_iff program memory.1 result env options).mp hparse
  exact foldl_keeps Terminated (terminated_set program) _ options (terminated_loaded memory env)

theorem accepted_valid : validateConfig result = .success :=
  ((parseArgs_eq_ok_iff program memory.1 result env options).mp hparse).2.2

theorem accepted_endpoint : cString result.customEndpoint =
    (lastArg program.endpoints options).elim [] (fun arg => (cString arg).take 63) := by
  obtain ⟨_, rfl, _⟩ := (parseArgs_eq_ok_iff program memory.1 result env options).mp hparse
  exact folded_endpoint program memory env options

theorem accepted_aeronDir :
    cString result.aeronDir = (cString (env.getD "/dev/shm/aeron".toList)).take 255 := by
  obtain ⟨_, rfl, _⟩ := (parseArgs_eq_ok_iff program memory.1 result env options).mp hparse
  have hkept : (options.foldl program.set (loaded memory.1 env)).aeronDir =
      (loaded memory.1 env).aeronDir :=
    foldl_keeps (fun config => config.aeronDir = (loaded memory.1 env).aeronDir)
      (fun config o h => ((setsEndpoint program).aeronDir config o).trans h)
      (loaded memory.1 env) options rfl
  rw [hkept, cString_loaded_aeronDir]

end Accepted

end Programs

end AeronFast.ParsedOptions
