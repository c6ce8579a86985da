import AeronFast.CommonTypes
import Mathlib.Data.List.TakeWhile

/-!
Command-line configuration, from `config_parser.c`. The options arrive as the
pairs of option character and argument that `getopt_long` yields. Numeric
arguments pass through the C library conversions with their saturation and
narrowing, and every accepted configuration has passed `validateConfig`.
-/
namespace AeronFast.ConfigParser

open CommonTypes

def nul : Char := Char.ofNat 0

/-- The string a `char` array holds: its bytes before the first terminator. -/
def cString (bytes : List Char) : List Char := bytes.takeWhile (fun c => c != nul)

/-- Copy at most `n` bytes of the string and pad with terminators up to `n`. -/
def strncpy (dest src : List Char) (n : ℕ) : List Char :=
  (cString src).take n ++ List.replicate (n - (cString src).length) nul ++ dest.drop n

/-- `strncpy` into an array of the given size, then the last byte set to the terminator. -/
def copyField (dest src : List Char) (size : ℕ) : List Char :=
  (strncpy dest src (size - 1)).set (size - 1) nul

def isSpace (c : Char) : Bool :=
  c == ' ' || (9 ≤ c.toNat && c.toNat ≤ 13)

def isDigit (c : Char) : Bool := '0' ≤ c && c ≤ '9'

def digitsValue (digits : List Char) : ℕ :=
  digits.foldl (fun n c => 10 * n + (c.toNat - '0'.toNat)) 0

def signOf : List Char → Int × List Char
  | '-' :: rest => (-1, rest)
  | '+' :: rest => (1, rest)
  | rest => (1, rest)

/-- Decimal conversion that stops at the first other character and saturates
at the ends of the signed 64-bit range. -/
def strtoll (arg : List Char) : Int :=
  let (sign, rest) := signOf ((cString arg).dropWhile isSpace)
  let n := sign * (digitsValue (rest.takeWhile isDigit) : Int)
  max (-9223372036854775808) (min n 9223372036854775807)

def atoll (arg : List Char) : Int := strtoll arg

/-- `atoi` is the 64-bit conversion narrowed to `int`. -/
def atoi (arg : List Char) : Int := Int.bmod (strtoll arg) 4294967296

def setDefaultConfig (config : Config) : Config :=
  { transportType := .udp
    channel := copyField config.channel defaultChannel 256
    customEndpoint := config.customEndpoint.set 0 nul
    aeronDir := config.aeronDir.set 0 nul
    streamId := defaultStreamId
    messageSize := defaultMessageSize
    messageCount := defaultMessageCount
    targetMessageCount := defaultTargetMessageCount
    fragmentLimit := defaultFragmentLimit }

/-- `env` is the value of AERON_DIR, if it is set. -/
def loadConfigFromEnv (config : Config) (env : Option (List Char)) : Config :=
  { config with aeronDir := copyField config.aeronDir (env.getD "/dev/shm/aeron".toList) 256 }

/-- `snprintf` into a buffer of non-zero size: at most one byte less than the size, then the
terminator. -/
def snprintf (buffer : List Char) (bufferSize : ℕ) (text : List Char) : List Char :=
  text.take (bufferSize - 1) ++ nul :: buffer.drop (min text.length (bufferSize - 1) + 1)

def udpScheme : List Char := "aeron:udp?endpoint=".toList

def udpPort : List Char := ":20121".toList

/-- The text of the format `aeron:udp?endpoint=%s:20121`. -/
def udpChannel (endpoint : List Char) : List Char := udpScheme ++ cString endpoint ++ udpPort

def localhostChannel : List Char := "aeron:udp?endpoint=localhost:20121".toList

def ipcChannel : List Char := "aeron:ipc?term-length=1048576".toList

/-- The channel over UDP: that of the endpoint, or the local host when there is none. -/
def endpointChannel (customEndpoint : List Char) : List Char :=
  if customEndpoint.head? ≠ some nul then udpChannel customEndpoint else localhostChannel

/-- The buffer after the call; nothing (`NULL`) for a buffer of size zero. -/
def getEffectiveChannel (config : Config) (buffer : List Char) (bufferSize : UInt64) :
    Option (List Char) :=
  if bufferSize = 0 then none
  else
    match config.transportType with
    | .udp => some (snprintf buffer bufferSize.toNat (endpointChannel config.customEndpoint))
    | .ipc => some (snprintf buffer bufferSize.toNat ipcChannel)
    | .networkUdp =>
        some (snprintf buffer bufferSize.toNat (endpointChannel config.customEndpoint))

def validateConfig (config : Config) : ErrorCode :=
  if config.messageSize.toNat < minMessageSize then .invalidParam
  else if config.messageCount = 0 ∨ config.targetMessageCount = 0 then .invalidParam
  else if config.transportType = .networkUdp ∧ config.customEndpoint.head? = some nul then
    .invalidParam
  else .success

def setTransport (config : Config) (arg : List Char) : Except Int Config :=
  if cString arg = "UDP".toList ∨ cString arg = "udp".toList then
    .ok { config with transportType := .udp }
  else if cString arg = "IPC".toList ∨ cString arg = "ipc".toList then
    .ok { config with transportType := .ipc }
  else if cString arg = "NETWORK_UDP".toList ∨ cString arg = "network_udp".toList then
    .ok { config with transportType := .networkUdp }
  else .error ErrorCode.invalidParam.value

def setEndpoint (config : Config) (arg : List Char) : Config :=
  { config with customEndpoint := copyField config.customEndpoint arg 64 }

/-- One turn of the publisher's option switch; an error is the code it returns at once. -/
def publisherOption (config : Config) (opt : Char) (arg : List Char) : Except Int Config :=
  match opt with
  | 's' => .ok { config with messageSize := UInt64.ofInt (atoi arg) }
  | 'c' => .ok { config with messageCount := UInt64.ofInt (atoll arg) }
  | 't' => setTransport config arg
  | 'b' => .ok (setEndpoint config arg)
  | 'l' => .ok (setEndpoint config arg)
  | 'e' => .ok (setEndpoint config arg)
  | 'i' => .ok (setEndpoint config arg)
  | 'h' => .error 1
  | _ => .error ErrorCode.invalidParam.value

def subscriberOption (config : Config) (opt : Char) (arg : List Char) : Except Int Config :=
  match opt with
  | 'c' => .ok { config with targetMessageCount := UInt64.ofInt (atoll arg) }
  | 't' => setTransport config arg
  | 'o' => .ok (setEndpoint config arg)
  | 'e' => .ok (setEndpoint config arg)
  | 'i' => .ok (setEndpoint config arg)
  | 'h' => .error 1
  | _ => .error ErrorCode.invalidParam.value

/-- The option loop and the final check, over one program's option switch. -/
def parseOptions (option : Config → Char → List Char → Except Int Config) :
    Config → List (Char × List Char) → Except Int Config
  | config, [] =>
      if validateConfig config = .success then .ok config
      else .error (validateConfig config).value
  | config, (opt, arg) :: rest =>
      match option config opt arg with
      | .ok next => parseOptions option next rest
      | .error code => .error code

def parsePublisherArgs (config : Config) (env : Option (List Char))
    (options : List (Char × List Char)) : Except Int Config :=
  parseOptions publisherOption (loadConfigFromEnv (setDefaultConfig config) env) options

def parseSubscriberArgs (config : Config) (env : Option (List Char))
    (options : List (Char × List Char)) : Except Int Config :=
  parseOptions subscriberOption (loadConfigFromEnv (setDefaultConfig config) env) options

/-- The sizes of the arrays of a `config_t`; what they hold is arbitrary. -/
structure ArraySizes (config : Config) : Prop where
  channel : config.channel.length = 256
  customEndpoint : config.customEndpoint.length = 64
  aeronDir : config.aeronDir.length = 256

/-- The memory a parser is handed: a `config_t` with any contents. -/
abbrev ConfigMemory := { config : Config // ArraySizes config }

section Strings

theorem nul_notMem_cString (bytes : List Char) : nul ∉ cString bytes := by
  intro h
  have hne := List.mem_takeWhile_imp h
  simp at hne

/-- Up to a byte that is a terminator, or to the end, all is kept. -/
theorem cString_append (text rest : List Char) (htext : nul ∉ text)
    (hrest : rest.head? = none ∨ rest.head? = some nul) : cString (text ++ rest) = text := by
  have hall : ∀ c ∈ text, (c != nul) = true := by
    intro c hc
    have hne : c ≠ nul := by
      rintro rfl
      exact htext hc
    simpa using hne
  rw [cString, List.takeWhile_append_of_pos hall]
  cases rest with
  | nil => simp
  | cons c rest =>
    have hc : c = nul := by simpa using hrest
    simp [hc]

/-- An array is the empty string exactly when its first byte is the terminator. -/
theorem head?_eq_nul_iff (bytes : List Char) (hne : bytes ≠ []) :
    bytes.head? = some nul ↔ cString bytes = [] := by
  cases bytes with
  | nil => exact absurd rfl hne
  | cons c rest =>
    by_cases hc : c = nul
    · simp [cString, hc]
    · simp [cString, hc]

theorem endpointChannel_eq (customEndpoint : List Char) (hne : customEndpoint ≠ []) :
    endpointChannel customEndpoint =
      if cString customEndpoint = [] then localhostChannel else udpChannel customEndpoint := by
  simp only [endpointChannel, ne_eq, head?_eq_nul_iff customEndpoint hne, ite_not]

/-- A bounded copy is the text that fits, then terminators up to the bound, then the old tail
with its first byte terminated. -/
theorem copyField_eq (dest src : List Char) (size : ℕ) :
    copyField dest src size = (cString src).take (size - 1) ++
      (List.replicate (size - 1 - (cString src).length) nul ++
        (dest.drop (size - 1)).set 0 nul) := by
  have hlength : ((cString src).take (size - 1) ++
      List.replicate (size - 1 - (cString src).length) nul).length = size - 1 := by
    simp only [List.length_append, List.length_take, List.length_replicate]
    omega
  rw [copyField, strncpy, List.set_append_right _ _ (by omega), hlength, Nat.sub_self,
    List.append_assoc]

/-- What a bounded copy leaves in a field: the longest part of the string that fits. -/
theorem cString_copyField (dest src : List Char) (size : ℕ) :
    cString (copyField dest src size) = (cString src).take (size - 1) := by
  rw [copyField_eq]
  apply cString_append
  · intro h
    exact nul_notMem_cString src (List.mem_of_mem_take h)
  · cases size - 1 - (cString src).length with
    | zero =>
      cases dest.drop (size - 1) with
      | nil => exact Or.inl rfl
      | cons c rest => exact Or.inr rfl
    | succ n => exact Or.inr rfl

theorem copyField_length (dest src : List Char) (size : ℕ) (hdest : dest.length = size) :
    (copyField dest src size).length = size := by
  rw [copyField_eq]
  simp only [List.length_append, List.length_take, List.length_replicate, List.length_set,
    List.length_drop]
  omega

theorem nul_mem_copyField (dest src : List Char) (size : ℕ) (hsize : 0 < size)
    (hdest : dest.length = size) : nul ∈ copyField dest src size := by
  have hlength : size - 1 < (copyField dest src size).length := by
    rw [copyField_length dest src size hdest]
    omega
  have hlast : (copyField dest src size)[size - 1]? = some nul := by
    rw [copyField, List.getElem?_set_self]
    rw [copyField, List.length_set] at hlength
    exact hlength
  exact List.mem_of_getElem? hlast

/-- A text that fits is printed whole. -/
theorem cString_snprintf (buffer : List Char) (bufferSize : ℕ) (text : List Char)
    (htext : nul ∉ text) : cString (snprintf buffer bufferSize text) = text.take (bufferSize - 1) := by
  rw [snprintf]
  apply cString_append
  · intro h
    exact htext (List.mem_of_mem_take h)
  · exact Or.inr rfl

end Strings

theorem parseOptions_valid (option : Config → Char → List Char → Except Int Config)
    (config result : Config) (options : List (Char × List Char))
    (h : parseOptions option config options = .ok result) : validateConfig result = .success := by
  induction options generalizing config with
  | nil =>
    unfold parseOptions at h
    split at h
    · rename_i hv
      cases h
      exact hv
    · cases h
  | cons pair rest ih =>
    obtain ⟨opt, arg⟩ := pair
    unfold parseOptions at h
    split at h
    · exact ih _ h
    · cases h

/-- What either parser accepts has passed the final check. -/
theorem parsePublisherArgs_valid (config result : Config) (env : Option (List Char))
    (options : List (Char × List Char)) (h : parsePublisherArgs config env options = .ok result) :
    validateConfig result = .success := parseOptions_valid _ _ _ _ h

theorem parseSubscriberArgs_valid (config result : Config) (env : Option (List Char))
    (options : List (Char × List Char)) (h : parseSubscriberArgs config env options = .ok result) :
    validateConfig result = .success := parseOptions_valid _ _ _ _ h

/-- The final check passes or reports an invalid parameter, for one of four reasons. -/
theorem validateConfig_cases (config : Config) :
    (validateConfig config = .success ∧ ¬ config.messageSize.toNat < minMessageSize ∧
        ¬ config.messageCount = 0 ∧ ¬ config.targetMessageCount = 0 ∧
        ¬ (config.transportType = .networkUdp ∧ config.customEndpoint.head? = some nul)) ∨
      (validateConfig config = .invalidParam ∧ (config.messageSize.toNat < minMessageSize ∨
        config.messageCount = 0 ∨ config.targetMessageCount = 0 ∨
        (config.transportType = .networkUdp ∧ config.customEndpoint.head? = some nul))) := by
  unfold validateConfig
  split
  · rename_i hsize
    exact Or.inr ⟨rfl, Or.inl hsize⟩
  · rename_i hsize
    split
    · rename_i hcount
      rcases hcount with hcount | htarget
      · exact Or.inr ⟨rfl, Or.inr (Or.inl hcount)⟩
      · exact Or.inr ⟨rfl, Or.inr (Or.inr (Or.inl htarget))⟩
    · rename_i hcount
      simp only [not_or] at hcount
      split
      · rename_i hendpoint
        exact Or.inr ⟨rfl, Or.inr (Or.inr (Or.inr hendpoint))⟩
      · rename_i hendpoint
        exact Or.inl ⟨rfl, hsize, hcount.1, hcount.2, hendpoint⟩

theorem validateConfig_success (config : Config) (h : validateConfig config = .success) :
    minMessageSize ≤ config.messageSize.toNat ∧ 0 < config.messageCount.toNat ∧
      0 < config.targetMessageCount.toNat := by
  rcases validateConfig_cases config with ⟨_, hsize, hcount, htarget, _⟩ | ⟨hinvalid, _⟩
  · rw [← UInt64.toNat_inj] at hcount htarget
    exact ⟨by omega, Nat.pos_of_ne_zero hcount, Nat.pos_of_ne_zero htarget⟩
  · rw [hinvalid] at h
    cases h

/-- A `config_t` before parsing, here with every byte zero. -/
def blankConfig : Config where
  transportType := .udp
  channel := List.replicate 256 nul
  customEndpoint := List.replicate 64 nul
  aeronDir := List.replicate 256 nul
  streamId := 0
  messageSize := 0
  messageCount := 0
  targetMessageCount := 0
  fragmentLimit := 0

def blankMemory : ConfigMemory :=
  ⟨blankConfig, List.length_replicate, List.length_replicate, List.length_replicate⟩

/-- The defaults with the numeric fields that `-s`, `-c` and the subscriber's `-c` set. -/
def sizedConfig (size count target : UInt64) : Config :=
  { loadConfigFromEnv (setDefaultConfig blankConfig) none with
    messageSize := size
    messageCount := count
    targetMessageCount := target }

example : parsePublisherArgs blankConfig none [('s', "16".toList), ('c', "2".toList)] =
    .ok (sizedConfig 16 2 defaultTargetMessageCount) := rfl

example : parseSubscriberArgs blankConfig none [('c', "2".toList)] =
    .ok (sizedConfig defaultMessageSize defaultMessageCount 2) := rfl

end AeronFast.ConfigParser
