import AeronFast.ParsedOptions
import Mathlib.Data.List.TakeDrop

/-!
What becomes of the addresses a user gives. Both parsers and the environment
go through one bounded copy, so a field holds the longest part of its value
that fits: a value that is too long is neither rejected nor noticed, it is
treated as the shortened one. The channel adds nothing to that, since its
buffer has room for every endpoint a field can hold.
-/
namespace AeronFast.AddressFields

open CommonTypes ConfigParser ParsedOptions

/-- The directory the parser is asked for. -/
def givenDir (env : Option (List Char)) : List Char := cString (env.getD "/dev/shm/aeron".toList)

/-- The text of the channel, before it is written to a buffer. -/
def channelText (config : Config) : List Char :=
  match config.transportType with
  | .udp => endpointChannel config.customEndpoint
  | .ipc => ipcChannel
  | .networkUdp => endpointChannel config.customEndpoint

section Channel

theorem getEffectiveChannel_text (config : Config) (buffer : List Char) (bufferSize : UInt64)
    (hsize : bufferSize ≠ 0) : getEffectiveChannel config buffer bufferSize =
      some (snprintf buffer bufferSize.toNat (channelText config)) := by
  unfold getEffectiveChannel channelText
  rw [if_neg hsize]
  cases config.transportType with
  | udp => rfl
  | ipc => rfl
  | networkUdp => rfl

theorem nul_notMem_udpChannel (endpoint : List Char) : nul ∉ udpChannel endpoint := by
  have hscheme : nul ∉ udpScheme := by decide
  have hport : nul ∉ udpPort := by decide
  have hendpoint := nul_notMem_cString endpoint
  simp [udpChannel, hscheme, hport, hendpoint]

theorem nul_notMem_channelText (config : Config) : nul ∉ channelText config := by
  have hendpoint : nul ∉ endpointChannel config.customEndpoint := by
    unfold endpointChannel
    split
    · exact nul_notMem_udpChannel _
    · decide
  unfold channelText
  cases config.transportType with
  | udp => exact hendpoint
  | ipc => exact (by decide : nul ∉ ipcChannel)
  | networkUdp => exact hendpoint

theorem udpChannel_length (endpoint : List Char) :
    (udpChannel endpoint).length = (cString endpoint).length + 25 := by
  have hscheme : udpScheme.length = 19 := by decide
  have hport : udpPort.length = 6 := by decide
  rw [udpChannel, List.length_append, List.length_append, hscheme, hport]
  omega

/-- The longest channel is that of an endpoint of 63 bytes. -/
theorem channelText_length (config : Config)
    (hendpoint : (cString config.customEndpoint).length ≤ 63) :
    (channelText config).length ≤ 88 := by
  have htext : (endpointChannel config.customEndpoint).length ≤ 88 := by
    unfold endpointChannel
    split
    · rw [udpChannel_length]
      omega
    · decide
  unfold channelText
  cases config.transportType with
  | udp => exact htext
  | ipc => exact (by decide : ipcChannel.length ≤ 88)
  | networkUdp => exact htext

/-- The buffer of either `main` has room for the whole channel. -/
theorem effective_channel (config : Config)
    (hendpoint : (cString config.customEndpoint).length ≤ 63) (buffer : List Char) :
    (getEffectiveChannel config buffer 512).map cString = some (channelText config) := by
  have hlength := channelText_length config hendpoint
  have hsize : (512 : UInt64).toNat = 512 := rfl
  rw [getEffectiveChannel_text config buffer 512 (by decide), hsize, Option.map_some,
    cString_snprintf _ _ _ (nul_notMem_channelText config), List.take_of_length_le (by omega)]

end Channel

section Shortening

/-- The value with what does not fit in the endpoint field cut off. -/
def shorten (endpoints : List Char) (o : Decoded) : Decoded :=
  if o.1 ∈ endpoints then (o.1, (cString o.2).take 63) else o

/-- A bounded copy does not see what it has no room for. -/
theorem copyField_take (dest src : List Char) (size : ℕ) :
    copyField dest ((cString src).take (size - 1)) size = copyField dest src size := by
  have hkept : cString ((cString src).take (size - 1)) = (cString src).take (size - 1) := by
    have hnul : nul ∉ (cString src).take (size - 1) := fun h =>
      nul_notMem_cString src (List.mem_of_mem_take h)
    simpa using cString_append _ [] hnul (Or.inl rfl)
  have hpad : size - 1 - ((cString src).take (size - 1)).length =
      size - 1 - (cString src).length := by
    rw [List.length_take]
    omega
  rw [copyField_eq, copyField_eq, hkept, List.take_take, Nat.min_self, hpad]

theorem setEndpoint_take (config : Config) (arg : List Char) :
    setEndpoint config ((cString arg).take 63) = setEndpoint config arg := by
  have hcopy := copyField_take config.customEndpoint arg 64
  simp only [setEndpoint, ← hcopy]

theorem option_shorten (program : Program) (config : Config) (o : Decoded) :
    program.option config (shorten program.endpoints o).1 (shorten program.endpoints o).2 =
      program.option config o.1 o.2 := by
  obtain ⟨opt, arg⟩ := o
  have hset : (.ok (setEndpoint config ((cString arg).take 63)) : Except Int Config) =
      .ok (setEndpoint config arg) := congrArg Except.ok (setEndpoint_take config arg)
  unfold shorten
  split
  · rename_i hmem
    cases program with
    | publisher =>
      simp only [Program.endpoints, publisherEndpoints, List.mem_cons, List.not_mem_nil,
        or_false] at hmem
      rcases hmem with rfl | rfl | rfl | rfl
      · exact hset
      · exact hset
      · exact hset
      · exact hset
    | subscriber =>
      simp only [Program.endpoints, subscriberEndpoints, List.mem_cons, List.not_mem_nil,
        or_false] at hmem
      rcases hmem with rfl | rfl | rfl
      · exact hset
      · exact hset
      · exact hset
  · rfl

theorem loaded_shorten (config : Config) (env : Option (List Char)) :
    loaded config (env.map (fun dir => (cString dir).take 255)) = loaded config env := by
  cases env with
  | none => rfl
  | some dir =>
    have hcopy := copyField_take (setDefaultConfig config).aeronDir dir 256
    simp only [loaded, loadConfigFromEnv, Option.map_some, Option.getD_some, ← hcopy]

end Shortening

section Accepted

variable (program : Program) (env : Option (List Char)) (options : List Decoded)

/-- Every address is the one that was given, to its last byte. -/
structure Whole (config : Config) : Prop where
  aeronDir : cString config.aeronDir = givenDir env
  customEndpoint : ∀ arg, lastArg program.endpoints options = some arg →
    cString config.customEndpoint = cString arg
  channel : ∀ arg, lastArg program.endpoints options = some arg → cString arg ≠ [] →
    config.transportType ≠ .ipc → ∀ buffer,
    (getEffectiveChannel config buffer 512).map cString =
      some ("aeron:udp?endpoint=".toList ++ cString arg ++ ":20121".toList)

/-- Every address is the longest part of the given one that its field has room for. -/
structure Shortened (config : Config) : Prop where
  aeronDir : cString config.aeronDir = (givenDir env).take 255
  customEndpoint : ∀ arg, lastArg program.endpoints options = some arg →
    cString config.customEndpoint = (cString arg).take 63
  channel : ∀ arg, lastArg program.endpoints options = some arg → cString arg ≠ [] →
    config.transportType ≠ .ipc → ∀ buffer,
    (getEffectiveChannel config buffer 512).map cString =
      some ("aeron:udp?endpoint=".toList ++ (cString arg).take 63 ++ ":20121".toList)

/-- The given addresses have room in their fields. -/
structure Fits : Prop where
  aeronDir : (givenDir env).length ≤ 255
  customEndpoint : ∀ arg, lastArg program.endpoints options = some arg →
    (cString arg).length ≤ 63

variable {program env options}

theorem shortened_of_accepted {memory : ConfigMemory} {config : Config}
    (hparse : program.parseArgs memory.1 env options = .ok config) :
    Shortened program env options config := by
  have hendpoint : ∀ arg, lastArg program.endpoints options = some arg →
      cString config.customEndpoint = (cString arg).take 63 := by
    intro arg harg
    rw [accepted_endpoint hparse, harg]
    rfl
  refine ⟨accepted_aeronDir hparse, hendpoint, ?_⟩
  intro arg harg hne htransport buffer
  have hstored := hendpoint arg harg
  have hlength : (cString config.customEndpoint).length ≤ 63 := by
    rw [hstored, List.length_take]
    omega
  have hstoredNe : cString config.customEndpoint ≠ [] := by
    rw [hstored]
    simpa using hne
  have hchannel : endpointChannel config.customEndpoint =
      udpScheme ++ (cString arg).take 63 ++ udpPort := by
    rw [endpointChannel_eq _ (List.ne_nil_of_mem (accepted_terminated hparse).customEndpoint),
      if_neg hstoredNe, udpChannel, hstored]
  have htext : channelText config = endpointChannel config.customEndpoint := by
    unfold channelText
    cases hcase : config.transportType with
    | udp => rfl
    | ipc => exact absurd hcase htransport
    | networkUdp => rfl
  rw [effective_channel config hlength buffer, htext, hchannel]
  rfl

theorem whole_iff_fits {config : Config} (h : Shortened program env options config) :
    Whole program env options config ↔ Fits program env options := by
  constructor
  · intro hwhole
    refine ⟨?_, ?_⟩
    · have hdir := h.aeronDir.symm.trans hwhole.aeronDir
      exact (List.take_eq_self_iff _).mp hdir
    · intro arg harg
      have hendpoint := (h.customEndpoint arg harg).symm.trans (hwhole.customEndpoint arg harg)
      exact (List.take_eq_self_iff _).mp hendpoint
  · intro hfits
    refine ⟨?_, ?_, ?_⟩
    · rw [h.aeronDir, List.take_of_length_le hfits.aeronDir]
    · intro arg harg
      rw [h.customEndpoint arg harg, List.take_of_length_le (hfits.customEndpoint arg harg)]
    · intro arg harg hne htransport buffer
      rw [h.channel arg harg hne htransport buffer,
        List.take_of_length_le (hfits.customEndpoint arg harg)]

end Accepted

/-- Either parser treats an address that is too long exactly as the part of it that fits, and
an accepted configuration holds that part: the whole of it if and only if it fits. -/
theorem addresses_shortened (program : Program) (memory : ConfigMemory)
    (env : Option (List Char)) (options : List Decoded) :
    program.parseArgs memory.1 env options =
        program.parseArgs memory.1 (env.map (fun dir => (cString dir).take 255))
          (options.map (shorten program.endpoints)) ∧
      ∀ config, program.parseArgs memory.1 env options = .ok config →
        Shortened program env options config ∧
          (Whole program env options config ↔ Fits program env options) := by
  constructor
  · rw [parseArgs_def, parseArgs_def, loaded_shorten, parseOptions_map _ (option_shorten program)]
  · intro config hparse
    have hshortened := shortened_of_accepted hparse
    exact ⟨hshortened, whole_iff_fits hshortened⟩

/-- A publisher asked to bind to an endpoint of 64 bytes is accepted with 63 of them. -/
theorem longEndpoint_not_whole :
    ∃ config, parsePublisherArgs blankConfig none [('b', List.replicate 64 'a')] = .ok config ∧
      ¬ Whole .publisher none [('b', List.replicate 64 'a')] config := by
  refine ⟨setEndpoint (loaded blankConfig none) (List.replicate 64 'a'), rfl, ?_⟩
  intro hwhole
  have hstored := hwhole.customEndpoint (List.replicate 64 'a') rfl
  rw [setEndpoint, cString_copyField] at hstored
  exact absurd hstored (by decide)

/-- The 63 bytes it keeps are what the theorem says of an address that does not fit. -/
theorem longEndpoint_shortened :
    ∃ config, parsePublisherArgs blankConfig none [('b', List.replicate 64 'a')] = .ok config ∧
      Shortened .publisher none [('b', List.replicate 64 'a')] config ∧
      ¬ Fits .publisher none [('b', List.replicate 64 'a')] ∧
      cString config.customEndpoint = List.replicate 63 'a' := by
  refine ⟨setEndpoint (loaded blankConfig none) (List.replicate 64 'a'), rfl, ?_⟩
  have h : Shortened .publisher none [('b', List.replicate 64 'a')]
      (setEndpoint (loaded blankConfig none) (List.replicate 64 'a')) :=
    ((addresses_shortened .publisher blankMemory none [('b', List.replicate 64 'a')]).2 _ rfl).1
  refine ⟨h, ?_, ?_⟩
  · intro hfits
    exact absurd (hfits.customEndpoint (List.replicate 64 'a') rfl) (by decide)
  · rw [h.customEndpoint (List.replicate 64 'a') rfl]
    rfl

end AeronFast.AddressFields
