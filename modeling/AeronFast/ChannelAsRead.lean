import AeronFast.ChannelRoundTrip

/-!
What `ChannelUri::parse` makes of the channel text of an accepted
configuration. The programs themselves never call it: they hand the text to
the C library, whose own parser is not part of the source. The endpoint a user
gives stands in the text as it is, so a bar in it ends the value early and
begins another parameter. Without a bar the text parses to what the
configuration asks for, and with one to a shorter endpoint or not at all.
-/
namespace AeronFast.ChannelAsRead

open CommonTypes ConfigParser ParsedOptions AddressFields ChannelUri UriGrammar

section FirstValues

variable {scan next : Scan} {key value : List Char}

theorem lookup_emplace (params : Params) (key' value' : List Char)
    (h : params.lookup key = some value) :
    (emplace params key' value').lookup key = some value := by
  unfold emplace
  split
  · exact h
  · rename_i hmem
    have hne : key ≠ key' := by
      rintro rfl
      exact hmem (Finmap.mem_of_lookup_eq_some h)
    rw [Finmap.lookup_insert_of_ne _ hne, h]

/-- After the media, a step changes neither it nor a value that is there. -/
theorem kept_step (i : ℕ) (c : Char) (hstate : scan.state ≠ .media)
    (h : scan.params.lookup key = some value) (hstep : step i c scan = .ok next) :
    next.state ≠ .media ∧ next.media = scan.media ∧ next.params.lookup key = some value := by
  unfold step at hstep
  split at hstep
  · rename_i hmedia
    exact absurd hmedia hstate
  · split at hstep
    · split at hstep
      · exact absurd hstep (by simp)
      · obtain rfl := Except.ok.inj hstep
        exact ⟨by simp, rfl, h⟩
    · split at hstep
      · exact absurd hstep (by simp)
      · obtain rfl := Except.ok.inj hstep
        exact ⟨hstate, rfl, h⟩
  · split at hstep
    · obtain rfl := Except.ok.inj hstep
      exact ⟨by simp, rfl, lookup_emplace _ _ _ h⟩
    · obtain rfl := Except.ok.inj hstep
      exact ⟨hstate, rfl, h⟩

theorem kept_scanFrom (i : ℕ) (text : List Char) (hstate : scan.state ≠ .media)
    (h : scan.params.lookup key = some value) (hscan : scanFrom i text scan = .ok next) :
    next.state ≠ .media ∧ next.media = scan.media ∧ next.params.lookup key = some value := by
  induction text generalizing i scan with
  | nil =>
    obtain rfl := Except.ok.inj hscan
    exact ⟨hstate, rfl, h⟩
  | cons c rest ih =>
    cases hstep : step i c scan with
    | error e => exact absurd hscan (by simp [scanFrom, hstep, bind, Except.bind])
    | ok mid =>
      simp only [scanFrom, hstep, bind, Except.bind] at hscan
      obtain ⟨hmidState, hmidMedia, hmidLookup⟩ := kept_step i c hstate h hstep
      rw [← hmidMedia]
      exact ih (i + 1) hmidState hmidLookup hscan

theorem kept_finish {uriPrefix : List Char} {uri : ChannelUri} (hstate : scan.state ≠ .media)
    (h : scan.params.lookup key = some value) (hfinish : finish uriPrefix scan = .ok uri) :
    uri.uriPrefix = uriPrefix ∧ uri.media = scan.media ∧ uri.params.lookup key = some value := by
  unfold finish at hfinish
  split at hfinish
  · rename_i hmedia
    exact absurd hmedia hstate
  · obtain rfl := Except.ok.inj hfinish
    exact ⟨rfl, rfl, lookup_emplace _ _ _ h⟩
  · exact absurd hfinish (by simp)

end FirstValues

section Endpoints

/-- The scan of what stands before the endpoint of a channel over UDP. -/
theorem scanFrom_udpEndpoint :
    scanFrom (head false).length "udp?endpoint=".toList initial =
      .ok ⟨.paramsValue, [], udpMedia, endpointParamName, ∅⟩ := rfl

theorem parse_udpScheme (text : List Char) : parse (udpScheme ++ text) =
    scanFrom ((head false).length + "udp?endpoint=".toList.length) text
      ⟨.paramsValue, [], udpMedia, endpointParamName, ∅⟩ >>= finish [] := by
  have hscheme : udpScheme ++ text = head false ++ ("udp?endpoint=".toList ++ text) := rfl
  rw [hscheme, parse_head, scanFrom_append, scanFrom_udpEndpoint]
  rfl

/-- The channel with nothing but this endpoint. -/
def endpointOnly (endpoint : List Char) : ChannelUri :=
  ⟨[], udpMedia, [(⟨endpointParamName, endpoint⟩ : Param)].toFinmap⟩

theorem parse_plain_endpoint (text : List Char) (hbar : '|' ∉ text) :
    parse (udpScheme ++ text) = .ok (endpointOnly text) := by
  have hordinary : ∀ c ∈ text, Ordinary .paramsValue c := fun c hc hc' => hbar (hc' ▸ hc)
  rw [parse_udpScheme, scanFrom_ordinary _ text _ hordinary]
  rfl

theorem lookup_endpointOnly (endpoint : List Char) :
    (endpointOnly endpoint).params.lookup endpointParamName = some endpoint := by
  rw [endpointOnly, Finmap.dlookup_list_toFinmap, List.dlookup_cons_eq]

theorem takeWhile_plain {text : List Char} (hbar : '|' ∉ text) (rest : List Char) :
    (text ++ rest).takeWhile (· ≠ '|') = text ++ rest.takeWhile (· ≠ '|') :=
  List.takeWhile_append_of_pos fun c hc => by
    simpa using fun hc' : c = '|' => hbar (hc' ▸ hc)

/-- Whatever else is read, the endpoint is what comes before the first bar. -/
theorem endpoint_read (text : List Char) (uri : ChannelUri)
    (h : parse (udpScheme ++ text) = .ok uri) : uri.uriPrefix = [] ∧ uri.media = udpMedia ∧
      uri.params.lookup endpointParamName = some (text.takeWhile (· ≠ '|')) := by
  by_cases hbar : '|' ∈ text
  · obtain ⟨before, rest, rfl, hbefore⟩ := List.eq_append_cons_of_mem hbar
    have hordinary : ∀ c ∈ before, Ordinary .paramsValue c := fun c hc hc' =>
      hbefore (hc' ▸ hc)
    have hstep : step ((head false).length + "udp?endpoint=".toList.length + before.length) '|'
        ⟨.paramsValue, before, udpMedia, endpointParamName, ∅⟩ =
          .ok ⟨.paramsKey, [], udpMedia, endpointParamName, (endpointOnly before).params⟩ := rfl
    rw [parse_udpScheme, scanFrom_append, scanFrom_ordinary _ before _ hordinary] at h
    simp only [bind, Except.bind, List.nil_append, scanFrom, hstep] at h
    split at h
    · exact absurd h (by simp)
    · rename_i last hscan
      obtain ⟨hstate, hmedia, hlookup⟩ := kept_scanFrom _ rest (by simp)
        (lookup_endpointOnly before) hscan
      obtain ⟨hqualifier, hfinish, hvalue⟩ := kept_finish hstate hlookup h
      refine ⟨hqualifier, hfinish.trans hmedia, ?_⟩
      rw [hvalue, takeWhile_plain hbefore, List.takeWhile_cons_of_neg (by simp), List.append_nil]
  · have hwhole := takeWhile_plain hbar []
    rw [List.append_nil, List.takeWhile_nil, List.append_nil] at hwhole
    rw [parse_plain_endpoint text hbar] at h
    obtain rfl := Except.ok.inj h
    rw [hwhole]
    exact ⟨rfl, rfl, lookup_endpointOnly text⟩

/-- The endpoint is read whole, with nothing besides, if and only if it has no bar. -/
theorem read_plain_iff (text : List Char) :
    parse (udpScheme ++ text) = .ok (endpointOnly text) ↔ '|' ∉ text := by
  constructor
  · intro h
    obtain ⟨-, -, hvalue⟩ := endpoint_read text _ h
    rw [lookup_endpointOnly, Option.some.injEq] at hvalue
    intro hbar
    rw [hvalue] at hbar
    simpa using List.mem_takeWhile_imp hbar
  · exact parse_plain_endpoint text

end Endpoints

section Configurations

/-- The endpoint that the channel over UDP is to have: the host and the fixed port. -/
def endpointText (config : Config) : List Char :=
  (if cString config.customEndpoint = [] then "localhost".toList
    else cString config.customEndpoint) ++ udpPort

/-- The channel that a configuration asks for. -/
def asked (config : Config) : ChannelUri :=
  match config.transportType with
  | .udp => endpointOnly (endpointText config)
  | .ipc => ⟨[], ipcMedia, [(⟨termLengthParamName, "1048576".toList⟩ : Param)].toFinmap⟩
  | .networkUdp => endpointOnly (endpointText config)

theorem endpointChannel_text (config : Config) (hne : config.customEndpoint ≠ []) :
    endpointChannel config.customEndpoint = udpScheme ++ endpointText config := by
  rw [endpointChannel_eq _ hne, endpointText]
  split
  · rfl
  · rw [udpChannel, List.append_assoc]

theorem bar_notMem_endpointText (config : Config) :
    '|' ∉ endpointText config ↔ '|' ∉ cString config.customEndpoint := by
  have hport : '|' ∉ udpPort := by decide
  unfold endpointText
  split
  · rename_i hnil
    simp [hport, hnil]
  · simp [hport]

theorem parse_ipcChannel :
    parse ipcChannel =
      .ok ⟨[], ipcMedia, [(⟨termLengthParamName, "1048576".toList⟩ : Param)].toFinmap⟩ := rfl

theorem effective_text {program : Program} {memory : ConfigMemory} {env : Option (List Char)}
    {options : List Decoded} {config : Config}
    (hparse : program.parseArgs memory.1 env options = .ok config) (buffer : List Char) :
    (getEffectiveChannel config buffer 512).map cString = some (channelText config) := by
  refine effective_channel config ?_ buffer
  rw [accepted_endpoint hparse]
  cases lastArg program.endpoints options with
  | none => exact Nat.zero_le _
  | some arg =>
    simp only [Option.elim_some, List.length_take]
    omega

end Configurations

/-- The channel text of an accepted configuration parses to what is asked for if and only if the
endpoint has no bar, and never to another media or another endpoint than the part before the
first bar. -/
theorem channel_read (program : Program) (memory : ConfigMemory) (env : Option (List Char))
    (options : List Decoded) (config : Config)
    (hparse : program.parseArgs memory.1 env options = .ok config) (buffer : List Char) :
    ∃ text, (getEffectiveChannel config buffer 512).map cString = some text ∧
      (parse text = .ok (asked config) ↔
        config.transportType = .ipc ∨ '|' ∉ cString config.customEndpoint) ∧
      ∀ uri, parse text = .ok uri → uri.uriPrefix = [] ∧ uri.media = (asked config).media ∧
        (config.transportType ≠ .ipc →
          uri.get endpointParamName = (endpointText config).takeWhile (· ≠ '|')) := by
  refine ⟨channelText config, effective_text hparse buffer, ?_⟩
  have hchannel := endpointChannel_text config
    (List.ne_nil_of_mem (accepted_terminated hparse).customEndpoint)
  have hudp : (parse (udpScheme ++ endpointText config) = .ok (endpointOnly (endpointText config)) ↔
      '|' ∉ cString config.customEndpoint) ∧
      ∀ uri, parse (udpScheme ++ endpointText config) = .ok uri → uri.uriPrefix = [] ∧
        uri.media = udpMedia ∧
        uri.get endpointParamName = (endpointText config).takeWhile (· ≠ '|') := by
    refine ⟨(read_plain_iff _).trans (bar_notMem_endpointText config), fun uri huri => ?_⟩
    obtain ⟨hqualifier, hmedia, hvalue⟩ := endpoint_read _ uri huri
    exact ⟨hqualifier, hmedia, by rw [ChannelUri.get, hvalue, Option.getD_some]⟩
  unfold channelText asked
  cases config.transportType with
  | udp =>
    simp only [hchannel, reduceCtorEq, false_or, ne_eq, not_false_eq_true, true_implies]
    exact hudp
  | ipc =>
    simp only [true_or, iff_true, ne_eq, not_true_eq_false, false_implies, and_true]
    refine ⟨parse_ipcChannel, fun uri huri => ?_⟩
    obtain rfl := Except.ok.inj (parse_ipcChannel.symm.trans huri)
    exact ⟨rfl, rfl⟩
  | networkUdp =>
    simp only [hchannel, reduceCtorEq, false_or, ne_eq, not_false_eq_true, true_implies]
    exact hudp

/-- An endpoint with a bar in it is accepted, and its text does not parse to what is asked for. -/
theorem barredEndpoint_misread :
    ∃ config text, parsePublisherArgs blankConfig none [('b', ['h', '|', 'x'])] = .ok config ∧
      (getEffectiveChannel config [] 512).map cString = some text ∧
      parse text ≠ .ok (asked config) := by
  have hparse : Program.publisher.parseArgs blankConfig none [('b', ['h', '|', 'x'])] =
      .ok (setEndpoint (loaded blankConfig none) ['h', '|', 'x']) := rfl
  obtain ⟨text, htext, hread, -⟩ :=
    channel_read .publisher blankMemory none [('b', ['h', '|', 'x'])] _ hparse []
  refine ⟨_, text, hparse, htext, mt hread.mp ?_⟩
  have hendpoint : cString (setEndpoint (loaded blankConfig none) ['h', '|', 'x']).customEndpoint =
      ['h', '|', 'x'] := by
    rw [setEndpoint, cString_copyField]
    decide
  rw [hendpoint]
  decide

end AeronFast.ChannelAsRead
