import AeronFast.Getopt
import AeronFast.NumericOptions

/-!
Whole command lines, through the option scanner of the C library. The usage
texts and the README write `-bind` and `-connect` with a single dash, which
the scanner takes for a cluster of short options: the publisher binds to the
endpoint `ind`, and the subscriber reads a count from `onnect` and connects to
no endpoint at all. Only the spelling with two dashes does what is documented.
-/
namespace AeronFast.DocumentedInvocations

open CommonTypes ConfigParser ParsedOptions NumericOptions Getopt

def publisherTable : Table where
  optstring := "s:c:t:b:l:e:i:h".toList
  longOptions :=
    [⟨"size".toList, true, 's'⟩, ⟨"count".toList, true, 'c'⟩, ⟨"transport".toList, true, 't'⟩,
      ⟨"bind".toList, true, 'b'⟩, ⟨"listen".toList, true, 'l'⟩, ⟨"endpoint".toList, true, 'e'⟩,
      ⟨"ip".toList, true, 'i'⟩, ⟨"help".toList, false, 'h'⟩]

def subscriberTable : Table where
  optstring := "c:t:o:e:i:h".toList
  longOptions :=
    [⟨"count".toList, true, 'c'⟩, ⟨"transport".toList, true, 't'⟩,
      ⟨"connect".toList, true, 'o'⟩, ⟨"endpoint".toList, true, 'e'⟩, ⟨"ip".toList, true, 'i'⟩,
      ⟨"help".toList, false, 'h'⟩]

def table : Program → Table
  | .publisher => publisherTable
  | .subscriber => subscriberTable

/-- The parser of a program on its whole argument vector, the program name first. -/
def parseArgv (program : Program) (ordering : OperandOrder) (config : Config)
    (env : Option (List Char)) (argv : List (List Char)) : Except Int Config :=
  program.parseArgs config env (getoptLong ordering (table program) none argv.tail)

/-- An endpoint as a user writes one: a C string that fits and is not taken for an option. -/
structure Endpoint (x : List Char) : Prop where
  nonempty : x ≠ []
  length : x.length ≤ 63
  head : x.head? ≠ some '-'
  nul : nul ∉ x

section Scans

variable (ordering : OperandOrder) (x n : List Char)

theorem scan_count (program : Program) :
    getoptLong ordering (table program) none ["-c".toList, n] = [('c', n)] := by
  have hclass : classify "-c".toList = .cluster ['c'] := by decide
  have hc : shortRequiresArg (table program).optstring 'c' = some true := by
    cases program with
    | publisher => decide
    | subscriber => decide
  rw [getoptLong_detached ordering (table program) [] n hclass hc]
  rfl

theorem scan_double_bind :
    getoptLong ordering (table .publisher) none ["--bind".toList, x, "-c".toList, n] =
      [('b', x), ('c', n)] := by
  have hclass : classify "--bind".toList = .long "bind".toList := by decide
  have hlong : scanLong publisherTable.longOptions "bind".toList = ([], some 'b') := by decide
  rw [getoptLong_long ordering (table .publisher) ["-c".toList, n] x hclass hlong,
    scan_count ordering n]

theorem scan_double_connect :
    getoptLong ordering (table .subscriber) none ["--connect".toList, x, "-c".toList, n] =
      [('o', x), ('c', n)] := by
  have hclass : classify "--connect".toList = .long "connect".toList := by decide
  have hlong : scanLong subscriberTable.longOptions "connect".toList = ([], some 'o') := by
    decide
  rw [getoptLong_long ordering (table .subscriber) ["-c".toList, n] x hclass hlong,
    scan_count ordering n]

variable {x}

/-- The endpoint is passed over as an operand, or ends the scan. -/
theorem scan_single_bind (hx : x.head? ≠ some '-') :
    getoptLong ordering (table .publisher) none ["-bind".toList, x, "-c".toList, n] =
      match ordering with
      | .permute => [('b', "ind".toList), ('c', n)]
      | .requireOrder => [('b', "ind".toList)] := by
  have hclass : classify "-bind".toList = .cluster ('b' :: "ind".toList) := by decide
  have hb : shortRequiresArg publisherTable.optstring 'b' = some true := by decide
  rw [getoptLong_attached ordering (table .publisher) [x, "-c".toList, n] hclass (by decide) hb,
    getoptLong_operand ordering (table .publisher) ["-c".toList, n] hx, scan_count ordering n]
  cases ordering with
  | permute => rfl
  | requireOrder => rfl

theorem scan_single_connect (hx : x.head? ≠ some '-') :
    getoptLong ordering (table .subscriber) none ["-connect".toList, x, "-c".toList, n] =
      match ordering with
      | .permute => [('c', "onnect".toList), ('c', n)]
      | .requireOrder => [('c', "onnect".toList)] := by
  have hclass : classify "-connect".toList = .cluster ('c' :: "onnect".toList) := by decide
  have hc : shortRequiresArg subscriberTable.optstring 'c' = some true := by decide
  rw [getoptLong_attached ordering (table .subscriber) [x, "-c".toList, n] hclass (by decide) hc,
    getoptLong_operand ordering (table .subscriber) ["-c".toList, n] hx, scan_count ordering n]
  cases ordering with
  | permute => rfl
  | requireOrder => rfl

end Scans

section Parses

variable (program : Program) (options : List Decoded) {n : List Char}
variable (memory : ConfigMemory) (env : Option (List Char))

/-- A list without sizes and transports whose last count is a numeral is accepted with it. -/
theorem exists_parse (hstop : options.findSome? program.stop = none)
    (hsize : lastArg (sizeNames program) options = none)
    (htransport : lastArg ['t'] options = none) (hcount : lastArg ['c'] options = some n)
    (hn : Numeral n) (hpos : 0 < typed n) (hlt : typed n < 2 ^ 63) :
    ∃ config, program.parseArgs memory.1 env options = .ok config ∧
      cString config.customEndpoint =
        (lastArg program.endpoints options).elim [] (fun arg => (cString arg).take 63) ∧
      (countOf program config).toNat = typed n := by
  have hread : atoll n = typed n := by
    rw [atoll, strtoll_numeral hn]
    omega
  have haccepted : ¬ Refused program options := by
    rintro (⟨arg, harg, _⟩ | ⟨arg, harg, hzero⟩ | ⟨hnetwork, _⟩)
    · rw [hsize] at harg
      cases harg
    · rw [hcount] at harg
      cases harg
      omega
    · rw [htransport] at hnetwork
      cases hnetwork
  refine ⟨_, parseArgs_of_not_refused memory env hstop haccepted,
    folded_endpoint program memory env options, ?_⟩
  rw [folded_count, hcount]
  exact (count_exact_iff hn).mpr hlt

theorem cString_endpoint {x : List Char} (hx : Endpoint x) : (cString x).take 63 = x := by
  have hwhole : cString x = x := by
    simpa using cString_append x [] hx.nul (Or.inl rfl)
  rw [hwhole, List.take_of_length_le hx.length]

end Parses

/-- A command line of the program parses with the given endpoint and count. -/
def ParsesAs (program : Program) (ordering : OperandOrder) (memory : ConfigMemory)
    (env : Option (List Char)) (argv : List (List Char)) (x n : List Char) : Prop :=
  ∃ config, parseArgv program ordering memory.1 env argv = .ok config ∧
    cString config.customEndpoint = x ∧ (countOf program config).toNat = typed n

section Forms

variable {ordering : OperandOrder} {memory : ConfigMemory} {env : Option (List Char)}
variable {name x n : List Char}

theorem double_bind_parses (hx : Endpoint x) (hn : Numeral n) (hpos : 0 < typed n)
    (hlt : typed n < 2 ^ 63) :
    ParsesAs .publisher ordering memory env [name, "--bind".toList, x, "-c".toList, n] x n := by
  obtain ⟨config, hparse, hendpoint, hcount⟩ :=
    exists_parse .publisher [('b', x), ('c', n)] memory env rfl rfl rfl rfl hn hpos hlt
  refine ⟨config, ?_, hendpoint.trans (cString_endpoint hx), hcount⟩
  rw [parseArgv, List.tail_cons, scan_double_bind]
  exact hparse

theorem double_connect_parses (hx : Endpoint x) (hn : Numeral n) (hpos : 0 < typed n)
    (hlt : typed n < 2 ^ 63) :
    ParsesAs .subscriber ordering memory env [name, "--connect".toList, x, "-c".toList, n] x n := by
  obtain ⟨config, hparse, hendpoint, hcount⟩ :=
    exists_parse .subscriber [('o', x), ('c', n)] memory env rfl rfl rfl rfl hn hpos hlt
  refine ⟨config, ?_, hendpoint.trans (cString_endpoint hx), hcount⟩
  rw [parseArgv, List.tail_cons, scan_double_connect]
  exact hparse

/-- With a single dash the publisher binds to `ind`, and where operands end the scan it does
not see the count. -/
theorem single_bind_parses_iff (hx : Endpoint x) (hn : Numeral n) (hpos : 0 < typed n)
    (hlt : typed n < 2 ^ 63) :
    ParsesAs .publisher ordering memory env [name, "-bind".toList, x, "-c".toList, n] x n ↔
      x = "ind".toList ∧ (ordering = .permute ∨ typed n = 1000000) := by
  have hscan := scan_single_bind ordering n hx.head
  unfold ParsesAs
  rw [parseArgv, List.tail_cons, hscan]
  cases ordering with
  | permute =>
    obtain ⟨config, hparse, hendpoint, hcount⟩ := exists_parse .publisher
      [('b', "ind".toList), ('c', n)] memory env rfl rfl rfl rfl hn hpos hlt
    have hind : cString config.customEndpoint = "ind".toList := hendpoint
    have htyped : (countOf .publisher config).toNat = typed n := hcount
    simp only [hparse, Except.ok.injEq, exists_eq_left', hind, htyped, true_or, and_true]
    exact eq_comm
  | requireOrder =>
    have haccepted : ¬ Refused .publisher [('b', "ind".toList)] := by
      rintro (⟨_, harg, _⟩ | ⟨_, harg, _⟩ | ⟨harg, _⟩)
      · cases harg
      · cases harg
      · cases harg
    have hparse := parseArgs_of_not_refused memory env rfl haccepted
    have hind : cString (folded .publisher [('b', "ind".toList)] memory env).customEndpoint =
        "ind".toList := folded_endpoint .publisher memory env [('b', "ind".toList)]
    have hcount : countOf .publisher (folded .publisher [('b', "ind".toList)] memory env) =
        defaultMessageCount := folded_count .publisher [('b', "ind".toList)] memory env
    have hdefault : defaultMessageCount.toNat = 1000000 := rfl
    simp only [hparse, Except.ok.injEq, exists_eq_left', hind, hcount, hdefault, reduceCtorEq,
      false_or]
    exact and_congr eq_comm eq_comm

/-- With a single dash the subscriber has no endpoint, or is refused for its count. -/
theorem single_connect_not_parses (hx : Endpoint x) :
    ¬ ParsesAs .subscriber ordering memory env
      [name, "-connect".toList, x, "-c".toList, n] x n := by
  have hscan := scan_single_connect ordering n hx.head
  unfold ParsesAs
  rw [parseArgv, List.tail_cons, hscan]
  rintro ⟨config, hparse, hendpoint, _⟩
  cases ordering with
  | permute =>
    have hempty := accepted_endpoint hparse
    rw [hendpoint] at hempty
    exact hx.nonempty hempty
  | requireOrder =>
    have hrefused : Refused .subscriber [('c', "onnect".toList)] :=
      Or.inr (Or.inl ⟨"onnect".toList, rfl, by decide⟩)
    exact not_refused_of_parse memory env hparse hrefused

end Forms

section Documented

variable (ordering : OperandOrder) (memory : ConfigMemory) (env : Option (List Char))
variable (publisherName subscriberName x n : List Char)

/-- All four spellings parse as the usage texts and the README have it. -/
structure Documented : Prop where
  singleBind : ParsesAs .publisher ordering memory env
    [publisherName, "-bind".toList, x, "-c".toList, n] x n
  doubleBind : ParsesAs .publisher ordering memory env
    [publisherName, "--bind".toList, x, "-c".toList, n] x n
  singleConnect : ParsesAs .subscriber ordering memory env
    [subscriberName, "-connect".toList, x, "-c".toList, n] x n
  doubleConnect : ParsesAs .subscriber ordering memory env
    [subscriberName, "--connect".toList, x, "-c".toList, n] x n

/-- For no endpoint and no count do all documented invocations parse as documented. The ones
with two dashes always do, the subscriber's with one dash never does, and the publisher's only
for the endpoint that its own name spells. -/
theorem never_documented (hx : Endpoint x) (hn : Numeral n) (hpos : 0 < typed n)
    (hlt : typed n < 2 ^ 63) :
    ¬ Documented ordering memory env publisherName subscriberName x n ∧
      ParsesAs .publisher ordering memory env
        [publisherName, "--bind".toList, x, "-c".toList, n] x n ∧
      ParsesAs .subscriber ordering memory env
        [subscriberName, "--connect".toList, x, "-c".toList, n] x n ∧
      (ParsesAs .publisher ordering memory env
          [publisherName, "-bind".toList, x, "-c".toList, n] x n ↔
        x = "ind".toList ∧ (ordering = .permute ∨ typed n = 1000000)) ∧
      ¬ ParsesAs .subscriber ordering memory env
        [subscriberName, "-connect".toList, x, "-c".toList, n] x n := by
  have hconnect : ¬ ParsesAs .subscriber ordering memory env
      [subscriberName, "-connect".toList, x, "-c".toList, n] x n := single_connect_not_parses hx
  exact ⟨fun h => hconnect h.singleConnect, double_bind_parses hx hn hpos hlt,
    double_connect_parses hx hn hpos hlt, single_bind_parses_iff hx hn hpos hlt, hconnect⟩

end Documented

/-- The example of the publisher's usage text. -/
theorem usageExample_parses :
    ParsesAs .publisher .permute blankMemory none
      ["binary_publisher".toList, "--bind".toList, "0.0.0.0".toList, "-c".toList,
        "10000000".toList] "0.0.0.0".toList "10000000".toList :=
  (never_documented .permute blankMemory none "binary_publisher".toList "binary_subscriber".toList
    "0.0.0.0".toList "10000000".toList ⟨by decide, by decide, by decide, by decide⟩ (by decide)
    (by decide) (by decide)).2.1

/-- The same example as the usage text spells it: the publisher will bind to `ind`. -/
theorem usageExample_not_documented :
    (∃ config, parseArgv .publisher .permute blankConfig none
        ["binary_publisher".toList, "-bind".toList, "0.0.0.0".toList, "-c".toList,
          "10000000".toList] = .ok config ∧
      cString config.customEndpoint = "ind".toList) ∧
    ¬ Documented .permute blankMemory none "binary_publisher".toList "binary_subscriber".toList
      "0.0.0.0".toList "10000000".toList := by
  refine ⟨⟨_, rfl, by decide⟩, ?_⟩
  intro h
  obtain ⟨config, hparse, hendpoint, _⟩ := h.singleConnect
  have hempty : cString config.customEndpoint = [] := accepted_endpoint hparse
  rw [hendpoint] at hempty
  exact absurd hempty (by decide)

end AeronFast.DocumentedInvocations
