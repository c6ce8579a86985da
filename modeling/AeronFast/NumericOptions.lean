import AeronFast.ParsedOptions
import AeronFast.WordArithmetic

/-!
What a number on the command line turns into. It goes through the C library
conversion, for a size through a narrowing to `int`, through a cast to an
unsigned word, and only then meets the lower bound of the final check. The
conversion stops at the first character it cannot read and saturates, so the
result is the number that was typed only for plain numerals of a limited size.
-/
namespace AeronFast.NumericOptions

open CommonTypes ConfigParser ParsedOptions WordArithmetic

/-- One or more decimal digits and nothing else. -/
def Numeral (arg : List Char) : Prop :=
  cString arg ≠ [] ∧ ∀ c ∈ cString arg, isDigit c = true

instance (arg : List Char) : Decidable (Numeral arg) :=
  decidable_of_iff (cString arg ≠ [] ∧ (cString arg).all isDigit = true)
    (and_congr_right fun _ => List.all_eq_true)

/-- The number a numeral stands for. -/
def typed (arg : List Char) : ℕ := digitsValue (cString arg)

section Conversions

variable {arg : List Char}

theorem isDigit_bounds {c : Char} (h : isDigit c = true) : 48 ≤ c.toNat ∧ c.toNat ≤ 57 := by
  simp only [isDigit, Bool.and_eq_true, decide_eq_true_eq, Char.le_def] at h
  exact ⟨h.1, h.2⟩

theorem isSpace_of_isDigit {c : Char} (h : isDigit c = true) : isSpace c = false := by
  obtain ⟨hlow, _⟩ := isDigit_bounds h
  have hblank : c ≠ ' ' := by
    rintro rfl
    exact absurd hlow (by decide)
  simp only [isSpace, Bool.or_eq_false_iff, beq_eq_false_iff_ne, Bool.and_eq_false_iff,
    decide_eq_false_iff_not]
  exact ⟨hblank, Or.inr (by omega)⟩

theorem signOf_digits {digits : List Char} (h : ∀ c ∈ digits, isDigit c = true) :
    signOf digits = (1, digits) := by
  unfold signOf
  split
  · exact absurd (h '-' (by simp)) (by decide)
  · exact absurd (h '+' (by simp)) (by decide)
  · rfl

/-- A numeral is read as what it stands for, up to the largest signed word. -/
theorem strtoll_numeral (h : Numeral arg) :
    strtoll arg = min (typed arg : Int) 9223372036854775807 := by
  obtain ⟨hne, hdigits⟩ := h
  have hspace : (cString arg).dropWhile isSpace = cString arg := by
    cases htext : cString arg with
    | nil => rfl
    | cons c rest =>
      rw [htext] at hdigits
      rw [List.dropWhile_cons_of_neg (by simp [isSpace_of_isDigit (hdigits c (by simp))])]
  have htake : (cString arg).takeWhile isDigit = cString arg :=
    List.takeWhile_eq_self_iff.mpr hdigits
  simp only [strtoll, hspace, signOf_digits hdigits, htake, typed]
  omega

theorem strtoll_bounds (arg : List Char) :
    -9223372036854775808 ≤ strtoll arg ∧ strtoll arg ≤ 9223372036854775807 := by
  simp only [strtoll]
  omega

theorem count_toNat (h : Numeral arg) :
    (UInt64.ofInt (atoll arg)).toNat = min (typed arg) 9223372036854775807 := by
  rw [toNat_ofInt, atoll, strtoll_numeral h]
  omega

/-- A count is the numeral that was typed if and only if it is below 2^63. -/
theorem count_exact_iff (h : Numeral arg) :
    (UInt64.ofInt (atoll arg)).toNat = typed arg ↔ typed arg < 2 ^ 63 := by
  rw [count_toNat h]
  omega

/-- A size is the numeral that was typed if and only if that fits in an `int`, or is the one
value that saturation, narrowing and sign extension happen to produce. -/
theorem size_exact_iff (h : Numeral arg) :
    (UInt64.ofInt (atoi arg)).toNat = typed arg ↔ typed arg < 2 ^ 31 ∨ typed arg = 2 ^ 64 - 1 := by
  rw [toNat_ofInt, atoi, strtoll_numeral h, Int.bmod_def]
  split
  · omega
  · omega

/-- A count the final check takes for zero was read as zero. -/
theorem count_eq_zero_iff (arg : List Char) : UInt64.ofInt (atoll arg) = 0 ↔ atoll arg = 0 := by
  have hbounds := strtoll_bounds arg
  rw [← UInt64.toNat_inj, toNat_ofInt, atoll]
  change (strtoll arg % 18446744073709551616).toNat = 0 ↔ _
  omega

/-- A size the final check takes for too small was read as such; a negative one is not. -/
theorem size_lt_iff (arg : List Char) :
    (UInt64.ofInt (atoi arg)).toNat < minMessageSize ↔ 0 ≤ atoi arg ∧ atoi arg < 8 := by
  have hnarrow : -2147483648 ≤ atoi arg ∧ atoi arg < 2147483648 := by
    rw [atoi, Int.bmod_def]
    split
    · omega
    · omega
  rw [toNat_ofInt]
  simp only [minMessageSize, timestampSize]
  omega

end Conversions

section Fields

/-- Only the publisher has a size option. -/
def sizeNames : Program → List Char
  | .publisher => ['s']
  | .subscriber => []

/-- The count a program's `-c` sets, and the one it leaves at its default. -/
def countOf : Program → Config → UInt64
  | .publisher, config => config.messageCount
  | .subscriber, config => config.targetMessageCount

def otherCount : Program → Config → UInt64
  | .publisher, config => config.targetMessageCount
  | .subscriber, config => config.messageCount

def defaultCount : Program → UInt64
  | .publisher => defaultMessageCount
  | .subscriber => defaultTargetMessageCount

variable (program : Program) (config : Config) (o : Decoded)

theorem set_messageSize : (program.set config o).messageSize =
    if o.1 ∈ sizeNames program then UInt64.ofInt (atoi o.2) else config.messageSize := by
  cases program with
  | publisher =>
    rcases publisherSet_cases config o with ⟨hopt, h⟩ | ⟨hopt, h⟩ | ⟨hopt, h⟩ | ⟨hopt, h⟩
    · simp [Program.set, h, sizeNames, hopt]
    · simp [Program.set, h, sizeNames, hopt]
    · have hne : o.1 ≠ 's' := by
        intro heq
        rw [heq] at hopt
        exact absurd hopt (by decide)
      simp [Program.set, h, sizeNames, hne, setEndpoint]
    · have hne : o.1 ≠ 's' := fun heq => hopt (by simp [heq])
      simp [Program.set, h, sizeNames, hne]
  | subscriber =>
    rcases subscriberSet_cases config o with ⟨hopt, h⟩ | ⟨hopt, h⟩ | ⟨hopt, h⟩
    · simp [Program.set, h, sizeNames]
    · simp [Program.set, h, sizeNames, setEndpoint]
    · simp [Program.set, h, sizeNames]

theorem set_counts : countOf program (program.set config o) =
      (if o.1 ∈ ['c'] then UInt64.ofInt (atoll o.2) else countOf program config) ∧
    otherCount program (program.set config o) = otherCount program config := by
  cases program with
  | publisher =>
    rcases publisherSet_cases config o with ⟨hopt, h⟩ | ⟨hopt, h⟩ | ⟨hopt, h⟩ | ⟨hopt, h⟩
    · simp [Program.set, h, countOf, otherCount, hopt]
    · simp [Program.set, h, countOf, otherCount, hopt]
    · have hne : o.1 ≠ 'c' := by
        intro heq
        rw [heq] at hopt
        exact absurd hopt (by decide)
      simp [Program.set, h, countOf, otherCount, hne, setEndpoint]
    · have hne : o.1 ≠ 'c' := fun heq => hopt (by simp [heq])
      simp [Program.set, h, countOf, otherCount, hne]
  | subscriber =>
    rcases subscriberSet_cases config o with ⟨hopt, h⟩ | ⟨hopt, h⟩ | ⟨hopt, h⟩
    · simp [Program.set, h, countOf, otherCount, hopt]
    · have hne : o.1 ≠ 'c' := by
        intro heq
        rw [heq] at hopt
        exact absurd hopt (by decide)
      simp [Program.set, h, countOf, otherCount, hne, setEndpoint]
    · have hne : o.1 ≠ 'c' := fun heq => hopt (by simp [heq])
      simp [Program.set, h, countOf, otherCount, hne]

end Fields

section Lists

variable (program : Program) (options : List Decoded)

/-- The last argument of a numeric option of the program. -/
def LastNumber (arg : List Char) : Prop :=
  lastArg (sizeNames program) options = some arg ∨ lastArg ['c'] options = some arg

/-- Accepted numbers are what was typed, and anything else that was typed is rejected. -/
structure NumbersTyped (result : Except Int Config) : Prop where
  size : ∀ config, result = .ok config → ∀ arg, lastArg (sizeNames program) options = some arg →
    Numeral arg ∧ 0 < typed arg ∧ config.messageSize.toNat = typed arg
  count : ∀ config, result = .ok config → ∀ arg, lastArg ['c'] options = some arg →
    Numeral arg ∧ 0 < typed arg ∧ (countOf program config).toNat = typed arg
  malformed : ∀ arg, LastNumber program options arg → ¬ (Numeral arg ∧ typed arg < 2 ^ 64) →
    result = .error ErrorCode.invalidParam.value

/-- The final check turns the options down: a size read as 0 to 7, a count read as zero, or no
endpoint for NETWORK_UDP. -/
def Refused : Prop :=
  (∃ arg, lastArg (sizeNames program) options = some arg ∧ 0 ≤ atoi arg ∧ atoi arg < 8) ∨
    (∃ arg, lastArg ['c'] options = some arg ∧ atoll arg = 0) ∨
    ((lastArg ['t'] options).bind transportOf = some .networkUdp ∧
      (lastArg program.endpoints options).elim [] cString = [])

/-- Every number is a numeral that the conversions leave as it is. -/
def ReadRight : Prop :=
  (∀ arg, lastArg (sizeNames program) options = some arg →
      Numeral arg ∧ (typed arg < 2 ^ 31 ∨ typed arg = 2 ^ 64 - 1)) ∧
    ∀ arg, lastArg ['c'] options = some arg → Numeral arg ∧ typed arg < 2 ^ 63

variable (memory : ConfigMemory) (env : Option (List Char))

/-- The configuration the final check sees. -/
abbrev folded : Config := options.foldl program.set (loaded memory.1 env)

theorem folded_messageSize : (folded program options memory env).messageSize =
    (lastArg (sizeNames program) options).elim defaultMessageSize
      (fun arg => UInt64.ofInt (atoi arg)) :=
  field_foldl Config.messageSize (sizeNames program) (fun arg => UInt64.ofInt (atoi arg)) _ options
    (fun config o _ => set_messageSize program config o)

theorem folded_count : countOf program (folded program options memory env) =
    (lastArg ['c'] options).elim (defaultCount program) (fun arg => UInt64.ofInt (atoll arg)) := by
  have hstart : countOf program (loaded memory.1 env) = defaultCount program := by
    cases program with
    | publisher => rfl
    | subscriber => rfl
  rw [field_foldl (countOf program) ['c'] (fun arg => UInt64.ofInt (atoll arg)) _ options
    (fun config o _ => (set_counts program config o).1), hstart]

theorem folded_otherCount : otherCount program (folded program options memory env) ≠ 0 := by
  apply foldl_keeps (fun config => otherCount program config ≠ 0)
  · intro config o h
    rw [(set_counts program config o).2]
    exact h
  · cases program with
    | publisher => exact (by decide : defaultTargetMessageCount ≠ 0)
    | subscriber => exact (by decide : defaultMessageCount ≠ 0)

variable {program options}

theorem folded_transportType (hstop : options.findSome? program.stop = none) :
    (folded program options memory env).transportType = .networkUdp ↔
      (lastArg ['t'] options).bind transportOf = some .networkUdp := by
  rw [field_foldl Config.transportType ['t'] (fun arg => (transportOf arg).getD .udp) _ options
    (fun config o ho => set_transportType_of_stop program config o
      (List.findSome?_eq_none_iff.mp hstop o ho))]
  cases lastArg ['t'] options with
  | none => simp
  | some arg =>
    cases htransport : transportOf arg with
    | none => simp [htransport]
    | some t => simp [htransport]

theorem folded_endpoint_missing :
    (folded program options memory env).customEndpoint.head? = some nul ↔
      (lastArg program.endpoints options).elim [] cString = [] := by
  have hterminated := foldl_keeps Terminated (terminated_set program) _ options
    (terminated_loaded memory env)
  rw [head?_eq_nul_iff _ (List.ne_nil_of_mem hterminated.customEndpoint), folded_endpoint]
  cases lastArg program.endpoints options with
  | none => simp
  | some arg => simp

theorem counts_zero_iff (config : Config) (hother : otherCount program config ≠ 0) :
    (config.messageCount = 0 ∨ config.targetMessageCount = 0) ↔ countOf program config = 0 := by
  cases program with
  | publisher => exact or_iff_left hother
  | subscriber => exact or_iff_right hother

/-- The final check fails exactly for the lists it is meant to refuse. -/
theorem folded_valid_or_refused (hstop : options.findSome? program.stop = none) :
    (validateConfig (folded program options memory env) = .success ∧ ¬ Refused program options) ∨
      (validateConfig (folded program options memory env) = .invalidParam ∧
        Refused program options) := by
  have hsize : (folded program options memory env).messageSize.toNat < minMessageSize ↔
      ∃ arg, lastArg (sizeNames program) options = some arg ∧ 0 ≤ atoi arg ∧ atoi arg < 8 := by
    rw [folded_messageSize]
    cases lastArg (sizeNames program) options with
    | none => simp [minMessageSize, timestampSize, defaultMessageSize]
    | some arg => simp [size_lt_iff]
  have hcount : ((folded program options memory env).messageCount = 0 ∨
      (folded program options memory env).targetMessageCount = 0) ↔
      ∃ arg, lastArg ['c'] options = some arg ∧ atoll arg = 0 := by
    rw [counts_zero_iff _ (folded_otherCount program options memory env), folded_count]
    cases lastArg ['c'] options with
    | none =>
      have hdefault : defaultCount program ≠ 0 := by
        cases program with
        | publisher => decide
        | subscriber => decide
      simp [hdefault]
    | some arg => simp [count_eq_zero_iff]
  have htransport := folded_transportType memory env hstop
  have hendpoint : (folded program options memory env).customEndpoint.head? = some nul ↔ _ :=
    folded_endpoint_missing memory env
  have hrefused : Refused program options ↔
      (folded program options memory env).messageSize.toNat < minMessageSize ∨
        ((folded program options memory env).messageCount = 0 ∨
          (folded program options memory env).targetMessageCount = 0) ∨
        ((folded program options memory env).transportType = .networkUdp ∧
          (folded program options memory env).customEndpoint.head? = some nul) := by
    rw [hsize, hcount, htransport, hendpoint]
    rfl
  rw [hrefused]
  rcases validateConfig_cases (folded program options memory env) with
    ⟨hvalid, h1, h2, h3, h4⟩ | ⟨hinvalid, hreason⟩
  · left
    refine ⟨hvalid, ?_⟩
    rintro (h | (h | h) | h)
    · exact h1 h
    · exact h2 h
    · exact h3 h
    · exact h4 h
  · right
    refine ⟨hinvalid, ?_⟩
    rcases hreason with h | h | h | h
    · exact Or.inl h
    · exact Or.inr (Or.inl (Or.inl h))
    · exact Or.inr (Or.inl (Or.inr h))
    · exact Or.inr (Or.inr h)

/-- A list that neither ends the loop nor is refused by the final check is accepted. -/
theorem parseArgs_of_not_refused (hstop : options.findSome? program.stop = none)
    (h : ¬ Refused program options) :
    program.parseArgs memory.1 env options = .ok (folded program options memory env) := by
  rw [parseArgs_eq, hstop]
  rcases folded_valid_or_refused memory env hstop with ⟨hvalid, _⟩ | ⟨_, hrefused⟩
  · exact if_pos hvalid
  · exact absurd hrefused h

theorem not_refused_of_parse {config : Config}
    (h : program.parseArgs memory.1 env options = .ok config) : ¬ Refused program options := by
  obtain ⟨hstop, rfl, hvalid⟩ := (parseArgs_eq_ok_iff program memory.1 config env options).mp h
  rcases folded_valid_or_refused memory env hstop with ⟨_, hnot⟩ | ⟨hinvalid, _⟩
  · exact hnot
  · exact absurd (hvalid.symm.trans hinvalid) (by decide)

/-- An accepted list has the numbers that were typed exactly when all were read right. -/
theorem numbersTyped_ok_iff
    (hvalid : validateConfig (folded program options memory env) = .success) :
    NumbersTyped program options (.ok (folded program options memory env)) ↔
      ReadRight program options := by
  obtain ⟨hminSize, hcountPos, htargetPos⟩ := validateConfig_success _ hvalid
  have hcountOf : 0 < (countOf program (folded program options memory env)).toNat := by
    cases program with
    | publisher => exact hcountPos
    | subscriber => exact htargetPos
  have hsize := folded_messageSize program options memory env
  have hcount := folded_count program options memory env
  constructor
  · intro h
    constructor
    · intro arg harg
      obtain ⟨hnumeral, _, hexact⟩ := h.size _ rfl arg harg
      rw [hsize, harg] at hexact
      exact ⟨hnumeral, (size_exact_iff hnumeral).mp hexact⟩
    · intro arg harg
      obtain ⟨hnumeral, _, hexact⟩ := h.count _ rfl arg harg
      rw [hcount, harg] at hexact
      exact ⟨hnumeral, (count_exact_iff hnumeral).mp hexact⟩
  · intro h
    have hsizes : ∀ arg, lastArg (sizeNames program) options = some arg →
        Numeral arg ∧ 0 < typed arg ∧
          (folded program options memory env).messageSize.toNat = typed arg := by
      intro arg harg
      obtain ⟨hnumeral, hfits⟩ := h.1 arg harg
      have hexact := (size_exact_iff hnumeral).mpr hfits
      rw [hsize, harg, Option.elim_some] at hminSize ⊢
      rw [hexact] at hminSize
      exact ⟨hnumeral, Nat.lt_of_lt_of_le (by decide) hminSize, hexact⟩
    have hcounts : ∀ arg, lastArg ['c'] options = some arg → Numeral arg ∧ 0 < typed arg ∧
        (countOf program (folded program options memory env)).toNat = typed arg := by
      intro arg harg
      obtain ⟨hnumeral, hfits⟩ := h.2 arg harg
      have hexact := (count_exact_iff hnumeral).mpr hfits
      rw [hcount, harg, Option.elim_some] at hcountOf ⊢
      rw [hexact] at hcountOf
      exact ⟨hnumeral, hcountOf, hexact⟩
    refine ⟨?_, ?_, ?_⟩
    · intro config hconfig
      cases hconfig
      exact hsizes
    · intro config hconfig
      cases hconfig
      exact hcounts
    · rintro arg (harg | harg) hmalformed
      · obtain ⟨hnumeral, _, hexact⟩ := hsizes arg harg
        exact absurd ⟨hnumeral, hexact ▸ word_lt _⟩ hmalformed
      · obtain ⟨hnumeral, _, hexact⟩ := hcounts arg harg
        exact absurd ⟨hnumeral, hexact ▸ word_lt _⟩ hmalformed

end Lists

theorem stopCode_eq {names : List Char} {o : Decoded} {code : Int}
    (h : stopCode names o = some code) : code = 1 ∨ code = ErrorCode.invalidParam.value := by
  unfold stopCode at h
  split at h
  · exact Or.inl (Option.some.inj h).symm
  · split at h
    · split at h
      · cases h
      · exact Or.inr (Option.some.inj h).symm
    · split at h
      · cases h
      · exact Or.inr (Option.some.inj h).symm

/-- The options end the loop with the code for help, or with an invalid parameter. -/
theorem findSome?_stop_cases (program : Program) (options : List Decoded) :
    options.findSome? program.stop = none ∨ options.findSome? program.stop = some 1 ∨
      options.findSome? program.stop = some ErrorCode.invalidParam.value := by
  cases hfound : options.findSome? program.stop with
  | none => exact Or.inl rfl
  | some code =>
    obtain ⟨o, _, ho⟩ := List.exists_of_findSome?_eq_some hfound
    have hcode : code = 1 ∨ code = ErrorCode.invalidParam.value := by
      cases program with
      | publisher => exact stopCode_eq ho
      | subscriber => exact stopCode_eq ho
    rcases hcode with rfl | rfl
    · exact Or.inr (Or.inl rfl)
    · exact Or.inr (Or.inr rfl)

/-- A list that is not accepted has only its malformed numbers to answer for. -/
theorem numbersTyped_error_iff (program : Program) (options : List Decoded) (code : Int) :
    NumbersTyped program options (.error code) ↔
      ∀ arg, LastNumber program options arg → ¬ (Numeral arg ∧ typed arg < 2 ^ 64) →
        code = ErrorCode.invalidParam.value := by
  constructor
  · intro h arg harg hmalformed
    exact Except.error.inj (h.malformed arg harg hmalformed)
  · intro h
    refine ⟨?_, ?_, ?_⟩
    · intro config hok
      cases hok
    · intro config hok
      cases hok
    · intro arg harg hmalformed
      rw [h arg harg hmalformed]

/-- Numeric options mean what was typed if and only if the list is turned down with an invalid
parameter anyway, or help is asked for and the numbers are numerals of a word, or every number
that takes effect is a numeral that the conversions leave as it is. -/
theorem numbersTyped_iff (program : Program) (memory : ConfigMemory)
    (env : Option (List Char)) (options : List Decoded) :
    NumbersTyped program options (program.parseArgs memory.1 env options) ↔
      options.findSome? program.stop = some ErrorCode.invalidParam.value ∨
      (options.findSome? program.stop = some 1 ∧
        ∀ arg, LastNumber program options arg → Numeral arg ∧ typed arg < 2 ^ 64) ∨
      (options.findSome? program.stop = none ∧
        (Refused program options ∨ ReadRight program options)) := by
  rw [parseArgs_eq]
  have hinvalid := (numbersTyped_error_iff program options ErrorCode.invalidParam.value).mpr
    (fun _ _ _ => rfl)
  rcases findSome?_stop_cases program options with hstop | hstop | hstop
  · rw [hstop]
    simp only [Option.elim_none, reduceCtorEq, false_and, true_and, false_or]
    rcases folded_valid_or_refused memory env hstop with ⟨hvalid, hnot⟩ | ⟨hflawed, hrefused⟩
    · rw [checked, if_pos hvalid, numbersTyped_ok_iff memory env hvalid]
      exact (or_iff_right hnot).symm
    · rw [checked, if_neg (by rw [hflawed]; decide), hflawed]
      exact iff_of_true hinvalid (Or.inl hrefused)
  · rw [hstop]
    have hne : (some 1 : Option Int) ≠ some ErrorCode.invalidParam.value := by decide
    simp only [Option.elim_some, hne, reduceCtorEq, false_and, true_and, or_false, false_or,
      numbersTyped_error_iff]
    constructor
    · intro h arg harg
      by_contra hmalformed
      exact hne (congrArg some (h arg harg hmalformed))
    · intro h arg harg hmalformed
      exact absurd (h arg harg) hmalformed
  · rw [hstop]
    exact iff_of_true hinvalid (Or.inl rfl)

/-- A negative count is accepted as a number of messages that nobody typed. -/
theorem negativeCount_not_typed :
    ∃ config, parsePublisherArgs blankConfig none [('c', "-5".toList)] = .ok config ∧
      config.messageCount = 18446744073709551611 ∧
      ¬ NumbersTyped .publisher [('c', "-5".toList)]
        (parsePublisherArgs blankConfig none [('c', "-5".toList)]) := by
  have hparse : parsePublisherArgs blankConfig none [('c', "-5".toList)] =
      .ok (sizedConfig defaultMessageSize 18446744073709551611 defaultTargetMessageCount) := rfl
  refine ⟨_, hparse, rfl, ?_⟩
  intro h
  have hnumeral := (h.count _ hparse "-5".toList rfl).1
  exact absurd hnumeral (by decide)

end AeronFast.NumericOptions
