import AeronFast.CommandGrammar
import AeronFast.DocumentedInvocations

/-!
The command lines of the two programs, letter by letter. Each of their options
may be typed in four ways, with a long name cut off anywhere that leaves it
unambiguous; however they are typed and mixed, the parser sees the same list of
options. And a command line is accepted only if it is such a list.
-/
namespace AeronFast.AcceptedArgv

open CommonTypes ConfigParser ParsedOptions Getopt DocumentedInvocations CommandGrammar

theorem orderly_table (program : Program) : Orderly (table program) := by
  cases program with
  | publisher =>
    constructor
    · unfold Takes
      decide
    · unfold Takes
      decide
    · unfold Takes
      decide
    · decide
    · decide
  | subscriber =>
    constructor
    · unfold Takes
      decide
    · unfold Takes
      decide
    · unfold Takes
      decide
    · decide
    · decide

/-- The options that the parsers read an argument for. -/
def letters : Program → List Char
  | .publisher => ['s', 'c', 't', 'b', 'l', 'e', 'i']
  | .subscriber => ['c', 't', 'o', 'e', 'i']

/-- Both tables give each letter an argument, and none of them is a dash. -/
theorem letters_all (program : Program) : (letters program).all (fun c =>
    decide (shortRequiresArg (table program).optstring c = some true) && decide (c ≠ '-')) =
      true := by
  cases program with
  | publisher => decide
  | subscriber => decide

theorem takes_of_letters (program : Program) {c : Char} (hc : c ∈ letters program) :
    Takes (table program) c ∧ c ≠ '-' := by
  have hboth := List.all_eq_true.mp (letters_all program) c hc
  rw [Bool.and_eq_true, decide_eq_true_eq, decide_eq_true_eq] at hboth
  exact hboth

theorem letter_of_stopCode {names : List Char} {o : Decoded} (h : stopCode names o = none) :
    o.1 = 't' ∨ o.1 ∈ names := by
  unfold stopCode at h
  split at h
  · cases h
  · split at h
    · rename_i ht
      exact Or.inl ht
    · split at h
      · rename_i hmem
        exact Or.inr hmem
      · cases h

/-- An option that does not end the parse is one of the letters. -/
theorem letters_of_stop {program : Program} {o : Decoded} (h : program.stop o = none) :
    o.1 ∈ letters program := by
  cases program with
  | publisher =>
    rcases letter_of_stopCode h with ht | hmem
    · rw [ht]
      decide
    · have hsub : 's' :: 'c' :: publisherEndpoints ⊆ letters .publisher := by
        simp [letters, publisherEndpoints]
      exact hsub hmem
  | subscriber =>
    rcases letter_of_stopCode h with ht | hmem
    · rw [ht]
      decide
    · have hsub : 'c' :: subscriberEndpoints ⊆ letters .subscriber := by
        simp [letters, subscriberEndpoints]
      exact hsub hmem

/-- A command line is accepted exactly if it is well formed and its options are accepted. -/
theorem accepted_iff_reads (program : Program) (ordering : OperandOrder) (memory : ConfigMemory)
    (env : Option (List Char)) (argv : List (List Char)) (config : Config) :
    parseArgv program ordering memory.1 env argv = .ok config ↔
      ∃ options, Reads ordering (table program) argv.tail options ∧
        program.parseArgs memory.1 env options = .ok config := by
  constructor
  · intro hparse
    refine ⟨_, reads_of_getoptLong (orderly_table program) _ ?_, hparse⟩
    have hstop := ((parseArgs_eq_ok_iff program memory.1 config env _).mp hparse).1
    intro o ho
    have hletter := letters_of_stop (List.findSome?_eq_none_iff.mp hstop o ho)
    exact (takes_of_letters program hletter).1
  · rintro ⟨options, hreads, hparse⟩
    rw [parseArgv, (getoptLong_of_reads (orderly_table program) hreads).1]
    exact hparse

section Spellings

/-- The ways to type an option, a long name by some beginning of it. -/
inductive Spelling
  | detached
  | attached
  | long (text : List Char)
  | equals (text : List Char)
  deriving DecidableEq, Repr

/-- The elements of the command line for an option. -/
def spell : Spelling × Decoded → List (List Char)
  | (.detached, (c, arg)) => [['-', c], arg]
  | (.attached, (c, arg)) => ['-' :: c :: arg]
  | (.long text, (_, arg)) => ['-' :: '-' :: text, arg]
  | (.equals text, (_, arg)) => ['-' :: '-' :: (text ++ '=' :: arg)]

/-- A beginning of the long name of the option. The subscriber has two names that begin with
`co`, so those need a third letter. -/
def Begins (program : Program) (text : List Char) (c : Char) : Prop :=
  text ≠ [] ∧ (program = .subscriber → text ≠ "c".toList ∧ text ≠ "co".toList) ∧
    ∃ o ∈ (table program).longOptions, o.val = c ∧ text <+: o.name

instance (program : Program) (text : List Char) (c : Char) : Decidable (Begins program text c) :=
  inferInstanceAs (Decidable (text ≠ [] ∧
    (program = .subscriber → text ≠ "c".toList ∧ text ≠ "co".toList) ∧
    ∃ o ∈ (table program).longOptions, o.val = c ∧ text <+: o.name))

/-- An attached argument cannot be empty. -/
def Spells (program : Program) : Spelling × Decoded → Prop
  | (.detached, (c, _)) => c ∈ letters program
  | (.attached, (c, arg)) => c ∈ letters program ∧ arg ≠ []
  | (.long text, (c, _)) => c ∈ letters program ∧ Begins program text c
  | (.equals text, (c, _)) => c ∈ letters program ∧ Begins program text c

instance (program : Program) : DecidablePred (Spells program)
  | (.detached, (c, _)) => inferInstanceAs (Decidable (c ∈ letters program))
  | (.attached, (c, arg)) => inferInstanceAs (Decidable (c ∈ letters program ∧ arg ≠ []))
  | (.long text, (c, _)) =>
      inferInstanceAs (Decidable (c ∈ letters program ∧ Begins program text c))
  | (.equals text, (c, _)) =>
      inferInstanceAs (Decidable (c ∈ letters program ∧ Begins program text c))

theorem abbreviates_of_begins {program : Program} {text : List Char} {c : Char}
    (hc : c ∈ letters program) (h : Begins program text c) :
    ∃ o, Abbreviates (table program) text o ∧ o.requiresArg = true ∧ o.val = c ∧ text ≠ [] ∧
      '=' ∉ text := by
  obtain ⟨htext, hlong, o, ho, rfl, hbegins⟩ := h
  have hinit := (List.mem_inits text o.name).mpr hbegins
  have hall : (∀ o ∈ (table program).longOptions, o.val ∈ letters program →
      o.requiresArg = true ∧ ∀ text ∈ o.name.inits, '=' ∉ text ∧ (text ≠ [] →
        (program = .subscriber → text ≠ "c".toList ∧ text ≠ "co".toList) →
        ∀ other ∈ (table program).longOptions, text <+: other.name → other = o)) := by
    cases program with
    | publisher => decide
    | subscriber => decide
  obtain ⟨hrequires, hinits⟩ := hall o ho hc
  obtain ⟨hequals, honly⟩ := hinits text hinit
  exact ⟨o, ⟨ho, hbegins, honly htext hlong⟩, hrequires, rfl, htext, hequals⟩

theorem reads_spelled {program : Program} (ordering : OperandOrder) {rest : List (List Char)}
    (hrest : rest = [] ∨ rest.head? = some ['-', '-']) (typed : List (Spelling × Decoded))
    (h : ∀ x ∈ typed, Spells program x) :
    Reads ordering (table program) (typed.flatMap spell ++ rest) (typed.map Prod.snd) := by
  induction typed with
  | nil =>
    rcases hrest with rfl | hhead
    · exact .nil
    · obtain ⟨more, rfl⟩ := List.head?_eq_some_iff.mp hhead
      exact .terminator
  | cons x typed ih =>
    obtain ⟨hx, htyped⟩ := List.forall_mem_cons.mp h
    have hmore := ih htyped
    obtain ⟨spelling, c, arg⟩ := x
    rw [List.flatMap_cons, List.append_assoc, List.map_cons]
    cases spelling with
    | detached =>
      obtain ⟨htakes, hdash⟩ := takes_of_letters program hx
      exact .detached htakes hdash hmore
    | attached =>
      obtain ⟨htakes, hdash⟩ := takes_of_letters program hx.1
      exact .attached htakes hdash hx.2 hmore
    | long text =>
      obtain ⟨o, ho, hrequires, rfl, htext, hequals⟩ := abbreviates_of_begins hx.1 hx.2
      exact .long ho hrequires htext hequals hmore
    | equals text =>
      obtain ⟨o, ho, hrequires, rfl, _, hequals⟩ := abbreviates_of_begins hx.1 hx.2
      exact .equals ho hrequires hequals hmore

/-- However the options are typed, the parser returns what it returns for the list of them; what
stands behind two dashes is not read. -/
theorem spelled_options_parse (program : Program) (ordering : OperandOrder)
    (memory : ConfigMemory) (env : Option (List Char)) (name : List Char)
    (typed : List (Spelling × Decoded)) (h : ∀ x ∈ typed, Spells program x)
    (rest : List (List Char)) (hrest : rest = [] ∨ rest.head? = some ['-', '-']) :
    parseArgv program ordering memory.1 env (name :: (typed.flatMap spell ++ rest)) =
      program.parseArgs memory.1 env (typed.map Prod.snd) := by
  have hscan := (getoptLong_of_reads (orderly_table program)
    (reads_spelled ordering hrest typed h)).1
  rw [parseArgv, List.tail_cons, hscan]

/-- All four spellings in one command line of the publisher. -/
theorem mixed_spellings_parse :
    parseArgv .publisher .requireOrder blankConfig none
        ["binary_publisher".toList, "-s16".toList, "--cou=2".toList, "--ip".toList,
          "-10.0.0.1".toList, "-t".toList, "udp".toList, "--".toList, "-x".toList] =
      Program.publisher.parseArgs blankConfig none
        [('s', "16".toList), ('c', "2".toList), ('i', "-10.0.0.1".toList),
          ('t', "udp".toList)] :=
  spelled_options_parse .publisher .requireOrder blankMemory none "binary_publisher".toList
    [(.attached, 's', "16".toList), (.equals "cou".toList, 'c', "2".toList),
      (.long "ip".toList, 'i', "-10.0.0.1".toList), (.detached, 't', "udp".toList)]
    (by decide) ["--".toList, "-x".toList] (Or.inr rfl)

end Spellings

end AeronFast.AcceptedArgv
