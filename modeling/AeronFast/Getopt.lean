import Mathlib.Data.List.Basic

/-!
The option scanner of the GNU C library on whole argument vectors, for tables
without optional arguments. An element that starts with one dash is a cluster
of short options, the last of which may have its argument attached; one that
starts with two dashes is a long option, spelled out or abbreviated. The
scanner yields pairs of an option character and an argument, and a question
mark for everything it cannot make sense of.
-/
namespace AeronFast.Getopt

/-- A scanned option and its argument; options without one have the empty argument. -/
abbrev Pair := Char × List Char

structure LongOption where
  name : List Char
  requiresArg : Bool
  val : Char
  deriving DecidableEq, Repr

/-- Operands are passed over, or end the scan when POSIXLY_CORRECT is set. -/
inductive OperandOrder
  | permute
  | requireOrder
  deriving DecidableEq, Repr

structure Table where
  /-- the short options, a colon after each that takes an argument -/
  optstring : List Char
  longOptions : List LongOption

/-- Whether a short option takes an argument; nothing for a character that is no option. -/
def shortRequiresArg (optstring : List Char) (c : Char) : Option Bool :=
  if c = ':' ∨ c = ';' then none
  else
    match optstring.dropWhile (fun d => d != c) with
    | [] => none
    | _ :: ':' :: _ => some true
    | _ :: _ => some false

/-- The options of a cluster, and the one at its end that still waits for its argument. -/
def scanCluster (optstring : List Char) : List Char → List Pair × Option Char
  | [] => ([], none)
  | c :: rest =>
      match shortRequiresArg optstring c with
      | none => (('?', []) :: (scanCluster optstring rest).1, (scanCluster optstring rest).2)
      | some false => ((c, []) :: (scanCluster optstring rest).1, (scanCluster optstring rest).2)
      | some true => if rest = [] then ([], some c) else ([(c, rest)], none)

/-- A long option by its name, or by an abbreviation that can mean only one thing. -/
def findLong (longOptions : List LongOption) (name : List Char) : Option LongOption :=
  match longOptions.find? (fun o => o.name = name) with
  | some o => some o
  | none =>
      match longOptions.filter (fun o => name.isPrefixOf o.name) with
      | [] => none
      | o :: others =>
          if others.all (fun other => other.requiresArg = o.requiresArg ∧ other.val = o.val) then
            some o
          else none

/-- A long option, its argument after an equals sign if there is one. -/
def scanLong (longOptions : List LongOption) (text : List Char) : List Pair × Option Char :=
  match findLong longOptions (text.takeWhile (fun c => c != '=')),
      text.dropWhile (fun c => c != '=') with
  | none, _ => ([('?', [])], none)
  | some o, [] => if o.requiresArg then ([], some o.val) else ([(o.val, [])], none)
  | some o, _ :: value =>
      if o.requiresArg then ([(o.val, value)], none) else ([('?', [])], none)

inductive Element
  | terminator
  | long (text : List Char)
  | cluster (options : List Char)
  | operand
  deriving DecidableEq, Repr

/-- What an element of the argument vector is; a single dash is an operand. -/
def classify : List Char → Element
  | ['-', '-'] => .terminator
  | '-' :: '-' :: text => .long text
  | '-' :: c :: text => .cluster (c :: text)
  | _ => .operand

/-- The scan of the elements after the program name. The first argument is an option that
waits for the next element as its argument. -/
def getoptLong (ordering : OperandOrder) (table : Table) : Option Char → List (List Char) → List Pair
  | none, [] => []
  | some _, [] => [('?', [])]
  | some c, arg :: rest => (c, arg) :: getoptLong ordering table none rest
  | none, arg :: rest =>
      match classify arg with
      | .terminator => []
      | .long text =>
          (scanLong table.longOptions text).1 ++
            getoptLong ordering table (scanLong table.longOptions text).2 rest
      | .cluster options =>
          (scanCluster table.optstring options).1 ++
            getoptLong ordering table (scanCluster table.optstring options).2 rest
      | .operand =>
          match ordering with
          | .permute => getoptLong ordering table none rest
          | .requireOrder => []

theorem classify_operand (arg : List Char) (h : arg.head? ≠ some '-') :
    classify arg = .operand := by
  unfold classify
  split
  · exact absurd rfl h
  · exact absurd rfl h
  · exact absurd rfl h
  · rfl

section Rules

variable (ordering : OperandOrder) (table : Table) {arg : List Char} (rest : List (List Char))

/-- Whatever stands after an option that waits is its argument. -/
theorem getoptLong_pending (c : Char) (arg : List Char) :
    getoptLong ordering table (some c) (arg :: rest) =
      (c, arg) :: getoptLong ordering table none rest := rfl

theorem getoptLong_operand (h : arg.head? ≠ some '-') :
    getoptLong ordering table none (arg :: rest) =
      match ordering with
      | .permute => getoptLong ordering table none rest
      | .requireOrder => [] := by
  rw [getoptLong.eq_def]
  simp only [classify_operand arg h]

/-- A short option with its argument in the next element. -/
theorem getoptLong_detached {c : Char} (next : List Char)
    (harg : classify arg = .cluster [c]) (hc : shortRequiresArg table.optstring c = some true) :
    getoptLong ordering table none (arg :: next :: rest) =
      (c, next) :: getoptLong ordering table none rest := by
  rw [getoptLong.eq_def]
  simp only [harg, scanCluster, hc, if_true, List.nil_append, getoptLong_pending]

/-- An option that takes an argument swallows the rest of its cluster. -/
theorem getoptLong_attached {c : Char} {text : List Char}
    (harg : classify arg = .cluster (c :: text)) (htext : text ≠ [])
    (hc : shortRequiresArg table.optstring c = some true) :
    getoptLong ordering table none (arg :: rest) =
      (c, text) :: getoptLong ordering table none rest := by
  rw [getoptLong.eq_def]
  simp only [harg, scanCluster, hc, if_neg htext, List.singleton_append]

/-- A long option with its argument in the next element. -/
theorem getoptLong_long {text : List Char} {c : Char} (next : List Char)
    (harg : classify arg = .long text) (hc : scanLong table.longOptions text = ([], some c)) :
    getoptLong ordering table none (arg :: next :: rest) =
      (c, next) :: getoptLong ordering table none rest := by
  rw [getoptLong.eq_def]
  simp only [harg, hc, List.nil_append, getoptLong_pending]

end Rules

end AeronFast.Getopt
