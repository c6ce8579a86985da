import AeronFast.Getopt
import Mathlib.Data.List.Nodup
import Mathlib.Data.List.Infix
import Mathlib.Data.List.TakeWhile

/-!
The grammar of the command lines that the option scanner understands without a
complaint, for options that all take an argument. An argument stands in the
next element, or attached to a short option, or behind an equals sign; a long
name may be cut off where no other begins alike. The scanner yields such
options exactly for the command lines of the grammar.
-/
namespace AeronFast.CommandGrammar

open Getopt

/-- A short option that takes an argument. -/
def Takes (table : Table) (c : Char) : Prop := shortRequiresArg table.optstring c = some true

/-- A text that begins the name of this option and of no other. -/
structure Abbreviates (table : Table) (text : List Char) (o : LongOption) : Prop where
  listed : o ∈ table.longOptions
  begins : text <+: o.name
  only : ∀ other ∈ table.longOptions, text <+: other.name → other = o

/-- An element that the scanner takes for no option: a word, nothing, or a single dash. -/
def Operand (arg : List Char) : Prop := arg = ['-'] ∨ arg.head? ≠ some '-'

/-- The elements after the program name, and the options they stand for. -/
inductive Reads (ordering : OperandOrder) (table : Table) : List (List Char) → List Pair → Prop
  | nil : Reads ordering table [] []
  | detached {c : Char} {arg : List Char} {rest : List (List Char)} {options : List Pair} :
      Takes table c → c ≠ '-' → Reads ordering table rest options →
      Reads ordering table (['-', c] :: arg :: rest) ((c, arg) :: options)
  | attached {c : Char} {arg : List Char} {rest : List (List Char)} {options : List Pair} :
      Takes table c → c ≠ '-' → arg ≠ [] → Reads ordering table rest options →
      Reads ordering table (('-' :: c :: arg) :: rest) ((c, arg) :: options)
  | long {text arg : List Char} {o : LongOption} {rest : List (List Char)} {options : List Pair} :
      Abbreviates table text o → o.requiresArg = true → text ≠ [] → '=' ∉ text →
      Reads ordering table rest options →
      Reads ordering table (('-' :: '-' :: text) :: arg :: rest) ((o.val, arg) :: options)
  | equals {text arg : List Char} {o : LongOption} {rest : List (List Char)}
      {options : List Pair} :
      Abbreviates table text o → o.requiresArg = true → '=' ∉ text →
      Reads ordering table rest options →
      Reads ordering table (('-' :: '-' :: (text ++ '=' :: arg)) :: rest) ((o.val, arg) :: options)
  | operand {arg : List Char} {rest : List (List Char)} {options : List Pair} :
      ordering = .permute → Operand arg → Reads ordering table rest options →
      Reads ordering table (arg :: rest) options
  | stop {arg : List Char} {rest : List (List Char)} :
      ordering = .requireOrder → Operand arg → Reads ordering table (arg :: rest) []
  | terminator {rest : List (List Char)} : Reads ordering table (['-', '-'] :: rest) []

/-- What the two tables of the scanner must agree on, and that no name begins another. -/
structure Orderly (table : Table) : Prop where
  unknown : ¬Takes table '?'
  flags : ∀ o ∈ table.longOptions, o.requiresArg = false → ¬Takes table o.val
  arguments : ∀ o ∈ table.longOptions, o.requiresArg = true → Takes table o.val
  letters : (table.longOptions.map LongOption.val).Nodup
  names : ∀ o ∈ table.longOptions, ∀ other ∈ table.longOptions, o.name <+: other.name → other = o

section Elements

theorem classify_eq_terminator_iff (arg : List Char) :
    classify arg = .terminator ↔ arg = ['-', '-'] := by
  constructor
  · intro h
    unfold classify at h
    split at h
    · rfl
    all_goals cases h
  · rintro rfl
    rfl

theorem classify_eq_long_iff (arg text : List Char) :
    classify arg = .long text ↔ arg = '-' :: '-' :: text ∧ text ≠ [] := by
  constructor
  · intro h
    unfold classify at h
    split at h
    · cases h
    · rename_i more hne
      cases h
      refine ⟨rfl, ?_⟩
      rintro rfl
      exact hne rfl
    all_goals cases h
  · rintro ⟨rfl, hne⟩
    cases text with
    | nil => exact absurd rfl hne
    | cons c text => rfl

theorem classify_dash (c : Char) (text : List Char) (hc : c ≠ '-') :
    classify ('-' :: c :: text) = .cluster (c :: text) := by
  unfold classify
  split
  · rename_i heq
    cases heq
    exact absurd rfl hc
  · rename_i heq
    cases heq
    exact absurd rfl hc
  · rename_i heq
    cases heq
    rfl
  · rename_i hnot
    exact absurd rfl (hnot c text)

theorem classify_eq_cluster {arg options : List Char} (h : classify arg = .cluster options) :
    ∃ c text, options = c :: text ∧ arg = '-' :: c :: text ∧ c ≠ '-' := by
  unfold classify at h
  split at h
  · cases h
  · cases h
  · rename_i c text hone htwo
    cases h
    refine ⟨c, text, rfl, rfl, ?_⟩
    rintro rfl
    exact htwo rfl
  · cases h

theorem classify_eq_operand_iff (arg : List Char) : classify arg = .operand ↔ Operand arg := by
  constructor
  · intro h
    unfold classify at h
    split at h
    · cases h
    · cases h
    · cases h
    · rename_i hone htwo hthree
      by_cases hhead : arg.head? = some '-'
      · obtain ⟨rest, rfl⟩ := List.head?_eq_some_iff.mp hhead
        cases rest with
        | nil => exact Or.inl rfl
        | cons c text => exact absurd rfl (hthree c text)
      · exact Or.inr hhead
  · rintro (rfl | hhead)
    · rfl
    · exact classify_operand arg hhead

end Elements

section Names

variable {table : Table} {text : List Char} {o : LongOption}

theorem mem_begins_iff (table : Table) (text : List Char) (other : LongOption) :
    other ∈ table.longOptions.filter (fun o => text.isPrefixOf o.name) ↔
      other ∈ table.longOptions ∧ text <+: other.name := by
  simp [List.mem_filter]

/-- A name that is spelled out begins no other. -/
theorem abbreviates_name (h : Orderly table) (ho : o ∈ table.longOptions) :
    Abbreviates table o.name o :=
  ⟨ho, List.prefix_refl _, fun other hother hbegins => h.names o ho other hother hbegins⟩

theorem findLong_eq_some_iff (h : Orderly table) :
    findLong table.longOptions text = some o ↔ Abbreviates table text o := by
  unfold findLong
  cases hexact : table.longOptions.find? (fun o => o.name = text) with
  | some found =>
    have hname : found.name = text := by simpa using List.find?_some hexact
    have hfound : Abbreviates table text found := by
      rw [← hname]
      exact abbreviates_name h (List.mem_of_find?_eq_some hexact)
    constructor
    · intro heq
      rw [← Option.some.inj heq]
      exact hfound
    · intro ho
      rw [ho.only found hfound.listed hfound.begins]
  | none =>
    have hmem := fun other => mem_begins_iff table text other
    have hnodup : ((table.longOptions.filter (fun o => text.isPrefixOf o.name)).map
        LongOption.val).Nodup := h.letters.sublist (List.filter_sublist.map _)
    cases hfilter : table.longOptions.filter (fun o => text.isPrefixOf o.name) with
    | nil =>
      simp only [hfilter, List.not_mem_nil, false_iff] at hmem
      simp only [reduceCtorEq, false_iff]
      intro ho
      exact hmem o ⟨ho.listed, ho.begins⟩
    | cons found others =>
      rw [hfilter] at hmem hnodup
      have hfound := (hmem found).mp (by simp)
      simp only [List.map_cons, List.nodup_cons, List.mem_map, not_exists, not_and] at hnodup
      constructor
      · intro heq
        obtain ⟨hsame, heq⟩ := Option.ite_none_right_eq_some.mp heq
        cases heq
        refine ⟨hfound.1, hfound.2, fun other hother hbegins => ?_⟩
        rcases List.mem_cons.mp ((hmem other).mpr ⟨hother, hbegins⟩) with rfl | hlater
        · rfl
        · have hval := of_decide_eq_true (List.all_eq_true.mp hsame other hlater)
          exact absurd hval.2 (hnodup.1 other hlater)
      · intro ho
        have hothers : others = [] := by
          refine List.eq_nil_iff_forall_not_mem.mpr fun other hother => ?_
          obtain ⟨hlisted, hbegins⟩ := (hmem other).mp (List.mem_cons_of_mem _ hother)
          have hsame := (ho.only other hlisted hbegins).trans (ho.only found hfound.1 hfound.2).symm
          exact hnodup.1 other hother (by rw [hsame])
        rw [hothers, ho.only found hfound.1 hfound.2]
        rfl

/-- A text without an equals sign is a name. -/
theorem scanLong_name (h : Orderly table) (ho : Abbreviates table text o) (hequals : '=' ∉ text) :
    scanLong table.longOptions text =
      if o.requiresArg then ([], some o.val) else ([(o.val, [])], none) := by
  have htake : text.takeWhile (fun c => c != '=') = text := by
    rw [List.takeWhile_eq_self_iff]
    intro c hc
    simpa using ne_of_mem_of_not_mem hc hequals
  have hdrop : text.dropWhile (fun c => c != '=') = [] := by
    rw [List.dropWhile_eq_nil_iff]
    intro c hc
    simpa using ne_of_mem_of_not_mem hc hequals
  unfold scanLong
  rw [htake, hdrop, (findLong_eq_some_iff h).mpr ho]

theorem scanLong_equals (h : Orderly table) (ho : Abbreviates table text o) (hequals : '=' ∉ text)
    (value : List Char) :
    scanLong table.longOptions (text ++ '=' :: value) =
      if o.requiresArg then ([(o.val, value)], none) else ([('?', [])], none) := by
  have hname : ∀ c ∈ text, (c != '=') = true := by
    intro c hc
    simpa using ne_of_mem_of_not_mem hc hequals
  have htake : (text ++ '=' :: value).takeWhile (fun c => c != '=') = text := by
    rw [List.takeWhile_append_of_pos hname]
    simp
  have hdrop : (text ++ '=' :: value).dropWhile (fun c => c != '=') = '=' :: value := by
    rw [List.dropWhile_append_of_pos hname]
    simp
  unfold scanLong
  rw [htake, hdrop, (findLong_eq_some_iff h).mpr ho]

/-- A long element that the scanner understands names one option, with or without its argument. -/
theorem scanLong_cases (h : Orderly table) (text : List Char) :
    scanLong table.longOptions text = ([('?', [])], none) ∨
      (∃ o, o ∈ table.longOptions ∧ o.requiresArg = false ∧
        scanLong table.longOptions text = ([(o.val, [])], none)) ∨
      (∃ o, Abbreviates table text o ∧ o.requiresArg = true ∧ '=' ∉ text ∧
        scanLong table.longOptions text = ([], some o.val)) ∨
      ∃ name value o, text = name ++ '=' :: value ∧ Abbreviates table name o ∧
        o.requiresArg = true ∧ '=' ∉ name ∧
        scanLong table.longOptions text = ([(o.val, value)], none) := by
  have hsplit := List.takeWhile_append_dropWhile (p := fun c => c != '=') (l := text)
  have hequals : '=' ∉ text.takeWhile (fun c => c != '=') := by
    intro hmem
    simpa using List.mem_takeWhile_imp hmem
  cases hfind : findLong table.longOptions (text.takeWhile (fun c => c != '=')) with
  | none =>
    left
    unfold scanLong
    rw [hfind]
  | some o =>
    have ho := (findLong_eq_some_iff h).mp hfind
    cases hrest : text.dropWhile (fun c => c != '=') with
    | nil =>
      rw [hrest, List.append_nil] at hsplit
      rw [hsplit] at ho hequals
      rw [scanLong_name h ho hequals]
      cases hrequires : o.requiresArg with
      | false => exact Or.inr (Or.inl ⟨o, ho.listed, hrequires, rfl⟩)
      | true => exact Or.inr (Or.inr (Or.inl ⟨o, ho, hrequires, hequals, rfl⟩))
    | cons c value =>
      have hc : c = '=' := by
        have hhead := List.head?_dropWhile_not (fun c => c != '=') text
        rw [hrest] at hhead
        simpa using hhead
      rw [hrest, hc] at hsplit
      rw [← hsplit, scanLong_equals h ho hequals]
      cases hrequires : o.requiresArg with
      | false => exact Or.inl rfl
      | true => exact Or.inr (Or.inr (Or.inr ⟨_, value, o, rfl, ho, hrequires, hequals, rfl⟩))

end Names

section Scans

variable {ordering : OperandOrder} {table : Table} {argv : List (List Char)}
variable {options : List Pair}

/-- The scanner yields what a command line of the grammar stands for. -/
theorem getoptLong_of_reads (h : Orderly table) (hreads : Reads ordering table argv options) :
    getoptLong ordering table none argv = options ∧ ∀ o ∈ options, Takes table o.1 := by
  induction hreads with
  | nil => exact ⟨rfl, by simp⟩
  | @detached c arg rest options htakes hc _ ih =>
    rw [getoptLong_detached ordering table rest arg (classify_dash c [] hc) htakes, ih.1]
    exact ⟨rfl, List.forall_mem_cons.mpr ⟨htakes, ih.2⟩⟩
  | @attached c arg rest options htakes hc harg _ ih =>
    rw [getoptLong_attached ordering table rest (classify_dash c arg hc) harg htakes, ih.1]
    exact ⟨rfl, List.forall_mem_cons.mpr ⟨htakes, ih.2⟩⟩
  | @long text arg o rest options ho hrequires htext hequals _ ih =>
    have hscan := scanLong_name h ho hequals
    rw [if_pos hrequires] at hscan
    rw [getoptLong_long ordering table rest arg
      ((classify_eq_long_iff _ text).mpr ⟨rfl, htext⟩) hscan, ih.1]
    exact ⟨rfl, List.forall_mem_cons.mpr ⟨h.arguments o ho.listed hrequires, ih.2⟩⟩
  | @equals text arg o rest options ho hrequires hequals _ ih =>
    have hscan := scanLong_equals h ho hequals arg
    rw [if_pos hrequires] at hscan
    have hclass := (classify_eq_long_iff _ (text ++ '=' :: arg)).mpr ⟨rfl, by simp⟩
    rw [getoptLong.eq_def]
    simp only [hclass, hscan, List.singleton_append, ih.1]
    exact ⟨trivial, List.forall_mem_cons.mpr ⟨h.arguments o ho.listed hrequires, ih.2⟩⟩
  | @operand arg rest options hpermute hoperand _ ih =>
    subst hpermute
    rw [getoptLong.eq_def]
    simp only [(classify_eq_operand_iff arg).mpr hoperand]
    exact ih
  | @stop arg rest horder hoperand =>
    subst horder
    rw [getoptLong.eq_def]
    simp only [(classify_eq_operand_iff arg).mpr hoperand]
    exact ⟨trivial, by simp⟩
  | terminator => exact ⟨rfl, by simp⟩

/-- A scan that waits for an argument without complaint finds one. -/
theorem exists_pending (h : Orderly table) {c : Char} {rest : List (List Char)}
    (htakes : ∀ o ∈ getoptLong ordering table (some c) rest, Takes table o.1) :
    ∃ arg more, rest = arg :: more ∧
      getoptLong ordering table (some c) rest =
        (c, arg) :: getoptLong ordering table none more := by
  cases rest with
  | nil => exact absurd (htakes ('?', []) (by simp [getoptLong])) h.unknown
  | cons arg more => exact ⟨arg, more, rfl, rfl⟩

section Rest

variable {rest : List (List Char)}
variable (hrest : ∀ more : List (List Char), more.length ≤ rest.length →
  (∀ o ∈ getoptLong ordering table none more, Takes table o.1) →
  Reads ordering table more (getoptLong ordering table none more))

include hrest

theorem reads_cluster (h : Orderly table) {c : Char} {text : List Char} (hc : c ≠ '-')
    (htakes : ∀ o ∈ (scanCluster table.optstring (c :: text)).1 ++
      getoptLong ordering table (scanCluster table.optstring (c :: text)).2 rest,
      Takes table o.1) :
    Reads ordering table (('-' :: c :: text) :: rest)
      ((scanCluster table.optstring (c :: text)).1 ++
        getoptLong ordering table (scanCluster table.optstring (c :: text)).2 rest) := by
  cases hshort : shortRequiresArg table.optstring c with
  | none =>
    simp only [scanCluster, hshort] at htakes
    exact absurd (htakes ('?', []) (by simp)) h.unknown
  | some requires =>
    cases requires with
    | false =>
      simp only [scanCluster, hshort] at htakes
      have hflag := htakes (c, []) (by simp)
      rw [Takes, hshort] at hflag
      cases hflag
    | true =>
      by_cases htext : text = []
      · subst htext
        simp only [scanCluster, hshort, if_true, List.nil_append] at htakes ⊢
        obtain ⟨next, more, rfl, hscan⟩ := exists_pending h htakes
        rw [hscan] at htakes ⊢
        exact .detached hshort hc (hrest more (by simp) (List.forall_mem_cons.mp htakes).2)
      · simp only [scanCluster, hshort, if_neg htext, List.singleton_append] at htakes ⊢
        exact .attached hshort hc htext
          (hrest rest (Nat.le_refl _) (List.forall_mem_cons.mp htakes).2)

theorem reads_long (h : Orderly table) {text : List Char} (htext : text ≠ [])
    (htakes : ∀ o ∈ (scanLong table.longOptions text).1 ++
      getoptLong ordering table (scanLong table.longOptions text).2 rest, Takes table o.1) :
    Reads ordering table (('-' :: '-' :: text) :: rest)
      ((scanLong table.longOptions text).1 ++
        getoptLong ordering table (scanLong table.longOptions text).2 rest) := by
  rcases scanLong_cases h text with hscan | ⟨o, ho, hflag, hscan⟩ |
    ⟨o, ho, hrequires, hequals, hscan⟩ | ⟨name, value, o, rfl, ho, hrequires, hequals, hscan⟩
  · rw [hscan] at htakes
    exact absurd (htakes ('?', []) (by simp)) h.unknown
  · rw [hscan] at htakes
    exact absurd (htakes (o.val, []) (by simp)) (h.flags o ho hflag)
  · simp only [hscan, List.nil_append] at htakes ⊢
    obtain ⟨next, more, rfl, hnext⟩ := exists_pending h htakes
    rw [hnext] at htakes ⊢
    exact .long ho hrequires htext hequals (hrest more (by simp) (List.forall_mem_cons.mp htakes).2)
  · simp only [hscan, List.singleton_append] at htakes ⊢
    exact .equals ho hrequires hequals
      (hrest rest (Nat.le_refl _) (List.forall_mem_cons.mp htakes).2)

end Rest

/-- A command line whose options all take their argument is one of the grammar. -/
theorem reads_of_getoptLong (h : Orderly table) (argv : List (List Char))
    (htakes : ∀ o ∈ getoptLong ordering table none argv, Takes table o.1) :
    Reads ordering table argv (getoptLong ordering table none argv) := by
  -- an option may use up two elements, so the induction is on the length
  induction hlength : argv.length using Nat.strong_induction_on generalizing argv with
  | h n ih =>
    cases argv with
    | nil => exact .nil
    | cons arg rest =>
      rw [List.length_cons] at hlength
      have hrest : ∀ more : List (List Char), more.length ≤ rest.length →
          (∀ o ∈ getoptLong ordering table none more, Takes table o.1) →
          Reads ordering table more (getoptLong ordering table none more) :=
        fun more hle hmore => ih more.length (by omega) more hmore rfl
      rw [getoptLong.eq_def] at htakes ⊢
      cases hclass : classify arg with
      | terminator =>
        rw [(classify_eq_terminator_iff arg).mp hclass]
        exact .terminator
      | operand =>
        have hoperand := (classify_eq_operand_iff arg).mp hclass
        simp only [hclass] at htakes ⊢
        cases ordering with
        | permute => exact .operand rfl hoperand (hrest rest (Nat.le_refl _) htakes)
        | requireOrder => exact .stop rfl hoperand
      | cluster letters =>
        obtain ⟨c, text, rfl, rfl, hc⟩ := classify_eq_cluster hclass
        simp only [hclass] at htakes ⊢
        exact reads_cluster hrest h hc htakes
      | long text =>
        obtain ⟨rfl, htext⟩ := (classify_eq_long_iff arg text).mp hclass
        simp only [hclass] at htakes ⊢
        exact reads_long hrest h htext htakes

end Scans

end AeronFast.CommandGrammar
