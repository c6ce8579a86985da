import Mathlib.Algebra.BigOperators.Fin
import Mathlib.Algebra.Order.BigOperators.Group.Finset
import Mathlib.Data.Nat.ModEq

/-!
Counters and sums kept in 64-bit words. A word that is only ever added to
equals the exact sum modulo 2^64, an array of word counters has a tally over
all its cells, and a quotient computed from a wrapped product is the exact
one precisely when nothing was lost in the product.
-/
namespace AeronFast.WordArithmetic

theorem word_lt (a : UInt64) : a.toNat < 18446744073709551616 := a.toNat_lt

theorem toNat_add_one_mod (a : UInt64) : (a + 1).toNat = (a.toNat + 1) % 2 ^ 64 := by
  simp

theorem toNat_add_one (a : UInt64) (h : a.toNat + 1 < 2 ^ 64) :
    (a + 1).toNat = a.toNat + 1 := by
  rw [toNat_add_one_mod, Nat.mod_eq_of_lt h]

/-- An integer cast to a word is reduced modulo the word size. -/
theorem toNat_ofInt (x : Int) : (UInt64.ofInt x).toNat = (x % 18446744073709551616).toNat := by
  have hlt : (x % 18446744073709551616).toNat < 2 ^ 64 := by omega
  rw [UInt64.ofInt, UInt64.toNat_ofNat']
  exact Nat.mod_eq_of_lt hlt

/-- The exact sum of words, over unbounded naturals. -/
def wordSum (words : List UInt64) : ℕ := (words.map UInt64.toNat).sum

@[simp] theorem wordSum_nil : wordSum [] = 0 := rfl

@[simp] theorem wordSum_append (left right : List UInt64) :
    wordSum (left ++ right) = wordSum left + wordSum right := by
  simp [wordSum]

@[simp] theorem wordSum_singleton (a : UInt64) : wordSum [a] = a.toNat := by
  simp [wordSum]

/-- Adding a word keeps a total equal to the exact sum modulo the word size. -/
theorem total_add (total a : UInt64) (n : ℕ) (h : total.toNat = n % 2 ^ 64) :
    (total + a).toNat = (n + a.toNat) % 2 ^ 64 := by
  rw [UInt64.toNat_add, h, Nat.mod_add_mod]

/-- A difference of words is the exact one unless the subtrahend is the larger. -/
theorem toNat_sub_le_iff (a b : UInt64) : (a - b).toNat ≤ a.toNat ↔ b.toNat ≤ a.toNat := by
  have ha := word_lt a
  have hb := word_lt b
  rw [UInt64.toNat_sub]
  constructor
  · intro h
    by_contra hlt
    rw [Nat.mod_eq_of_lt (by omega)] at h
    omega
  · intro h
    have hwrap : 2 ^ 64 - b.toNat + a.toNat = (a.toNat - b.toNat) + 2 ^ 64 := by omega
    rw [hwrap, Nat.add_mod_right, Nat.mod_eq_of_lt (by omega)]
    omega

/-- The difference of two readings of a counter is what was added between them. -/
theorem toNat_sub_of_totals (later earlier : UInt64) (before since : ℕ)
    (hl : later.toNat = (before + since) % 2 ^ 64) (he : earlier.toNat = before % 2 ^ 64) :
    (later - earlier).toNat = since % 2 ^ 64 := by
  rw [UInt64.toNat_sub, hl, he]
  omega

section Averages

variable {words : List UInt64} {low high : UInt64}

theorem mul_le_wordSum (h : ∀ a ∈ words, low ≤ a) : words.length * low.toNat ≤ wordSum words := by
  induction words with
  | nil => simp
  | cons a rest ih =>
    have ha : low.toNat ≤ a.toNat := UInt64.le_iff_toNat_le.mp (h a (by simp))
    have hrest := ih (fun b hb => h b (by simp [hb]))
    simp only [wordSum, List.map_cons, List.sum_cons, List.length_cons, Nat.add_mul] at hrest ⊢
    omega

theorem wordSum_le_mul (h : ∀ a ∈ words, a ≤ high) : wordSum words ≤ words.length * high.toNat := by
  induction words with
  | nil => simp
  | cons a rest ih =>
    have ha : a.toNat ≤ high.toNat := UInt64.le_iff_toNat_le.mp (h a (by simp))
    have hrest := ih (fun b hb => h b (by simp [hb]))
    simp only [wordSum, List.map_cons, List.sum_cons, List.length_cons, Nat.add_mul] at hrest ⊢
    omega

/-- The truncated average of a non-empty list lies between bounds of its elements. -/
theorem average_between (hne : 0 < words.length) (hlow : ∀ a ∈ words, low ≤ a)
    (hhigh : ∀ a ∈ words, a ≤ high) :
    low.toNat ≤ wordSum words / words.length ∧ wordSum words / words.length ≤ high.toNat := by
  constructor
  · apply (Nat.le_div_iff_mul_le hne).mpr
    rw [Nat.mul_comm]
    exact mul_le_wordSum hlow
  · apply Nat.div_le_of_le_mul
    exact wordSum_le_mul hhigh

end Averages

section Tallies

variable {κ M : Type*} [Fintype κ] [DecidableEq κ]

/-- Everything but one term of a sum, whatever that term is changed to. -/
theorem sum_update_split [AddCommMonoid M] (f : κ → M) (i : κ) :
    ∃ rest, ∑ j, f j = f i + rest ∧ ∀ v, ∑ j, Function.update f i v j = v + rest := by
  refine ⟨∑ j ∈ Finset.univ \ {i}, f j, ?_, ?_⟩
  · rw [← Finset.sum_sdiff (Finset.subset_univ {i}), Finset.sum_singleton, add_comm]
  · intro v
    exact Finset.sum_update_of_mem (Finset.mem_univ i) f v

/-- All the cells of an array of word counters together. -/
def tally (cells : κ → UInt64) : ℕ := ∑ j, (cells j).toNat

/-- Add one to a single cell. -/
def bump (cells : κ → UInt64) (i : κ) : κ → UInt64 :=
  Function.update cells i (cells i + 1)

theorem tally_bump_add (cells : κ → UInt64) (i : κ) :
    tally (bump cells i) + (cells i).toNat = tally cells + (cells i + 1).toNat := by
  obtain ⟨rest, hcells, hupdate⟩ := sum_update_split (fun j => (cells j).toNat) i
  have hbump : tally (bump cells i) = (cells i + 1).toNat + rest := by
    rw [← hupdate, tally]
    apply Finset.sum_congr rfl
    intro j _
    by_cases hj : j = i
    · subst hj
      simp [bump]
    · simp [bump, hj]
  rw [tally] at hbump ⊢
  rw [hbump, tally, hcells]
  omega

theorem tally_bump (cells : κ → UInt64) (i : κ) (h : (cells i).toNat + 1 < 2 ^ 64) :
    tally (bump cells i) = tally cells + 1 := by
  have hadd := tally_bump_add cells i
  rw [toNat_add_one _ h] at hadd
  omega

theorem tally_bump_mod (cells : κ → UInt64) (i : κ) :
    tally (bump cells i) % 2 ^ 64 = (tally cells + 1) % 2 ^ 64 := by
  have hadd := tally_bump_add cells i
  rw [toNat_add_one_mod] at hadd
  have hcell := word_lt (cells i)
  omega

omit [DecidableEq κ] in
theorem cell_le_tally (cells : κ → UInt64) (i : κ) : (cells i).toNat ≤ tally cells :=
  Finset.single_le_sum (f := fun j => (cells j).toNat) (fun _ _ => Nat.zero_le _)
    (Finset.mem_univ i)

/-- Elements that have a cell each are counted once over all the cells. -/
theorem sum_countP {α : Type*} (cell : α → Option κ) (elements : List α)
    (h : ∀ a ∈ elements, ∃ i, cell a = some i) :
    ∑ i, elements.countP (fun a => cell a = some i) = elements.length := by
  induction elements with
  | nil => simp
  | cons a rest ih =>
    obtain ⟨j, hj⟩ := h a List.mem_cons_self
    have hone : ∀ i, (a :: rest).countP (fun a => cell a = some i) =
        rest.countP (fun a => cell a = some i) + if j = i then 1 else 0 := by
      intro i
      simp [List.countP_cons, hj]
    rw [Finset.sum_congr rfl (fun i _ => hone i), Finset.sum_add_distrib,
      ih (fun other hother => h other (List.mem_cons_of_mem _ hother)), Finset.sum_ite_eq]
    simp

end Tallies

section Quotients

/-- A wrapped dividend gives a different quotient by every divisor below the modulus. -/
theorem mod_div_eq_div_iff (x d m : ℕ) (hd : 0 < d) (hdm : d < m) :
    x % m / d = x / d ↔ x < m := by
  constructor
  · intro h
    by_contra hge
    have hlost : x % m + d ≤ x := by
      have hle : m * 1 ≤ m * (x / m) :=
        Nat.mul_le_mul_left m ((Nat.one_le_div_iff (by omega)).mpr (by omega))
      have hsplit := Nat.mod_add_div x m
      omega
    have hmono := Nat.div_le_div_right (c := d) hlost
    rw [Nat.add_div_right _ hd] at hmono
    omega
  · intro h
    rw [Nat.mod_eq_of_lt h]

end Quotients

end AeronFast.WordArithmetic
