import AeronFast.WordArithmetic

/-!
The two rates every report of either program prints, computed in 64-bit words
as the source does: the counter is multiplied by the nanoseconds of a second
before the divisions. They are exact for every duration precisely when both
products fit in a word.
-/
namespace AeronFast.Throughput

open WordArithmetic

structure Rates where
  messageRate : UInt64
  byteRate : UInt64
  deriving DecidableEq, Repr

/-- Nothing is printed for an empty duration. -/
def throughput (messages bytes duration : UInt64) : Option Rates :=
  if 0 < duration then
    some {
      messageRate := messages * 1000000000 / duration
      byteRate := bytes * 1000000000 / duration / (1024 * 1024) }
  else none

/-- The rates over unbounded naturals: messages a second, and mebibytes a second. -/
def exactRates (messages bytes duration : ℕ) : ℕ × ℕ :=
  (messages * 1000000000 / duration, bytes * 1000000000 / (duration * 2 ^ 20))

/-- Rates were printed, and they are those of the exact totals. -/
def PrintedExactly (rates : Option Rates) (messages bytes duration : ℕ) : Prop :=
  ∃ r, rates = some r ∧
    (r.messageRate.toNat, r.byteRate.toNat) = exactRates messages bytes duration

/-- For every positive duration the printed rates are those of the exact totals. -/
def RatesExact (messages bytes : UInt64) (exactMessages exactBytes : ℕ) : Prop :=
  ∀ duration : UInt64, 0 < duration →
    PrintedExactly (throughput messages bytes duration) exactMessages exactBytes duration.toNat

theorem scaled_toNat (counter : UInt64) (exact : ℕ) (h : counter.toNat = exact % 2 ^ 64) :
    (counter * 1000000000).toNat = exact * 1000000000 % 2 ^ 64 := by
  rw [UInt64.toNat_mul, h]
  exact Nat.mod_mul_mod exact 1000000000 (2 ^ 64)

theorem throughput_of_pos (messages bytes duration : UInt64) (hd : 0 < duration) :
    ∃ r, throughput messages bytes duration = some r ∧
      r.messageRate.toNat = (messages * 1000000000).toNat / duration.toNat ∧
      r.byteRate.toNat = (bytes * 1000000000).toNat / duration.toNat / 2 ^ 20 := by
  refine ⟨_, if_pos hd, ?_, ?_⟩
  · exact UInt64.toNat_div _ _
  · rw [UInt64.toNat_div, UInt64.toNat_div]
    rfl

/-- Counters that hold the exact totals modulo 2^64 give exact rates for every
duration if and only if neither scaled total leaves the word. -/
theorem ratesExact_iff (messages bytes : UInt64) (exactMessages exactBytes : ℕ)
    (hm : messages.toNat = exactMessages % 2 ^ 64) (hb : bytes.toNat = exactBytes % 2 ^ 64) :
    RatesExact messages bytes exactMessages exactBytes ↔
      exactMessages * 1000000000 < 2 ^ 64 ∧ exactBytes * 1000000000 < 2 ^ 64 := by
  have hscaledM := scaled_toNat messages exactMessages hm
  have hscaledB := scaled_toNat bytes exactBytes hb
  constructor
  · intro h
    -- one nanosecond is the duration that shows every loss
    obtain ⟨r, hr, hexact⟩ := h 1 (by decide)
    obtain ⟨r', hr', hmsg, hbyte⟩ := throughput_of_pos messages bytes 1 (by decide)
    have hrr : r = r' := Option.some.inj (hr.symm.trans hr')
    subst hrr
    simp only [exactRates, Prod.mk.injEq] at hexact
    rw [hmsg, hbyte, hscaledM, hscaledB] at hexact
    have hone : (1 : UInt64).toNat = 1 := rfl
    rw [hone, Nat.div_one, Nat.div_one, Nat.div_one, Nat.one_mul] at hexact
    constructor
    · have hlt := Nat.mod_lt (exactMessages * 1000000000) (show 0 < 2 ^ 64 by decide)
      omega
    · exact (mod_div_eq_div_iff _ (2 ^ 20) (2 ^ 64) (by decide) (by decide)).mp hexact.2
  · intro h duration hd
    obtain ⟨r, hr, hmsg, hbyte⟩ := throughput_of_pos messages bytes duration hd
    refine ⟨r, hr, ?_⟩
    rw [hmsg, hbyte, hscaledM, hscaledB, Nat.mod_eq_of_lt h.1, Nat.mod_eq_of_lt h.2, exactRates,
      Nat.div_div_eq_div_mul]

/-- Every duration is the distance from a fixed reading to some later one. -/
theorem ratesExact_iff_readings (messages bytes base : UInt64) (exactMessages exactBytes : ℕ) :
    (∀ now : UInt64, 0 < now - base → PrintedExactly (throughput messages bytes (now - base))
        exactMessages exactBytes (now - base).toNat) ↔
      RatesExact messages bytes exactMessages exactBytes := by
  constructor
  · intro h duration hd
    have hcancel : duration + base - base = duration := UInt64.add_sub_cancel duration base
    have hprinted := h (duration + base)
    rw [hcancel] at hprinted
    exact hprinted hd
  · intro h now hd
    exact h (now - base) hd

/-- Where every message has a byte, the bytes decide. -/
theorem ratesExact_iff_bytes (messages bytes : UInt64) (exactMessages exactBytes : ℕ)
    (hm : messages.toNat = exactMessages % 2 ^ 64) (hb : bytes.toNat = exactBytes % 2 ^ 64)
    (hle : exactMessages ≤ exactBytes) :
    RatesExact messages bytes exactMessages exactBytes ↔ exactBytes * 1000000000 < 2 ^ 64 := by
  rw [ratesExact_iff messages bytes exactMessages exactBytes hm hb]
  constructor
  · intro h
    exact h.2
  · intro h
    exact ⟨Nat.lt_of_le_of_lt (Nat.mul_le_mul_right _ hle) h, h⟩

end AeronFast.Throughput
