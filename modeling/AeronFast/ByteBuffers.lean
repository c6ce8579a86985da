import Mathlib.Algebra.Group.Nat.Defs
import Mathlib.Data.List.Basic
import Mathlib.Data.Nat.Init

/-!
Fixed-width bytes of a natural number, the memory image of an unsigned word
under either host byte order, and the loop that stores a computed value in
every cell of a stretch of a buffer. Conversions to and from memory are
inverse to each other on words of the width, and a byte swap on a
little-endian host gives the image a big-endian host has without one.
-/
namespace AeronFast.ByteBuffers

/-- The `width` low bytes of a value, least significant byte first. -/
def leBytes : ℕ → ℕ → List UInt8
  | 0, _ => []
  | width + 1, value => UInt8.ofNat value :: leBytes width (value / 256)

def readLE : List UInt8 → ℕ
  | [] => 0
  | b :: rest => b.toNat + 256 * readLE rest

def beBytes (width value : ℕ) : List UInt8 := (leBytes width value).reverse

def readBE (bytes : List UInt8) : ℕ := readLE bytes.reverse

@[simp] theorem leBytes_length (width value : ℕ) : (leBytes width value).length = width := by
  induction width generalizing value with
  | zero => rfl
  | succ width ih => simp [leBytes, ih]

@[simp] theorem beBytes_length (width value : ℕ) : (beBytes width value).length = width := by
  simp [beBytes]

theorem readLE_leBytes (width value : ℕ) : readLE (leBytes width value) = value % 256 ^ width := by
  induction width generalizing value with
  | zero => simp [leBytes, readLE, Nat.mod_one]
  | succ width ih =>
    have hmod : value % 256 ^ (width + 1) = value % 256 + 256 * (value / 256 % 256 ^ width) := by
      rw [Nat.pow_succ, Nat.mul_comm, Nat.mod_mul]
    simp [leBytes, readLE, ih, hmod]

theorem readLE_lt (bytes : List UInt8) : readLE bytes < 256 ^ bytes.length := by
  induction bytes with
  | nil => simp [readLE]
  | cons b rest ih =>
    have hb : b.toNat < 256 := b.toNat_lt
    simp only [readLE, List.length_cons, Nat.pow_succ]
    omega

theorem leBytes_readLE (bytes : List UInt8) : leBytes bytes.length (readLE bytes) = bytes := by
  induction bytes with
  | nil => rfl
  | cons b rest ih =>
    have hb : b.toNat < 256 := b.toNat_lt
    have hdiv : (b.toNat + 256 * readLE rest) / 256 = readLE rest := by omega
    have hlow : UInt8.ofNat (b.toNat + 256 * readLE rest) = b := by
      apply UInt8.toNat_inj.mp
      simp only [UInt8.toNat_ofNat']
      omega
    simp only [readLE, List.length_cons, leBytes, hdiv, hlow, ih]

theorem readBE_beBytes (width value : ℕ) : readBE (beBytes width value) = value % 256 ^ width := by
  simp only [readBE, beBytes, List.reverse_reverse, readLE_leBytes]

/-- Byte `i` of the image holds the digit of weight `256 ^ i`. -/
theorem leBytes_getElem? (width value i : ℕ) (hi : i < width) :
    (leBytes width value)[i]? = some (UInt8.ofNat (value / 256 ^ i)) := by
  induction width generalizing value i with
  | zero => omega
  | succ width ih =>
    cases i with
    | zero => simp [leBytes]
    | succ i =>
      have hdiv : value / 256 / 256 ^ i = value / 256 ^ (i + 1) := by
        rw [Nat.div_div_eq_div_mul, Nat.pow_succ, Nat.mul_comm]
      rw [leBytes, List.getElem?_cons_succ, ih (value / 256) i (by omega), hdiv]

theorem beBytes_getElem? (width value i : ℕ) (hi : i < width) :
    (beBytes width value)[i]? = some (UInt8.ofNat (value / 256 ^ (width - 1 - i))) := by
  rw [beBytes, List.getElem?_reverse (by simpa using hi), leBytes_length,
    leBytes_getElem? width value _ (by omega)]

inductive ByteOrder
  | little
  | big
  deriving DecidableEq, Repr

namespace ByteOrder

/-- The bytes an unsigned value of the given width occupies in the host's memory. -/
def image : ByteOrder → ℕ → ℕ → List UInt8
  | little, width, value => leBytes width value
  | big, width, value => beBytes width value

/-- The unsigned value the host reads back from these bytes. -/
def load : ByteOrder → List UInt8 → ℕ
  | little, bytes => readLE bytes
  | big, bytes => readBE bytes

/-- Reverse the bytes of a value on a little-endian host; a big-endian host needs nothing. -/
def toBigEndian : ByteOrder → ℕ → ℕ → ℕ
  | little, width, value => readBE (leBytes width value)
  | big, _, value => value

theorem toBigEndian_lt (host : ByteOrder) (width value : ℕ) (h : value < 256 ^ width) :
    host.toBigEndian width value < 256 ^ width := by
  cases host with
  | little => simpa [toBigEndian, readBE] using readLE_lt (leBytes width value).reverse
  | big => exact h

/-- After the swap the image is the big-endian one, whatever the host. -/
theorem image_toBigEndian (host : ByteOrder) (width value : ℕ) :
    host.image width (host.toBigEndian width value) = beBytes width value := by
  cases host with
  | little => simpa [image, toBigEndian, readBE, beBytes] using
      leBytes_readLE (leBytes width value).reverse
  | big => rfl

/-- Loading bytes and swapping reads them in big-endian order, whatever the host. -/
theorem toBigEndian_load (host : ByteOrder) (bytes : List UInt8) :
    host.toBigEndian bytes.length (host.load bytes) = readBE bytes := by
  cases host with
  | little => simp only [toBigEndian, load, leBytes_readLE]
  | big => rfl

end ByteOrder

section Fill

variable {α : Type*}

/-- `for (i = start; i < start + count; i++) cells[i] = f(i)` -/
def fillLoop (f : ℕ → α) (start count : ℕ) (cells : List α) : List α :=
  (List.range' start count).foldl (fun c i => c.set i (f i)) cells

theorem fillLoop_succ (f : ℕ → α) (start count : ℕ) (cells : List α) :
    fillLoop f start (count + 1) cells =
      (fillLoop f start count cells).set (start + count) (f (start + count)) := by
  simp [fillLoop, List.range'_concat]

@[simp] theorem fillLoop_length (f : ℕ → α) (start count : ℕ) (cells : List α) :
    (fillLoop f start count cells).length = cells.length := by
  induction count with
  | zero => rfl
  | succ count ih => rw [fillLoop_succ, List.length_set, ih]

theorem fillLoop_getElem? (f : ℕ → α) (start count : ℕ) (cells : List α) (j : ℕ)
    (hj : j < cells.length) :
    (fillLoop f start count cells)[j]? =
      if start ≤ j ∧ j < start + count then some (f j) else cells[j]? := by
  induction count with
  | zero =>
    have hempty : ¬ (start ≤ j ∧ j < start + 0) := by omega
    rw [if_neg hempty]
    rfl
  | succ count ih =>
    rw [fillLoop_succ, List.getElem?_set, fillLoop_length, ih]
    by_cases hlast : start + count = j
    · subst hlast
      simp [hj]
    · have hiff : (start ≤ j ∧ j < start + (count + 1)) ↔ (start ≤ j ∧ j < start + count) := by
        omega
      simp [hlast, hiff]

/-- Filling to the end of the buffer keeps only the cells before the start. -/
theorem fillLoop_to_end (f : ℕ → α) (start : ℕ) (cells : List α) :
    fillLoop f start (cells.length - start) cells =
      cells.take start ++ (List.range' start (cells.length - start)).map f := by
  apply List.ext_getElem?
  intro j
  by_cases hj : j < cells.length
  · rw [fillLoop_getElem? f _ _ _ _ hj]
    by_cases hlow : j < start
    · rw [List.getElem?_append_left (by simp; omega), if_neg (by omega),
        List.getElem?_take_of_lt hlow]
    · rw [List.getElem?_append_right (by simp; omega), if_pos (by omega)]
      have hindex : j - (cells.take start).length = j - start := by
        rw [List.length_take, Nat.min_eq_left (by omega)]
      rw [hindex, List.getElem?_map, List.getElem?_range' (by omega)]
      have hpos : start + (j - start) = j := by omega
      simp [hpos]
  · rw [List.getElem?_eq_none (by simp; omega), List.getElem?_eq_none (by simp; omega)]

end Fill

end AeronFast.ByteBuffers
