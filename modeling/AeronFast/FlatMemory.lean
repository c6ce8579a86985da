import AeronFast.ByteBuffers
import Mathlib.Data.List.TakeDrop

/-!
A flat memory of bytes and the stores that change it. A store that keeps to
one stretch of addresses is not seen outside it, and what it makes of the
stretch depends only on what stood there before. Two memories are compared on
a stretch, so that who owns a stretch can reason about its own stores alone.
-/
namespace AeronFast.FlatMemory

open ByteBuffers

/-- The byte at every address. -/
abbrev Memory := ℕ → UInt8

/-- Bytes put at an address in one go. -/
structure Store where
  address : ℕ
  bytes : List UInt8
  deriving DecidableEq

def Store.apply (s : Store) (memory : Memory) : Memory := fun a =>
  if s.address ≤ a ∧ a < s.address + s.bytes.length then s.bytes.getD (a - s.address) 0
  else memory a

/-- The bytes read from an address on. -/
def load (memory : Memory) (address size : ℕ) : List UInt8 :=
  (List.range size).map fun i => memory (address + i)

def run (stores : List Store) (memory : Memory) : Memory :=
  stores.foldl (fun m s => s.apply m) memory

def blank : Memory := fun _ => 0

/-- The store keeps to a stretch of addresses. -/
def Store.Within (s : Store) (start size : ℕ) : Prop :=
  start ≤ s.address ∧ s.address + s.bytes.length ≤ start + size

/-- The memories hold the same bytes on a stretch of addresses. -/
def SameOn (start size : ℕ) (m m' : Memory) : Prop :=
  ∀ a, start ≤ a → a < start + size → m a = m' a

section Loads

theorem load_length (memory : Memory) (address size : ℕ) :
    (load memory address size).length = size := by
  simp [load]

theorem load_of_same {m m' : Memory} {start size address count : ℕ} (h : SameOn start size m m')
    (hlow : start ≤ address) (hhigh : address + count ≤ start + size) :
    load m address count = load m' address count := by
  refine List.map_congr_left fun i hi => ?_
  have hlt := List.mem_range.mp hi
  exact h (address + i) (by omega) (by omega)

theorem load_blank (address size : ℕ) : load blank address size = List.replicate size 0 := by
  simp [load, blank, List.map_const']

theorem apply_outside (s : Store) (memory : Memory) (a : ℕ)
    (h : a < s.address ∨ s.address + s.bytes.length ≤ a) : s.apply memory a = memory a := by
  unfold Store.apply
  rw [if_neg (by omega)]

theorem load_apply_disjoint (s : Store) (memory : Memory) (address size : ℕ)
    (h : address + size ≤ s.address ∨ s.address + s.bytes.length ≤ address) :
    load (s.apply memory) address size = load memory address size := by
  refine List.map_congr_left fun i hi => ?_
  have hlt := List.mem_range.mp hi
  exact apply_outside s memory (address + i) (by omega)

/-- What was stored is read back. -/
theorem load_apply_same (s : Store) (memory : Memory) (size : ℕ) (hsize : s.bytes.length = size) :
    load (s.apply memory) s.address size = s.bytes := by
  subst hsize
  refine List.ext_getElem (load_length _ _ _) fun i hi hbytes => ?_
  simp only [load, Store.apply, List.getElem_map, List.getElem_range]
  rw [if_pos (by omega), Nat.add_sub_cancel_left, List.getD_eq_getElem?_getD,
    List.getElem?_eq_getElem hbytes, Option.getD_some]

theorem image_length (host : ByteOrder) (width value : ℕ) :
    (host.image width value).length = width := by
  cases host with
  | little => exact leBytes_length width value
  | big => exact beBytes_length width value

theorem load_image (host : ByteOrder) (width value : ℕ) :
    host.load (host.image width value) = value % 256 ^ width := by
  cases host with
  | little => exact readLE_leBytes width value
  | big => exact readBE_beBytes width value

theorem readLE_zeros (size : ℕ) : readLE (List.replicate size 0) = 0 := by
  induction size with
  | zero => rfl
  | succ size ih =>
    rw [List.replicate_succ, readLE, ih]
    rfl

theorem load_zeros (host : ByteOrder) (size : ℕ) :
    host.load (List.replicate size 0) = 0 := by
  cases host with
  | little => exact readLE_zeros size
  | big =>
    rw [ByteOrder.load, readBE, List.reverse_replicate]
    exact readLE_zeros size

end Loads

section Runs

theorem run_append (first second : List Store) (memory : Memory) :
    run (first ++ second) memory = run second (run first memory) :=
  List.foldl_append

/-- Stores that start elsewhere leave the bytes of an address alone. -/
theorem load_run_disjoint {stores : List Store} {address size : ℕ}
    (h : ∀ s ∈ stores, address + size ≤ s.address ∨ s.address + s.bytes.length ≤ address)
    (memory : Memory) : load (run stores memory) address size = load memory address size := by
  induction stores generalizing memory with
  | nil => rfl
  | cons s rest ih =>
    obtain ⟨hs, hrest⟩ := List.forall_mem_cons.mp h
    have hnext := ih hrest (s.apply memory)
    rw [run, List.foldl_cons, ← run, hnext]
    exact load_apply_disjoint s memory address size hs

/-- The last store to a stretch is what is read from it. -/
theorem load_run_last (before after : List Store) (s : Store) (memory : Memory) (size : ℕ)
    (hsize : s.bytes.length = size) (hafter : ∀ s' ∈ after,
      s.address + size ≤ s'.address ∨ s'.address + s'.bytes.length ≤ s.address) :
    load (run (before ++ s :: after) memory) s.address size = s.bytes := by
  rw [run_append]
  exact (load_run_disjoint hafter _).trans (load_apply_same s _ size hsize)

variable {start size : ℕ} {m m' : Memory}

theorem sameOn_apply (s : Store) (h : SameOn start size m m') :
    SameOn start size (s.apply m) (s.apply m') := by
  intro a hlow hhigh
  unfold Store.apply
  split
  · rfl
  · exact h a hlow hhigh

/-- A store to another stretch. -/
theorem sameOn_apply_other {s : Store} {start' size' : ℕ} (hwithin : s.Within start' size')
    (hapart : start + size ≤ start' ∨ start' + size' ≤ start) (h : SameOn start size m m') :
    SameOn start size (s.apply m) m' := by
  intro a hlow hhigh
  obtain ⟨hlow', hhigh'⟩ := hwithin
  rw [apply_outside s m a (by omega)]
  exact h a hlow hhigh

end Runs

end AeronFast.FlatMemory
