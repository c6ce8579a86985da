import Mathlib.Data.List.Basic

/-!
The shared types and constants of the two programs, as in `common_types.h`
and `time_utils.h`. Unsigned 64-bit fields and `size_t` are `UInt64`. A `char`
array is the list of its bytes, one `Char` a byte, the terminator included.
-/
namespace AeronFast.CommonTypes

abbrev TimestampNs := UInt64

def timestampSize : ℕ := 8

def minMessageSize : ℕ := timestampSize

def defaultChannel : List Char := "aeron:udp?endpoint=localhost:20121".toList

def defaultStreamId : Int := 1001

def defaultMessageSize : UInt64 := 1024

def defaultMessageCount : UInt64 := 1000000

def defaultTargetMessageCount : UInt64 := 20000000

def defaultFragmentLimit : Int := 10

/-- `UINT64_MAX` -/
def uint64Max : UInt64 := 18446744073709551615

theorem le_uint64Max (a : UInt64) : a ≤ uint64Max := by
  have h := a.toNat_lt
  rw [UInt64.le_iff_toNat_le]
  exact Nat.le_of_lt_succ h

inductive TransportType
  | udp
  | ipc
  | networkUdp
  deriving DecidableEq, Repr

structure Config where
  transportType : TransportType
  channel : List Char
  customEndpoint : List Char
  aeronDir : List Char
  streamId : Int
  messageSize : UInt64
  messageCount : UInt64
  targetMessageCount : UInt64
  fragmentLimit : Int
  deriving DecidableEq, Repr

/-- `ERROR_MEMORY_ALLOC` is an alias of the third code. -/
inductive ErrorCode
  | success
  | invalidParam
  | memoryAllocation
  | timeout
  | network
  | fileIo
  deriving DecidableEq, Repr

def ErrorCode.value : ErrorCode → Int
  | success => 0
  | invalidParam => -1
  | memoryAllocation => -2
  | timeout => -3
  | network => -4
  | fileIo => -5

/-- The exit status either `main` makes of the code its run returned. -/
def exitStatus (code : ErrorCode) : Int := if code = .success then 0 else 1

end AeronFast.CommonTypes
