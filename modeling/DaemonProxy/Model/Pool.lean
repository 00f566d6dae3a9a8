import DaemonProxy.Model.FdTable

/-! # Sizes of the object pools (`options.c`, `svc_preallocate`, `fd_preallocate`)

The options `--service-pool` and `--fd-pool` give the number of objects of a pool and the size of each, as 64-bit integers that
are clamped and stored as `int`. The pool is then allocated in one piece.
-/

namespace DaemonProxy.Model

open Lib

/-- The unit of a size: a power of 1024, or of 1000. -/
structure SizeUnit where
  power : ℕ
  si : Bool
deriving DecidableEq, Repr

def SizeUnit.factor (unit : SizeUnit) : ℤ := if unit.si then 1000 else 1024

/-- `LONG_MAX`. -/
def longMax : ℤ := 9223372036854775807

/-- `mul`, which is not a power for the largest of the units. -/
def SizeUnit.mul (unit : SizeUnit) : ℤ := if unit.power = 4 then longMax else unit.factor ^ unit.power

/-- The power that the letter of a unit stands for. -/
def unitPower (c : UInt8) : Option ℕ :=
  if c = 116 ∨ c = 84 then some 4
  else if c = 103 ∨ c = 71 then some 3
  else if c = 109 ∨ c = 77 then some 2
  else if c = 107 ∨ c = 75 then some 1
  else if c = 98 ∨ c = 66 then some 0
  else none

/-- What follows the letter of a unit: whether it makes the unit a power of 1000, and the rest. -/
def afterLetter : Bytes → Bool × Bytes
  | 105 :: 66 :: rest => (false, rest)
  | 66 :: rest => (true, rest)
  | rest => (false, rest)

/-- `strseg_parse_size`: the value and the unconsumed rest, or `none` when it returns false. -/
def strsegParseSize (string : Bytes) : Option (ℤ × Bytes) :=
  match strsegAtoi string with
  | none => none
  | some (value, []) => some (value, [])
  | some (value, c :: more) =>
      match unitPower c with
      | none => some (value, c :: more)
      | some power =>
          let mul := SizeUnit.mul ⟨power, (afterLetter more).1⟩
          -- The product must not overflow.
          if value < 0 ∨ (wrap 64 (value * mul)).tdiv mul ≠ value then none
          else some (wrap 64 (value * mul), (afterLetter more).2)

/-- The limits of a pool. -/
structure PoolLimits where
  countMin : ℤ
  countMax : ℤ
  sizeMin : ℤ
  sizeMax : Option ℤ
  sizeDefault : ℤ
  /-- The bytes of an object besides its data. -/
  header : ℤ
  count_range : 0 < countMin ∧ countMin ≤ countMax ∧ countMax < 65536
  size_range : 0 < sizeMin ∧ ∀ most ∈ sizeMax, sizeMin ≤ most
  header_range : 0 ≤ header ∧ header < 65536

namespace PoolLimits

variable (limits : PoolLimits)

end PoolLimits

/-- The two options of a pool. -/
structure PoolOptions where
  count : ℤ
  sizeEach : ℤ
deriving DecidableEq, Repr

/-- The limits of the handles, where `FD_SETSIZE` is 1024 and `PATH_MAX` is 4096. -/
def fdLimits : PoolLimits where
  countMin := 7
  countMax := 1024
  sizeMin := 32
  sizeMax := some 4096
  sizeDefault := 96
  header := sizeofFd + nameBufSize
  count_range := by decide
  size_range := ⟨by decide, by decide⟩
  header_range := by decide

/-- `((size - 1) | 0xF) + 1`: the last four bits are set before one is added. -/
def roundInt (size : ℤ) : ℤ := wrap 32 (wrap 32 (size - 1) / 16 * 16 + 15 + 1)

/-- An `int` as a `size_t`. -/
def toSizeT (x : ℤ) : ℤ := x % 18446744073709551616

/-- What is passed to `malloc`, and where the objects start in the memory that it returns. -/
structure PoolAllocation where
  sizeEach : ℤ
  bytes : ℤ
  slots : List ℤ

/-- `svc_preallocate` and `fd_preallocate`, for an object of `header` bytes besides its data. -/
def preallocate (header count dataSizeEach : ℤ) : PoolAllocation :=
  let sizeEach := roundInt (wrap 32 (header + dataSizeEach))
  ⟨sizeEach, toSizeT (wrap 32 (count * sizeEach)), (List.range count.toNat).map fun i : ℕ => wrap 32 (sizeEach * i)⟩

def fdPreallocate (options : PoolOptions) : PoolAllocation := preallocate fdLimits.header options.count options.sizeEach

end DaemonProxy.Model
