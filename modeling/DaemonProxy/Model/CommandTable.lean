import DaemonProxy.Lib.PerfectHash
import DaemonProxy.Model.ControllerRun

/-! # The generated table of commands (`generate_controller_data.pl`)

The script looks for parameters of a hash function that put the names of the commands into different buckets, and prints the
hash function in C with these parameters, and the table. The hash of the script works on the 64-bit integers of `use integer`,
the one in C on `uint32_t`.
-/

namespace DaemonProxy.Model.CommandTable

open Lib

variable {φ : Type}

/-- `%commands`. The index that the C function returns is an `int`, so that there are not more buckets than those. -/
structure CommandSet (φ : Type) where
  entries : List (Bytes × φ)
  distinct : (entries.map Prod.fst).Nodup
  fits : entries.length ≤ 2 ^ 30

/-- `$mask`: 1.75 times the number of entries, with all bits behind the first one set. -/
def tableMask (count : ℕ) : ℕ :=
  let mask := count * 7 / 4
  let mask := mask ||| mask >>> 1
  let mask := mask ||| mask >>> 2
  let mask := mask ||| mask >>> 4
  let mask := mask ||| mask >>> 8
  mask ||| mask >>> 16

/-- `$i32_mask`. -/
def i32Mask (shift : ℕ) : BitVec 64 := ((1 : BitVec 64) <<< (32 - shift)) - 1

/-- One character of `hash_fn`. -/
def hashStep (mul shift : ℕ) (result : BitVec 64) (c : UInt8) : BitVec 64 :=
  ((result * BitVec.ofNat 64 mul).sshiftRight shift &&& i32Mask shift) + BitVec.ofNat 64 c.toNat

def hashFn (mask mul shift : ℕ) (string : Bytes) : ℕ :=
  (string.foldl (hashStep mul shift) 0 &&& BitVec.ofNat 64 mask).toNat

def buildTable (commands : CommandSet φ) (mul shift : ℕ) : Option (List (Option (Bytes × φ))) :=
  let mask := tableMask commands.entries.length
  place (hashFn mask mul shift) commands.entries (List.replicate (mask + 1) none)

/-- `find_collisionless_hash_params`: the table, the multiplier and the shift; `none` if the script dies. -/
def findCollisionlessHashParams (commands : CommandSet φ) : Option (List (Option (Bytes × φ)) × ℕ × ℕ) :=
  let tableSize := tableMask commands.entries.length + 1
  (List.range' 1 (tableSize * tableSize - 1)).findSome? fun mul =>
    (List.range 11).findSome? fun shift => (buildTable commands mul shift).map fun table => (table, mul, shift)

/-- One character of `ctl_command_hash_func`. The multiplier is printed as an `int`, so that the product is a `uint32_t`. -/
def cHashStep (mul shift : ℕ) (x : BitVec 32) (c : UInt8) : BitVec 32 :=
  ((x * BitVec.ofNat 32 mul) >>> shift) + BitVec.ofNat 32 c.toNat

/-- `ctl_command_hash_func`, as it is printed for the parameters. -/
def ctlCommandHashFunc (mask mul shift : ℕ) (name : Bytes) : ℤ :=
  (name.foldl (cHashStep mul shift) 0 &&& BitVec.ofNat 32 mask).toInt

/-- `ctl_find_command`; the outer `none` stands for an index outside of the table. An empty entry ends the table. -/
def ctlFindCommand (table : List (Option (Bytes × φ))) (mask mul shift : ℕ) (name : Bytes) : Option (Option φ) :=
  match ctlCommandHashFunc mask mul shift name with
  | .negSucc _ => none
  | .ofNat index => (table ++ [none])[index]?.map fun
      | some (command, fn) => if strsegCmp name command = 0 then some fn else none
      | none => none

end DaemonProxy.Model.CommandTable
