import DaemonProxy.Model.CommandTable
import DaemonProxy.Proofs.ObjectIndex

/-! # Looking up commands

The hash function that is printed in C is the one by which the script has placed the commands, so that a lookup in the generated
table finds exactly the commands.
-/

namespace DaemonProxy.Soundness

open Lib Model Model.CommandTable Proofs

variable {φ : Type}

/-! ## The two hash functions -/

variable {shift : ℕ}

theorem i32Mask_getLsbD (small : shift < 11) {i : ℕ} (bit : i < 32) :
    (i32Mask shift).getLsbD i = decide (shift + i < 32) := by
  have all : ∀ shift < 11, ∀ i < 32, (i32Mask shift).getLsbD i = decide (shift + i < 32) := by decide +kernel
  exact all shift small i bit

variable {mul : ℕ}

/-- The low 32 bits of the script's hash are those of the C hash, before and after a character. -/
theorem setWidth_hashStep (small : shift < 11) (result : BitVec 64) (c : UInt8) :
    (hashStep mul shift result c).setWidth 32 = cHashStep mul shift (result.setWidth 32) c := by
  have product : (result * BitVec.ofNat 64 mul).setWidth 32 = result.setWidth 32 * BitVec.ofNat 32 mul := by
    rw [BitVec.setWidth_mul _ _ (by decide), BitVec.setWidth_ofNat_of_le (by decide)]
  -- The mask keeps the bits that come from below bit 32, which are those that the shift of 32 bits moves.
  have shifted : ((result * BitVec.ofNat 64 mul).sshiftRight shift &&& i32Mask shift).setWidth 32 =
      (result.setWidth 32 * BitVec.ofNat 32 mul) >>> shift := by
    rw [← product]
    apply BitVec.eq_of_getLsbD_eq
    intro i bit
    have inside : ¬64 ≤ i := by omega
    have low : shift + i < 64 := by omega
    rw [BitVec.getLsbD_setWidth, BitVec.getLsbD_and, BitVec.getLsbD_sshiftRight, i32Mask_getLsbD small bit,
      BitVec.getLsbD_ushiftRight, BitVec.getLsbD_setWidth]
    simp only [bit, inside, low, decide_true, decide_false, Bool.not_false, Bool.true_and, if_true, Bool.and_comm]
  rw [hashStep, cHashStep, BitVec.setWidth_add _ _ (by decide), shifted, BitVec.setWidth_ofNat_of_le (by decide)]

theorem setWidth_hash (small : shift < 11) (string : Bytes) (result : BitVec 64) :
    (string.foldl (hashStep mul shift) result).setWidth 32 = string.foldl (cHashStep mul shift) (result.setWidth 32) := by
  induction string generalizing result with
  | nil => rfl
  | cons c rest ih => rw [List.foldl_cons, ih, setWidth_hashStep small, List.foldl_cons]

theorem tableMask_lt {count : ℕ} (fits : count ≤ 2 ^ 30) : tableMask count < 2 ^ 31 := by
  have smear {mask : ℕ} (small : mask < 2 ^ 31) (shift : ℕ) : mask ||| mask >>> shift < 2 ^ 31 :=
    Nat.or_lt_two_pow small ((Nat.shiftRight_le mask shift).trans_lt small)
  have start : count * 7 / 4 < 2 ^ 31 := by omega
  exact smear (smear (smear (smear (smear start 1) 2) 4) 8) 16

theorem hashFn_le (mask mul shift : ℕ) (string : Bytes) : hashFn mask mul shift string ≤ mask := by
  rw [hashFn, BitVec.toNat_and]
  exact Nat.and_le_right.trans (by rw [BitVec.toNat_ofNat]; exact Nat.mod_le ..)

/-- The bucket that the C function computes is the one of the script. -/
theorem hash_eq {mask : ℕ} (small : mask < 2 ^ 31) (mul : ℕ) (few : shift < 11) (string : Bytes) :
    ctlCommandHashFunc mask mul shift string = hashFn mask mul shift string := by
  have same : (string.foldl (hashStep mul shift) 0).setWidth 32 = string.foldl (cHashStep mul shift) 0 :=
    setWidth_hash few string 0
  have low : mask % 2 ^ 32 = mask := Nat.mod_eq_of_lt (by omega)
  have wide : mask % 2 ^ 64 = mask := Nat.mod_eq_of_lt (by omega)
  have masked (value : ℕ) : value % 2 ^ 32 &&& mask = value &&& mask := by
    apply Nat.eq_of_testBit_eq
    intro i
    rw [Nat.testBit_and, Nat.testBit_and, Nat.testBit_mod_two_pow]
    by_cases bit : i < 32
    · simp [bit]
    · have high : mask.testBit i = false := Nat.testBit_lt_two_pow (by
        have := Nat.pow_le_pow_right (show 0 < 2 by decide) (not_lt.mp bit)
        omega)
      simp [high]
  have nat : (BitVec.setWidth 32 (string.foldl (hashStep mul shift) 0) &&& BitVec.ofNat 32 mask).toNat =
      hashFn mask mul shift string := by
    rw [hashFn, BitVec.toNat_and, BitVec.toNat_and, BitVec.toNat_setWidth, BitVec.toNat_ofNat, BitVec.toNat_ofNat, low, wide, masked]
  have bound := hashFn_le mask mul shift string
  rw [ctlCommandHashFunc, ← same, BitVec.toInt_eq_toNat_of_lt (by omega), nat]

/-! ## The lookup -/

/-- The handler registered for a name. -/
def registered (commands : CommandSet φ) (name : Bytes) : Option φ :=
  (commands.entries.find? fun entry => entry.1 = name).map Prod.snd

theorem found_built {commands : CommandSet φ} {table : List (Option (Bytes × φ))}
    (found : findCollisionlessHashParams commands = some (table, mul, shift)) :
    shift < 11 ∧ buildTable commands mul shift = some table := by
  obtain ⟨mul', -, inner⟩ := List.exists_of_findSome?_eq_some found
  obtain ⟨shift', few, built⟩ := List.exists_of_findSome?_eq_some inner
  obtain ⟨table', built, same⟩ := Option.map_eq_some_iff.mp built
  cases same
  exact ⟨List.mem_range.mp few, built⟩

/-- In the table that the script finds, a name leads to the handler that is registered for it. -/
theorem ctlFindCommand_eq {commands : CommandSet φ} {table : List (Option (Bytes × φ))}
    (found : findCollisionlessHashParams commands = some (table, mul, shift)) (name : Bytes) :
    CommandTable.ctlFindCommand table (tableMask commands.entries.length) mul shift name = some (registered commands name) := by
  have small := tableMask_lt commands.fits
  obtain ⟨few, built⟩ := found_built found
  have inside : hashFn (tableMask commands.entries.length) mul shift name < tableMask commands.entries.length + 1 :=
    Nat.lt_succ_of_le (hashFn_le ..)
  obtain ⟨slot, bucket, lookup⟩ := place_lookup commands.distinct built inside
  have stored : (table ++ [none])[hashFn (tableMask commands.entries.length) mul shift name]? = some slot := by
    rw [List.getElem?_append_left (List.getElem?_eq_some_iff.mp bucket).1, bucket]
  rw [CommandTable.ctlFindCommand, hash_eq small mul few name, registered, ← lookup]
  change Option.map _ ((table ++ [none])[hashFn (tableMask commands.entries.length) mul shift name]?) = _
  rw [stored, Option.map_some]
  cases slot with
  | none => rfl
  | some entry =>
    obtain ⟨command, fn⟩ := entry
    rcases eq_or_ne command name with rfl | other
    · simp [Option.filter, strsegCmp_eq_zero]
    · simp [Option.filter, strsegCmp_eq_zero, other, other.symm]

/-- For every set of commands, every multiplier and every shift, the two hash functions agree on every string, and in the table
that the script finds a name leads to the handler that is registered for it, and any other string to nothing. -/
theorem command_lookup_exact (commands : CommandSet φ) :
    (∀ mul shift, shift < 11 → ∀ string, ctlCommandHashFunc (tableMask commands.entries.length) mul shift string =
      hashFn (tableMask commands.entries.length) mul shift string) ∧
    ∀ table mul shift, findCollisionlessHashParams commands = some (table, mul, shift) → ∀ name,
      CommandTable.ctlFindCommand table (tableMask commands.entries.length) mul shift name = some (registered commands name) := by
  have small := tableMask_lt commands.fits
  constructor
  · intro mul shift few string
    exact hash_eq small mul few string
  · intro table mul shift found name
    exact ctlFindCommand_eq found name

/-- The commands of the daemon. -/
def daemonCommands : CommandSet Command := ⟨commandTable, by decide, by decide⟩

/-- Whatever parameters the script finds for the commands of the daemon, the lookup is the one of the model. -/
theorem daemonCommands_lookup {table : List (Option (Bytes × Command))}
    (found : findCollisionlessHashParams daemonCommands = some (table, mul, shift)) (name : Bytes) :
    CommandTable.ctlFindCommand table (tableMask commandTable.length) mul shift name = some (Model.ctlFindCommand name) :=
  ctlFindCommand_eq found name

/-- For `echo` and `exit` alone, and for nothing else, the script finds a table in which `exit` is found. -/
theorem command_lookup_exit :
    let commands : CommandSet Command := ⟨[(bytesOf "echo", .echo), (bytesOf "exit", .exit)], by decide, by decide⟩
    ∃ table mul shift, findCollisionlessHashParams commands = some (table, mul, shift) ∧
      CommandTable.ctlFindCommand table 3 mul shift (bytesOf "exit") = some (some .exit) ∧
      CommandTable.ctlFindCommand table 3 mul shift (bytesOf "quit") = some none := by
  intro commands
  obtain ⟨⟨table, mul, shift⟩, found⟩ := Option.isSome_iff_exists.mp
    (show (findCollisionlessHashParams commands).isSome = true by decide +kernel)
  have lookup := (command_lookup_exact commands).2 table mul shift found
  rw [show tableMask commands.entries.length = 3 by decide] at lookup
  refine ⟨table, mul, shift, found, ?_, ?_⟩
  · rw [lookup, show registered commands (bytesOf "exit") = some .exit by decide]
  · rw [lookup, show registered commands (bytesOf "quit") = none by decide]

end DaemonProxy.Soundness
