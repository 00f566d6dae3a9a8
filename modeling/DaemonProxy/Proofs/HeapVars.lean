import DaemonProxy.Proofs.ServiceVars
import DaemonProxy.Proofs.VarStore
import Mathlib.Algebra.BigOperators.Group.Finset.Piecewise

/-! # Variables on the heap

Without a service pool the variables are in a block of their own that `realloc` moves as they grow. The search then goes
through the packed string at its new place.
-/

namespace DaemonProxy.Proofs

open Lib Model Model.Bytewise

variable {m m' : Memory} {svc a : ℕ} {packed name : Bytes} {vars : Bytes → Option Bytes}

/-! ## Reading -/

theorem holds_entry {before after : List Bytes} {entry : Bytes} (at' : VarsAt svc a packed m)
    (split : entriesOf packed = before ++ entry :: after) : m.Holds (a + (pack before).length) entry := by
  have holds := at'.holds
  rw [← pack_entriesOf at'.terminated, split, pack_append, pack_cons, Memory.holds_append, Memory.holds_append] at holds
  exact holds.2.1

/-- `svc_get_var` finds what the packed string stands for. -/
theorem svcGetVar_stores (at' : VarsAt svc a packed m) (stores : Stores vars packed) (name : Bytes) :
    Bytewise.svcGetVar svc name m = vars name := by
  have got := stores.get name
  rw [packedGet] at got
  rw [Bytewise.svcGetVar, at'.vars]
  dsimp only
  rw [Int.toNat_natCast]
  rcases findVar_vars at' with ⟨other, found⟩ | ⟨before, entry, after, split, other, here, found⟩
  · have none : getEntry name (entriesOf packed ++ []) = getEntry name [] := getEntry_append other
    rw [List.append_nil, got] at none
    rw [found, Option.map_none, Option.some_inj.mp none]
  · obtain ⟨key, text, valid, rfl⟩ := stores.entry (split ▸ List.mem_append_right _ List.mem_cons_self)
    obtain rfl : key = name := (entryKey_entry valid.noSep).symm.trans here
    rw [split, getEntry_append other, valid.getEntry_entry] at got
    have value : m.Holds (a + (pack before).length + key.length + 1) text := by
      have whole := holds_entry at' split
      rw [← List.singleton_append, Memory.holds_append, Memory.holds_append] at whole
      exact whole.2.2
    have length : (((key ++ 61 :: text).length : ℤ) - (key.length + 1)).toNat = text.length := by
      rw [List.length_append, List.length_cons]
      omega
    rw [found, Option.map_some, Seg.bytes, length, ← Option.some_inj.mp got]
    exact congrArg some value

/-! ## Setting -/

/-- The block of memory is not part of the service. -/
def Beside (svc block size : ℕ) : Prop := block + size ≤ svc ∨ svc + sizeofService ≤ block

theorem svcVars_storeData {data : ℕ} (small : data < 2 ^ 64) :
    svcVars svc (m.store (svc + 56) 8 data) = ⟨data, (svcVars svc m).len⟩ := by
  have len : (m.store (svc + 56) 8 data).load (svc + 56 + 8) 4 = m.load (svc + 56 + 8) 4 := by
    apply Memory.load_congr
    intro x above _
    exact Memory.store_outside (.inr (by omega))
  simp only [svcVars, offset_vars, segLen]
  rw [Memory.load_store (by omega), len]

/-- `realloc` moves the variables. -/
theorem varsAt_moved (at' : VarsAt svc a packed m) {block size : ℕ} (fits : packed.length ≤ size) (apart : Beside svc block size)
    (addresses : block + size ≤ 2 ^ 64) (grows : 0 < size) :
    VarsAt svc block packed ((m.move block a packed.length).store (svc + SvcMember.offset .vars) 8 block) := by
  have members : sizeofService = 352 := rfl
  rw [Beside] at apart
  rw [at'.holds.move_eq, offset_vars]
  refine ⟨?_, ?_, at'.terminated⟩
  · rw [svcVars_storeData (by omega), svcVars_congr fun x above below => Memory.write_outside (by omega), at'.vars]
  · apply Memory.holds_write.write
    rw [Memory.length_toBytes]
    omega

/-- `svc_set_var` on the heap: the variable is set, in a block that is apart from the service. -/
theorem svcSetVar_heap {value : Option Bytes} {block : Option ℕ} (at' : VarsAt svc a packed m) (apart : Beside svc a packed.length)
    (range : InInt32 ((packedSet packed name value).length - packed.length))
    (offered : ∀ b ∈ block, Beside svc b (packedSet packed name value).length ∧ b + (packedSet packed name value).length ≤ 2 ^ 64)
    (returns : svcSetVar (.heap block) svc name value m = some m') :
    ∃ b, VarsAt svc b (packedSet packed name value) m' ∧ Beside svc b (packedSet packed name value).length := by
  have members : sizeofService = 352 := rfl
  have bound := at'.small
  obtain ⟨m₁, b, granted, after⟩ := svcSetVar_room at' range returns
  obtain ⟨low, high⟩ := range
  refine ⟨b, ?_⟩
  unfold varRoom at granted
  rw [at'.vars] at granted
  dsimp only at granted
  split at granted
  case isFalse shrinks =>
    cases granted
    refine ⟨(after at' (by omega) ?_).1, ?_⟩
    · rw [Beside] at apart
      omega
    · rw [Beside] at apart ⊢
      omega
  case isTrue grows =>
    cases block with
    | none => exact nomatch granted
    | some block =>
      dsimp only at granted
      split at granted
      case isTrue => exact nomatch granted
      case isFalse fits =>
        cases granted
        obtain ⟨beside, addresses⟩ := offered b rfl
        -- a size that wraps is negative
        have size : (packedSet packed name value).length < 2147483648 := by
          by_contra large
          have wrapped : wrap 32 (packed.length + ((packedSet packed name value).length - packed.length)) < 0 := by
            simp only [wrap, Int.bmod]
            split <;> omega
          exact fits wrapped
        rw [Int.toNat_natCast] at after
        refine ⟨(after (varsAt_moved at' (by omega) beside addresses (by omega)) size ?_).1, beside⟩
        rw [Beside] at beside
        omega

/-! ## Runs -/

/-- A call of `svc_set_var`, with the answer of `realloc`. -/
structure HeapCall where
  name : Bytes
  value : Option Bytes
  realloc : Option ℕ

/-- The memory, and the value of each variable in the last call for it that returned true. -/
structure HeapState where
  mem : Memory
  last : Bytes → Option Bytes

/-- The state after a call that returns true with this memory, or false. -/
def HeapState.after (s : HeapState) (call : HeapCall) : Option Memory → HeapState
  | some mem => ⟨mem, Function.update s.last call.name call.value⟩
  | none => s

def heapStep (svc : ℕ) (s : HeapState) (call : HeapCall) : HeapState :=
  s.after call (svcSetVar (.heap call.realloc) svc call.name call.value s.mem)

/-- The names of the variables. -/
def varNames : Finset Bytes := {bytesOf "tags", bytesOf "args", bytesOf "fds", bytesOf "triggers"}

theorem varName_of_mem (member : name ∈ varNames) : VarName name := by
  have all : ∀ name ∈ varNames, 0 ∉ name ∧ 61 ∉ name := by decide
  exact ⟨(all name member).1, (all name member).2⟩

/-- The call sets one of the variables to a string without NUL, whose length is an `int`. -/
structure StringCall (call : HeapCall) : Prop where
  name : call.name ∈ varNames
  noNul : ∀ text ∈ call.value, 0 ∉ text
  length : ∀ text ∈ call.value, text.length < 2147483648

/-- `realloc` gives a block that is not part of the service. -/
def BlockApart (svc : ℕ) (s : HeapState) (call : HeapCall) : Prop :=
  ∀ block ∈ call.realloc, Beside svc block (varRequest svc call.name call.value s.mem).toNat ∧
    block + (varRequest svc call.name call.value s.mem).toNat ≤ 2 ^ 64

/-- The size of an entry that is added is an `int`. -/
def EntryFits (s : HeapState) (call : HeapCall) : Prop :=
  s.last call.name = none → ∀ text ∈ call.value, call.name.length + text.length + 2 < 2147483648

/-- The variables are the map of the last values. -/
structure HeapInv (svc : ℕ) (s : HeapState) : Prop where
  placed : ∃ a packed, VarsAt svc a packed s.mem ∧ Beside svc a packed.length ∧ Stores s.last packed
  known : ∀ name, s.last name ≠ none → name ∈ varNames

theorem length_addedEntry (name text : Bytes) : (addedEntry name (some text)).length = name.length + text.length + 2 := by
  rw [addedEntry, List.length_append, List.length_cons, List.length_append, List.length_singleton]
  omega

theorem packedSet_range {value : Option Bytes} (at' : VarsAt svc a packed m) (stores : Stores vars packed)
    (length : ∀ text ∈ value, text.length < 2147483648)
    (fits : vars name = none → ∀ text ∈ value, name.length + text.length + 2 < 2147483648) :
    InInt32 ((packedSet packed name value).length - packed.length) := by
  have bound := at'.small
  have got := stores.get name
  rw [packedGet] at got
  rcases exists_entry name (entriesOf packed) with other | ⟨before, entry, after, split, other, here⟩
  · have none : getEntry name (entriesOf packed ++ []) = getEntry name [] := getEntry_append other
    rw [List.append_nil, got] at none
    have unset : vars name = Option.none := Option.some_inj.mp none
    have sizes := length_packedSet_missing value at'.terminated other
    cases value with
    | none => exact ⟨by omega, by simp [addedEntry] at sizes; omega⟩
    | some text =>
      have small := fits unset text rfl
      rw [length_addedEntry] at sizes
      exact ⟨by omega, by omega⟩
  · have sizes := length_packedSet_found value at'.terminated split other here
    have inside : entry.length + 1 ≤ packed.length := by
      rw [← pack_entriesOf at'.terminated, split, pack_append, pack_cons]
      simp only [List.length_append, List.length_cons]
      omega
    obtain ⟨key, old, valid, rfl⟩ := stores.entry (split ▸ List.mem_append_right _ List.mem_cons_self)
    cases value with
    | none =>
      rw [changedEntry, List.length_nil] at sizes
      exact ⟨by omega, by omega⟩
    | some text =>
      have small := length text rfl
      obtain rfl : key = name := (entryKey_entry valid.noSep).symm.trans here
      rw [length_changedEntry here] at sizes
      rw [List.length_append, List.length_cons] at sizes inside
      exact ⟨by omega, by omega⟩

theorem varRequest_eq {value : Option Bytes} (at' : VarsAt svc a packed m)
    (range : InInt32 ((packedSet packed name value).length - packed.length)) :
    varRequest svc name value m = (packedSet packed name value).length := by
  have sizediff := varSizeDiff_eq at' range
  rw [varRequest, at'.vars]
  dsimp only
  rw [Int.toNat_natCast, sizediff]
  omega

theorem HeapInv.step {s : HeapState} {call : HeapCall} (inv : HeapInv svc s) (string : StringCall call)
    (offered : BlockApart svc s call) (fits : EntryFits s call) : HeapInv svc (heapStep svc s call) := by
  obtain ⟨⟨a, packed, at', beside, stores⟩, known⟩ := inv
  rw [EntryFits] at fits
  have range : InInt32 ((packedSet packed call.name call.value).length - packed.length) :=
    packedSet_range at' stores string.length fits
  rw [heapStep]
  cases returns : svcSetVar (.heap call.realloc) svc call.name call.value s.mem with
  | none => exact ⟨⟨a, packed, at', beside, stores⟩, known⟩
  | some mem =>
    rw [BlockApart, varRequest_eq at' range, Int.toNat_natCast] at offered
    obtain ⟨b, after, apart⟩ := svcSetVar_heap at' beside range offered returns
    refine ⟨⟨b, _, after, apart, stores.set (varName_of_mem string.name) string.noNul⟩, fun name set => ?_⟩
    rw [HeapState.after] at set
    dsimp only at set
    rw [Function.update_apply] at set
    split at set
    · next same => exact same ▸ string.name
    · exact known name set

/-- The constructor leaves no variables and no buffer. -/
theorem svcCtor_heap (realloc : Option ℕ) {index : OtherWrites svc} (short : name.length < 32) :
    VarsAt svc 0 [] (Bytewise.svcCtor (.heap realloc) svc name index m) := by
  have size : sizeofService = 352 := rfl
  refine ⟨?_, Memory.holds_nil, .inl rfl⟩
  unfold Bytewise.svcCtor
  dsimp only
  rw [svcVars_indexed]
  have zeros : ∀ x, svc + 56 ≤ x → x < svc + 72 →
      (((((m.write svc (List.replicate 352 0)).store (svc + 0) 4 1).write (svc + 4) name).store
        (svc + 40) 8 (svc + 4)).store (svc + 40 + 8) 4 name.length) x = 0 := by
    intro x above below
    rw [Memory.store_outside (.inr (by omega)), Memory.store_outside (.inr (by omega)), Memory.write_outside (.inr (by omega)),
      Memory.store_outside (.inr (by omega)), Memory.write_replicate (by omega) (by omega)]
  simp only [svcVars, offset_state, offset_nameBuf, offset_name, offset_vars, segLen, size]
  rw [Memory.load_zero fun x above below => zeros x (by omega) (by omega),
    Memory.load_zero fun x above below => zeros x (by omega) (by omega), List.length_nil, Nat.cast_zero, wrap32_eq inInt32_zero]

/-! ## Sizes -/

/-- The bytes that a variable takes. -/
def entrySize (name : Bytes) : Option Bytes → ℕ
  | some text => name.length + 1 + text.length + 1
  | none => 0

theorem sum_entrySize {fields : List (Bytes × Bytes)} (nodup : (fields.map Prod.fst).Nodup) {names : Finset Bytes}
    (inside : ∀ field ∈ fields, field.1 ∈ names) :
    ∑ name ∈ names, entrySize name (fields.lookup name) = (pack (fields.map entryOf)).length := by
  induction fields with
  | nil => simp [entrySize]
  | cons first later ih =>
    rw [List.map_cons, List.nodup_cons] at nodup
    rw [List.forall_mem_cons] at inside
    have absent : later.lookup first.1 = none := lookup_of_notMem nodup.1
    have others : ∀ name ∈ names \ {first.1}, entrySize name ((first :: later).lookup name) = entrySize name (later.lookup name) := by
      intro name member
      rw [Finset.mem_sdiff, Finset.mem_singleton] at member
      rw [lookup_field, if_neg member.2]
    have rest := ih nodup.2 inside.2
    rw [← Finset.sum_sdiff (Finset.singleton_subset_iff.mpr inside.1), Finset.sum_singleton, absent] at rest
    rw [← Finset.sum_sdiff (Finset.singleton_subset_iff.mpr inside.1), Finset.sum_singleton, Finset.sum_congr rfl others,
      lookup_field, if_pos rfl, List.map_cons, pack_cons, List.length_append, List.length_cons, ← rest, entryOf,
      List.length_append, List.length_cons, entrySize, entrySize]
    omega

theorem Stores.length (stores : Stores vars packed) {names : Finset Bytes} (known : ∀ name, vars name ≠ none → name ∈ names) :
    packed.length = ∑ name ∈ names, entrySize name (vars name) := by
  obtain ⟨fields, valid, rfl, same⟩ := stores
  rw [← sum_entrySize valid.nodup]
  · exact Finset.sum_congr rfl fun name _ => by rw [same]
  · intro field member
    apply known
    rw [same, Ne, List.lookup_eq_none_iff]
    exact fun absent => bne_iff_ne.mp (absent field member) rfl

end DaemonProxy.Proofs
