import DaemonProxy.Model.Exec
import DaemonProxy.Proofs.PackedVars
import DaemonProxy.Proofs.StrSeg
import Mathlib.Data.List.TakeWhile

/-! # What is read back from the variables

A value that is set is read back up to its first NUL, and what is behind that NUL becomes entries of its own. As long as no
value has a NUL, the packed string is a map from names to values.
-/

namespace DaemonProxy.Proofs

open Model

/-! ## Entries -/

theorem entriesOf_token {entry : Bytes} (rest : Bytes) (free : 0 ∉ entry) : entriesOf (entry ++ 0 :: rest) = entry :: entriesOf rest := by
  induction entry with
  | nil => rfl
  | cons c entry ih =>
    rw [List.mem_cons, not_or] at free
    rw [List.cons_append, entriesOf, if_neg (Ne.symm free.1), ih free.2]

theorem entriesOf_value (value rest : Bytes) : entriesOf (value ++ 0 :: rest) = value.splitOn 0 ++ entriesOf rest := by
  by_cases member : 0 ∈ value
  · obtain ⟨first, later, same, free⟩ := List.eq_append_cons_of_mem member
    have shorter : later.length < value.length := by
      rw [same, List.length_append, List.length_cons]
      omega
    rw [same, List.append_assoc, List.cons_append, entriesOf_token _ free, entriesOf_value later rest,
      List.splitOn_append_cons_self_of_not_mem free, List.cons_append]
  · rw [entriesOf_token _ member, List.splitOn_eq_singleton member, List.singleton_append]
termination_by value.length

theorem entriesOf_pack_append {entries : List Bytes} (rest : Bytes) (free : ∀ e ∈ entries, 0 ∉ e) :
    entriesOf (pack entries ++ rest) = entries ++ entriesOf rest := by
  induction entries with
  | nil => rfl
  | cons entry later ih =>
    rw [List.forall_mem_cons] at free
    rw [pack_cons, List.append_assoc, List.cons_append, entriesOf_token _ free.1, ih free.2, List.cons_append]

theorem entriesOf_pack {entries : List Bytes} (free : ∀ e ∈ entries, 0 ∉ e) : entriesOf (pack entries) = entries := by
  have whole := entriesOf_pack_append [] free
  rwa [List.append_nil, show entriesOf [] = [] from rfl, List.append_nil] at whole

variable {name : Bytes}

/-- An entry is its name, or goes on with `=`. -/
theorem entry_of_key {entry : Bytes} (key : entryKey entry = name) : entry = name ∨ ∃ old, entry = name ++ 61 :: old := by
  by_cases member : 61 ∈ entry
  · obtain ⟨first, later, rfl, free⟩ := List.eq_append_cons_of_mem member
    rw [entryKey, splitAtSep_token free] at key
    exact .inr ⟨later, by rw [← key]⟩
  · rw [entryKey, splitAtSep_of_notMem member] at key
    exact .inl key

theorem entryKey_self (free : 61 ∉ name) : entryKey name = name := by rw [entryKey, splitAtSep_of_notMem free]

theorem entryKey_entry {value : Bytes} (free : 61 ∉ name) : entryKey (name ++ 61 :: value) = name := by
  rw [entryKey, splitAtSep_token free]

variable {packed name : Bytes} {value : Option Bytes}

theorem entriesOf_packedSet_missing (other : ∀ e ∈ entriesOf packed, entryKey e ≠ name) :
    entriesOf (packedSet packed name value) =
      entriesOf packed ++ value.elim [] fun value => (name ++ 61 :: value).splitOn 0 := by
  rw [packedSet, setEntry_missing other, entriesOf_pack_append _ fun _ => entriesOf_free]
  cases value with
  | none => rfl
  | some value =>
    have whole := entriesOf_value (name ++ 61 :: value) []
    rw [List.append_assoc, List.cons_append, show entriesOf [] = [] from rfl, List.append_nil] at whole
    rw [addedEntry, whole]
    rfl

/-- The NUL that ends an entry without `=` stays in front of the new value. -/
theorem entriesOf_packedSet_found {before after : List Bytes} {entry : Bytes} (split : entriesOf packed = before ++ entry :: after)
    (other : ∀ e ∈ before, entryKey e ≠ name) (key : entryKey entry = name) :
    entriesOf (packedSet packed name value) =
      before ++ (value.elim [] fun value => if entry = name then name.splitOn 0 ++ value.splitOn 0
        else (name ++ 61 :: value).splitOn 0) ++ after := by
  have free : ∀ e ∈ before ++ entry :: after, 0 ∉ e := fun e member => entriesOf_free (split ▸ member)
  rw [packedSet, split, setEntry_found other key,
    entriesOf_pack_append _ fun e member => free e (List.mem_append_left _ member), List.append_assoc]
  congr 1
  have freeAfter : ∀ e ∈ after, 0 ∉ e := fun e member => free e (List.mem_append_right _ (List.mem_cons_of_mem _ member))
  cases value with
  | none => exact entriesOf_pack freeAfter
  | some value =>
    rw [changedEntry, Option.elim_some]
    rcases entry_of_key key with rfl | ⟨old, rfl⟩
    · rw [if_pos rfl, List.take_of_length_le (by simp), List.append_assoc, List.append_assoc, List.singleton_append,
        entriesOf_value, List.append_assoc, List.singleton_append, entriesOf_value, entriesOf_pack freeAfter, List.append_assoc]
    · have taken : (name ++ 61 :: old ++ [0]).take (name.length + 1) = name ++ [61] := by
        rw [List.append_assoc, List.take_append]
        simp
      rw [if_neg (by simp), taken, ← entriesOf_pack freeAfter, ← entriesOf_value, entriesOf_pack freeAfter]
      simp

/-! ## Reading -/

theorem getEntry_append {before later : List Bytes} (other : ∀ e ∈ before, entryKey e ≠ name) :
    getEntry name (before ++ later) = getEntry name later := by
  induction before with
  | nil => rfl
  | cons first before ih =>
    rw [List.forall_mem_cons] at other
    rw [List.cons_append, getEntry, if_neg other.1, ih other.2]

theorem cString_of_notMem {value : Bytes} (free : 0 ∉ value) : cString value = value := by
  rw [cString, List.takeWhile_eq_self_iff]
  intro c member
  exact decide_eq_true (ne_of_mem_of_not_mem member free)

theorem cString_append_zero {value : Bytes} (later : Bytes) (free : 0 ∉ value) : cString (value ++ 0 :: later) = value := by
  have nonzero : ∀ c ∈ value, decide (c ≠ 0) = true := fun c member => decide_eq_true (ne_of_mem_of_not_mem member free)
  rw [cString, List.takeWhile_append_of_pos nonzero, List.takeWhile_cons_of_neg (by simp), List.append_nil]

theorem notMem_cString (value : Bytes) : 0 ∉ cString value := by
  intro member
  exact absurd (List.mem_takeWhile_imp member) (by simp)

theorem cString_eq_self_iff {value : Bytes} : cString value = value ↔ 0 ∉ value :=
  ⟨fun same => same ▸ notMem_cString value, cString_of_notMem⟩

theorem splitOn_zero (value : Bytes) : ∃ later, value.splitOn 0 = cString value :: later := by
  by_cases member : 0 ∈ value
  · obtain ⟨first, later, rfl, free⟩ := List.eq_append_cons_of_mem member
    exact ⟨_, by rw [List.splitOn_append_cons_self_of_not_mem free, cString_append_zero later free]⟩
  · exact ⟨[], by rw [List.splitOn_eq_singleton member, cString_of_notMem member]⟩

/-- A name that an entry can have: it has neither a NUL nor `=`. -/
structure VarName (name : Bytes) : Prop where
  noNul : 0 ∉ name
  noSep : 61 ∉ name

theorem varName_tags : VarName (bytesOf "tags") := ⟨by decide, by decide⟩

theorem varName_args : VarName (bytesOf "args") := ⟨by decide, by decide⟩

theorem varName_fds : VarName (bytesOf "fds") := ⟨by decide, by decide⟩

theorem varName_triggers : VarName (bytesOf "triggers") := ⟨by decide, by decide⟩

theorem VarName.splitOn_entry (valid : VarName name) (text : Bytes) :
    ∃ later, (name ++ 61 :: text).splitOn 0 = (name ++ 61 :: cString text) :: later := by
  obtain ⟨later, same⟩ := splitOn_zero (name ++ 61 :: text)
  refine ⟨later, ?_⟩
  have nonzero : ∀ c ∈ name, decide (c ≠ 0) = true := fun c member => decide_eq_true (ne_of_mem_of_not_mem member valid.noNul)
  rw [same, cString, List.takeWhile_append_of_pos nonzero, List.takeWhile_cons_of_pos (by decide), cString]

theorem VarName.getEntry_entry (valid : VarName name) (text : Bytes) (later : List Bytes) :
    getEntry name ((name ++ 61 :: text) :: later) = some (some text) := by
  rw [getEntry, if_pos (entryKey_entry valid.noSep), if_neg (by simp), List.drop_append]
  simp

/-- What is set is read back, up to a NUL. -/
theorem packedGet_packedSet_some (valid : VarName name) (packed text : Bytes) :
    packedGet (packedSet packed name (some text)) name = some (some (cString text)) := by
  obtain ⟨later, pieces⟩ := valid.splitOn_entry text
  rw [packedGet]
  rcases exists_entry name (entriesOf packed) with other | ⟨before, entry, after, split, other, key⟩
  · rw [entriesOf_packedSet_missing other, getEntry_append other, Option.elim_some, pieces, valid.getEntry_entry]
  · rw [entriesOf_packedSet_found split other key, List.append_assoc, getEntry_append other, Option.elim_some]
    split
    · obtain ⟨others, same⟩ := splitOn_zero text
      rw [List.splitOn_eq_singleton valid.noNul, same, List.append_assoc, List.singleton_append, getEntry,
        if_pos (entryKey_self valid.noSep), if_pos rfl]
      rfl
    · rw [pieces, List.cons_append, valid.getEntry_entry]

/-- What is taken out may have stood in front of another entry of its name. -/
theorem packedGet_packedSet_none (packed name : Bytes) :
    packedGet (packedSet packed name none) name = getEntry name ((entriesOf packed).eraseP fun entry => entryKey entry = name) := by
  rw [packedGet]
  rcases exists_entry name (entriesOf packed) with other | ⟨before, entry, after, split, other, key⟩
  · rw [entriesOf_packedSet_missing other, Option.elim_none, List.append_nil, List.eraseP_of_forall_not]
    simpa using other
  · rw [entriesOf_packedSet_found split other key, Option.elim_none, List.append_nil, split, List.eraseP_append_right,
      List.eraseP_cons_of_pos (by simpa using key)]
    simpa using other

/-! ## The map -/

def entryOf (field : Bytes × Bytes) : Bytes := field.1 ++ 61 :: field.2

/-- The fields with a new value for a name, in its place, or without the name. -/
def setField (name : Bytes) (value : Option Bytes) : List (Bytes × Bytes) → List (Bytes × Bytes)
  | [] => value.elim [] fun text => [(name, text)]
  | field :: later =>
      if field.1 = name then value.elim later fun text => (name, text) :: later
      else field :: setField name value later

/-- The fields that a packed string can hold. -/
structure Fields (fields : List (Bytes × Bytes)) : Prop where
  keys : ∀ field ∈ fields, VarName field.1
  values : ∀ field ∈ fields, 0 ∉ field.2
  nodup : (fields.map Prod.fst).Nodup

variable {fields : List (Bytes × Bytes)}

theorem mem_setField {field : Bytes × Bytes} (member : field ∈ setField name value fields) :
    field ∈ fields ∨ ∃ text, value = some text ∧ field = (name, text) := by
  induction fields with
  | nil =>
    cases value with
    | none => exact nomatch member
    | some text => exact .inr ⟨text, rfl, List.mem_singleton.mp member⟩
  | cons first later ih =>
    rw [setField] at member
    split at member
    · cases value with
      | none => exact .inl (List.mem_cons_of_mem _ member)
      | some text =>
        rcases List.mem_cons.mp member with rfl | old
        · exact .inr ⟨text, rfl, rfl⟩
        · exact .inl (List.mem_cons_of_mem _ old)
    · rcases List.mem_cons.mp member with rfl | old
      · exact .inl List.mem_cons_self
      · exact (ih old).imp_left (List.mem_cons_of_mem _)

theorem nodup_setField (nodup : (fields.map Prod.fst).Nodup) :
    ((setField name value fields).map Prod.fst).Nodup := by
  induction fields with
  | nil => cases value <;> simp [setField]
  | cons first later ih =>
    rw [List.map_cons, List.nodup_cons] at nodup
    rw [setField]
    split
    · next here =>
      cases value with
      | none => exact nodup.2
      | some text =>
        rw [Option.elim_some, List.map_cons, List.nodup_cons, ← here]
        exact nodup
    · next other =>
      rw [List.map_cons, List.nodup_cons]
      refine ⟨fun member => ?_, ih nodup.2⟩
      obtain ⟨field, inside, key⟩ := List.mem_map.mp member
      rcases mem_setField inside with old | ⟨text, -, rfl⟩
      · exact nodup.1 (key ▸ List.mem_map_of_mem old)
      · exact other key.symm

theorem lookup_field (first : Bytes × Bytes) (later : List (Bytes × Bytes)) (key : Bytes) :
    (first :: later).lookup key = if key = first.1 then some first.2 else later.lookup key := by
  rw [List.lookup_cons]
  by_cases here : key = first.1
  · simp [here]
  · rw [if_neg here, beq_eq_false_iff_ne.mpr here]

theorem lookup_of_notMem {key : Bytes} (absent : key ∉ fields.map Prod.fst) :
    fields.lookup key = none := by
  rw [List.lookup_eq_none_iff]
  intro field member
  rw [bne_iff_ne]
  rintro rfl
  exact absent (List.mem_map_of_mem member)

theorem lookup_setField (nodup : (fields.map Prod.fst).Nodup) (key : Bytes) :
    (setField name value fields).lookup key = if key = name then value else fields.lookup key := by
  induction fields with
  | nil =>
    cases value with
    | none => simp [setField]
    | some text => exact lookup_field (name, text) [] key
  | cons first later ih =>
    rw [List.map_cons, List.nodup_cons] at nodup
    rw [setField, lookup_field]
    split
    · next here =>
      rw [here] at nodup ⊢
      cases value with
      | none =>
        rw [Option.elim_none]
        split
        · next same => exact lookup_of_notMem (same ▸ nodup.1)
        · rfl
      | some text =>
        rw [Option.elim_some, lookup_field]
        split <;> rfl
    · next other =>
      rw [lookup_field, ih nodup.2]
      by_cases here : key = first.1
      · simp [here, other]
      · simp [here]

variable {fields : List (Bytes × Bytes)}

theorem Fields.tail {field : Bytes × Bytes} (valid : Fields (field :: fields)) : Fields fields where
  keys other member := valid.keys other (List.mem_cons_of_mem _ member)
  values other member := valid.values other (List.mem_cons_of_mem _ member)
  nodup := (List.nodup_cons.mp valid.nodup).2

theorem Fields.free (valid : Fields fields) : ∀ entry ∈ fields.map entryOf, 0 ∉ entry := by
  intro entry member
  obtain ⟨field, inside, rfl⟩ := List.mem_map.mp member
  rw [entryOf, List.mem_append, List.mem_cons, not_or, not_or]
  exact ⟨(valid.keys field inside).noNul, by decide, valid.values field inside⟩

theorem Fields.set (valid : Fields fields) (key : VarName name) (free : ∀ text ∈ value, 0 ∉ text) :
    Fields (setField name value fields) := by
  refine ⟨fun field member => ?_, fun field member => ?_, nodup_setField valid.nodup⟩
  · rcases mem_setField member with old | ⟨text, -, rfl⟩
    · exact valid.keys field old
    · exact key
  · rcases mem_setField member with old | ⟨text, set, rfl⟩
    · exact valid.values field old
    · exact free text set

theorem getEntry_fields (valid : Fields fields) (name : Bytes) : getEntry name (fields.map entryOf) = some (fields.lookup name) := by
  induction fields with
  | nil => rfl
  | cons first later ih =>
    have key : VarName first.1 := valid.keys first List.mem_cons_self
    rw [List.map_cons, lookup_field]
    split
    · next here => rw [here, entryOf, key.getEntry_entry]
    · next other => rw [getEntry, if_neg (by rw [entryOf, entryKey_entry key.noSep]; exact Ne.symm other), ih valid.tail]

theorem setEntry_fields (valid : Fields fields) :
    setEntry name value (fields.map entryOf) = pack ((setField name value fields).map entryOf) := by
  induction fields with
  | nil => cases value <;> simp [setEntry, setField, addedEntry, entryOf]
  | cons first later ih =>
    have key : VarName first.1 := valid.keys first List.mem_cons_self
    rw [List.map_cons, setEntry, setField, show entryKey (entryOf first) = first.1 from entryKey_entry key.noSep]
    split
    · next here =>
      cases value with
      | none => rfl
      | some text =>
        have taken : (entryOf first ++ [0]).take (name.length + 1) = name ++ [61] := by
          rw [entryOf, here, List.append_assoc, List.take_append]
          simp
        rw [changedEntry, taken, Option.elim_some, List.map_cons, pack_cons, entryOf]
        simp
    · rw [List.map_cons, pack_cons, ih valid.tail]

/-- The packed string holds the variables that are set, each once. -/
def Stores (vars : Bytes → Option Bytes) (packed : Bytes) : Prop :=
  ∃ fields, Fields fields ∧ packed = pack (fields.map entryOf) ∧ ∀ name, vars name = fields.lookup name

theorem stores_nil : Stores (fun _ => none) [] := ⟨[], ⟨nofun, nofun, .nil⟩, rfl, fun _ => rfl⟩

namespace Stores

variable {vars : Bytes → Option Bytes}

theorem get (stores : Stores vars packed) (name : Bytes) : packedGet packed name = some (vars name) := by
  obtain ⟨fields, valid, rfl, same⟩ := stores
  rw [packedGet, entriesOf_pack valid.free, getEntry_fields valid, same]

theorem entry (stores : Stores vars packed) {entry : Bytes} (member : entry ∈ entriesOf packed) :
    ∃ name text, VarName name ∧ entry = name ++ 61 :: text := by
  obtain ⟨fields, valid, rfl, -⟩ := stores
  rw [entriesOf_pack valid.free] at member
  obtain ⟨field, inside, rfl⟩ := List.mem_map.mp member
  exact ⟨field.1, field.2, valid.keys field inside, rfl⟩

theorem set (stores : Stores vars packed) (valid : VarName name) (free : ∀ text ∈ value, 0 ∉ text) :
    Stores (Function.update vars name value) (packedSet packed name value) := by
  obtain ⟨fields, fits, rfl, same⟩ := stores
  refine ⟨setField name value fields, fits.set valid free, ?_, fun key => ?_⟩
  · rw [packedSet, entriesOf_pack fits.free, setEntry_fields fits]
  · rw [lookup_setField fits.nodup, Function.update_apply, same]

end Stores

end DaemonProxy.Proofs
