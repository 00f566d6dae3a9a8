import DaemonProxy.Model.Variables

/-! # Packed variables

How setting a variable changes the packed string of a service's variables.
-/

namespace DaemonProxy.Proofs

open Model

/-- The string is empty or ends in a NUL. -/
def Terminated (packed : Bytes) : Prop := packed = [] ∨ ∃ front, packed = front ++ [0]

@[simp] theorem pack_nil : pack [] = [] := rfl

@[simp] theorem pack_cons (entry : Bytes) (later : List Bytes) : pack (entry :: later) = entry ++ 0 :: pack later := by
  simp [pack]

theorem pack_append (first second : List Bytes) : pack (first ++ second) = pack first ++ pack second :=
  List.flatMap_append

theorem Terminated.append_cons {packed : Bytes} (front : Bytes) (ends : Terminated packed) :
    Terminated (front ++ 0 :: packed) := by
  rcases ends with rfl | ⟨rest, rfl⟩
  · exact .inr ⟨front, rfl⟩
  · exact .inr ⟨front ++ 0 :: rest, by simp⟩

theorem terminated_pack (entries : List Bytes) : Terminated (pack entries) := by
  induction entries with
  | nil => exact .inl rfl
  | cons entry later ih =>
    rw [pack_cons]
    exact ih.append_cons entry

theorem terminated_setEntry (name : Bytes) (value : Option Bytes) (entries : List Bytes) :
    Terminated (setEntry name value entries) := by
  induction entries with
  | nil =>
    cases value with
    | none => exact .inl rfl
    | some value => exact .inr ⟨name ++ 61 :: value, by simp [setEntry, addedEntry]⟩
  | cons entry later ih =>
    rw [setEntry]
    split
    · cases value with
      | none => exact terminated_pack later
      | some value =>
        have ends := (terminated_pack later).append_cons ((entry ++ [0]).take (name.length + 1) ++ value)
        simpa [changedEntry] using ends
    · exact ih.append_cons entry

theorem entriesOf_free {packed entry : Bytes} (member : entry ∈ entriesOf packed) : 0 ∉ entry := by
  induction packed generalizing entry with
  | nil => exact absurd member List.not_mem_nil
  | cons c rest ih =>
    rw [entriesOf] at member
    split at member
    · rcases List.mem_cons.mp member with rfl | later
      · exact List.not_mem_nil
      · exact ih later
    · rename_i nonzero
      cases split : entriesOf rest with
      | nil =>
        rw [split] at member
        obtain rfl := List.mem_singleton.mp member
        simp [Ne.symm nonzero]
      | cons first later =>
        rw [split] at member ih
        rcases List.mem_cons.mp member with rfl | inLater
        · simp [Ne.symm nonzero, ih List.mem_cons_self]
        · exact ih (List.mem_cons_of_mem _ inLater)

theorem entriesOf_terminated_ne_nil (front : Bytes) : entriesOf (front ++ [0]) ≠ [] := by
  cases front with
  | nil => simp [entriesOf]
  | cons c rest =>
    rw [List.cons_append, entriesOf]
    split
    · simp
    · split <;> simp

theorem pack_entriesOf {packed : Bytes} (ends : Terminated packed) : pack (entriesOf packed) = packed := by
  rcases ends with rfl | ⟨front, rfl⟩
  · rfl
  · induction front with
    | nil => rfl
    | cons c rest ih =>
      rw [List.cons_append, entriesOf]
      split
      · rename_i zero
        rw [pack_cons, ih, List.nil_append, zero]
      · cases split : entriesOf (rest ++ [0]) with
        | nil => exact absurd split (entriesOf_terminated_ne_nil rest)
        | cons first later =>
          rw [split, pack_cons] at ih
          rw [pack_cons, List.cons_append, ih]

theorem setEntry_found {name : Bytes} {value : Option Bytes} {before after : List Bytes} {entry : Bytes}
    (other : ∀ e ∈ before, entryKey e ≠ name) (here : entryKey entry = name) :
    setEntry name value (before ++ entry :: after) = pack before ++ (changedEntry name entry value ++ pack after) := by
  induction before with
  | nil => rw [List.nil_append, setEntry, if_pos here, pack_nil, List.nil_append]
  | cons first before ih =>
    rw [List.cons_append, setEntry, if_neg (other first List.mem_cons_self),
      ih fun e member => other e (List.mem_cons_of_mem _ member), pack_cons, List.append_assoc, List.cons_append]

theorem setEntry_missing {name : Bytes} {value : Option Bytes} {entries : List Bytes}
    (other : ∀ e ∈ entries, entryKey e ≠ name) : setEntry name value entries = pack entries ++ addedEntry name value := by
  induction entries with
  | nil => rfl
  | cons first rest ih =>
    rw [setEntry, if_neg (other first List.mem_cons_self),
      ih fun e member => other e (List.mem_cons_of_mem _ member), pack_cons, List.append_assoc, List.cons_append]

/-- The entries up to the first one of the given name. -/
theorem exists_entry (name : Bytes) (entries : List Bytes) :
    (∀ e ∈ entries, entryKey e ≠ name) ∨
      ∃ before entry after, entries = before ++ entry :: after ∧ (∀ e ∈ before, entryKey e ≠ name) ∧ entryKey entry = name := by
  induction entries with
  | nil => exact .inl nofun
  | cons first rest ih =>
    by_cases here : entryKey first = name
    · exact .inr ⟨[], first, rest, rfl, nofun, here⟩
    · rcases ih with none | ⟨before, entry, after, rfl, other, found⟩
      · exact .inl (List.forall_mem_cons.mpr ⟨here, none⟩)
      · exact .inr ⟨first :: before, entry, after, rfl, List.forall_mem_cons.mpr ⟨here, other⟩, found⟩

section Length

variable {packed name : Bytes}

theorem length_packedSet_missing (value : Option Bytes) (ends : Terminated packed)
    (other : ∀ e ∈ entriesOf packed, entryKey e ≠ name) :
    (packedSet packed name value).length = packed.length + (addedEntry name value).length := by
  rw [packedSet, setEntry_missing other, pack_entriesOf ends, List.length_append]

theorem length_packedSet_found (value : Option Bytes) {before after : List Bytes} {entry : Bytes} (ends : Terminated packed)
    (split : entriesOf packed = before ++ entry :: after) (other : ∀ e ∈ before, entryKey e ≠ name) (here : entryKey entry = name) :
    (packedSet packed name value).length + (entry.length + 1) = packed.length + (changedEntry name entry value).length := by
  rw [packedSet, split, setEntry_found other here, ← congrArg List.length (pack_entriesOf ends), split, pack_append, pack_cons]
  simp only [List.length_append, List.length_cons]
  omega

/-- Nothing grows when a variable is taken away. -/
theorem length_packedSet_none (ends : Terminated packed) : (packedSet packed name none).length ≤ packed.length := by
  rcases exists_entry name (entriesOf packed) with other | ⟨before, entry, after, split, other, here⟩
  · have length := length_packedSet_missing none ends other
    simp only [addedEntry, List.length_nil] at length
    omega
  · have length := length_packedSet_found none ends split other here
    simp only [changedEntry, List.length_nil] at length
    omega

end Length

/-! ## Tokens -/

theorem splitAtSep_append {sep : UInt8} {token rest : Bytes} (free : sep ∉ token) :
    (splitAtSep sep (token ++ sep :: rest)).1 = token := by
  induction token with
  | nil => simp [splitAtSep]
  | cons c token ih =>
    rw [List.mem_cons, not_or] at free
    rw [List.cons_append, splitAtSep, if_neg (Ne.symm free.1), ih free.2]

theorem splitAtSep_leads (sep : UInt8) (string : Bytes) : (splitAtSep sep string).1 <+: string := by
  induction string with
  | nil => exact List.prefix_rfl
  | cons c rest ih =>
    rw [splitAtSep]
    split
    · exact List.nil_prefix
    · exact (List.prefix_cons_inj c).mpr ih

end DaemonProxy.Proofs
