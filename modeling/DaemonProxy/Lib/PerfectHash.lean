import Mathlib.Data.List.Basic
import Mathlib.Data.List.Nodup

/-! # Hash tables without collisions

A table of buckets into which entries are placed by the hash of their keys, one to a bucket. If all entries find a place, a key
is in the table exactly if it is the one in its bucket.
-/

namespace DaemonProxy.Lib

variable {κ φ : Type}

/-- Places the entries one after the other; `none` if a bucket is taken or missing. -/
def place (hash : κ → ℕ) : List (κ × φ) → List (Option (κ × φ)) → Option (List (Option (κ × φ)))
  | [], table => some table
  | entry :: rest, table =>
      match table[hash entry.1]? with
      | some none => place hash rest (table.set (hash entry.1) (some entry))
      | _ => none

variable {hash : κ → ℕ} {entries : List (κ × φ)} {table table' : List (Option (κ × φ))}

theorem place_length (placed : place hash entries table = some table') : table'.length = table.length := by
  induction entries generalizing table with
  | nil =>
    cases placed
    rfl
  | cons entry rest ih =>
    rw [place] at placed
    split at placed
    · rw [ih placed, List.length_set]
    · exact nomatch placed

/-- An entry is in a bucket if it was there before or has been placed there. -/
theorem place_getElem (placed : place hash entries table = some table') (i : ℕ) (e : κ × φ) :
    table'[i]? = some (some e) ↔ table[i]? = some (some e) ∨ e ∈ entries ∧ hash e.1 = i := by
  induction entries generalizing table with
  | nil =>
    cases placed
    simp
  | cons entry rest ih =>
    rw [place] at placed
    split at placed
    · next free =>
      rw [ih placed, List.mem_cons]
      by_cases here : hash entry.1 = i
      · subst here
        have inside := (List.getElem?_eq_some_iff.mp free).1
        rw [List.getElem?_set_self inside, free]
        simp only [Option.some.injEq, reduceCtorEq, false_or]
        constructor
        · rintro (rfl | ⟨later, bucket⟩)
          · exact ⟨.inl rfl, rfl⟩
          · exact ⟨.inr later, bucket⟩
        · rintro ⟨rfl | later, bucket⟩
          · exact .inl rfl
          · exact .inr ⟨later, bucket⟩
      · rw [List.getElem?_set_ne here]
        refine or_congr_right (and_congr_left fun bucket => ?_)
        refine (or_iff_right ?_).symm
        rintro rfl
        exact here bucket
    · exact nomatch placed

/-- The bucket of a key holds the entry of the key, if there is one. -/
theorem place_lookup [DecidableEq κ] (distinct : (entries.map Prod.fst).Nodup) {size : ℕ}
    (placed : place hash entries (List.replicate size none) = some table) {key : κ} (inside : hash key < size) :
    ∃ slot, table[hash key]? = some slot ∧
      (slot.filter fun e => e.1 = key).map Prod.snd = (entries.find? fun e => e.1 = key).map Prod.snd := by
  have length : table.length = size := (place_length placed).trans List.length_replicate
  have stored (e : κ × φ) : table[hash key]? = some (some e) ↔ e ∈ entries ∧ hash e.1 = hash key := by
    rw [place_getElem placed, List.getElem?_replicate, if_pos inside]
    simp
  obtain ⟨slot, bucket⟩ : ∃ slot, table[hash key]? = some slot :=
    ⟨_, List.getElem?_eq_getElem (length.symm ▸ inside)⟩
  refine ⟨slot, bucket, ?_⟩
  cases found : entries.find? fun e => e.1 = key with
  | some e =>
    have same := List.find?_some found
    obtain rfl : e.1 = key := of_decide_eq_true same
    have here := bucket.symm.trans ((stored e).mpr ⟨List.mem_of_find?_eq_some found, rfl⟩)
    rw [Option.some_inj] at here
    simp [here, Option.filter]
  | none =>
    have absent := List.find?_eq_none.mp found
    cases slot with
    | none => rfl
    | some e =>
      have other : e.1 ≠ key := by simpa using absent e ((stored e).mp bucket).1
      simp [Option.filter, other]

end DaemonProxy.Lib
