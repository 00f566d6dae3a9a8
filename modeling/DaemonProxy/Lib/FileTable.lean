import Mathlib.Data.List.Basic
import Mathlib.Data.List.Range
import Mathlib.Logic.Function.Basic
import Mathlib.Order.Interval.Finset.Nat

/-! # The descriptors of a process

Each number refers to an open file or is free. `dup` takes the lowest free number below a limit, as POSIX asks for; `dup2`
and `close` act on the number they are given.
-/

namespace DaemonProxy.Lib

/-- The open file that each number refers to. -/
abbrev FileTable (F : Type) := ℕ → Option F

namespace FileTable

variable {F : Type}

def set (t : FileTable F) (i : ℕ) (file : Option F) : FileTable F := Function.update t i file

def close (t : FileTable F) (i : ℕ) : FileTable F := t.set i none

def lowestFree (limit : ℕ) (t : FileTable F) : Option ℕ := (List.range limit).find? fun i => (t i).isNone

/-- The new number, and the table with it. -/
def dup (limit : ℕ) (t : FileTable F) (fd : ℕ) : Option (ℕ × FileTable F) :=
  match t fd, lowestFree limit t with
  | some file, some i => some (i, t.set i (some file))
  | _, _ => none

def dup2 (limit : ℕ) (t : FileTable F) (fd i : ℕ) : Option (FileTable F) :=
  if i < limit then (t fd).map fun file => t.set i (some file) else none

/-- Closes the numbers from `i` on, `count` of them. -/
def closeFrom (t : FileTable F) (i : ℕ) : ℕ → FileTable F
  | 0 => t
  | count + 1 => closeFrom (t.close i) (i + 1) count

variable {t t' : FileTable F} {limit i j fd : ℕ} {file : Option F}

@[simp] theorem set_self : t.set i file i = file := Function.update_self ..

theorem set_of_ne (other : j ≠ i) : t.set i file j = t j := Function.update_of_ne other ..

theorem lowestFree_free (found : lowestFree limit t = some i) : t i = none := by
  simpa using List.find?_some found

theorem lowestFree_lt (found : lowestFree limit t = some i) : i < limit :=
  List.mem_range.mp (List.mem_of_find?_eq_some found)

theorem exists_lowestFree (free : t j = none) (below : j < limit) : ∃ i, lowestFree limit t = some i := by
  rw [lowestFree, ← Option.isSome_iff_exists, List.find?_isSome]
  exact ⟨j, List.mem_range.mpr below, by rw [free]; rfl⟩

theorem dup_eq_some (duped : t.dup limit fd = some (i, t')) :
    ∃ file, t fd = some file ∧ lowestFree limit t = some i ∧ t' = t.set i (some file) := by
  rw [dup] at duped
  split at duped
  · rename_i file i' known lowest
    cases duped
    exact ⟨file, known, lowest, rfl⟩
  · cases duped

theorem closeFrom_apply (t : FileTable F) (i count j : ℕ) :
    t.closeFrom i count j = if i ≤ j ∧ j < i + count then none else t j := by
  induction count generalizing t i with
  | zero =>
    rw [closeFrom, if_neg (by omega)]
  | succ count ih =>
    rw [closeFrom, ih]
    by_cases here : j = i
    · subst here
      rw [if_neg (by omega), if_pos (by omega)]
      exact set_self
    · rw [close, set_of_ne here]
      by_cases later : i + 1 ≤ j ∧ j < i + 1 + count
      · rw [if_pos later, if_pos (by omega)]
      · rw [if_neg later, if_neg (by omega)]

/-- How many numbers from `lo` on and below `hi` are free. -/
def freeIn (lo hi : ℕ) (t : FileTable F) : ℕ := ((Finset.Ico lo hi).filter fun i => (t i).isNone = true).card

theorem freeIn_set {lo hi : ℕ} {taken : F} (free : t i = none) (above : lo ≤ i) (below : i < hi) :
    freeIn lo hi (t.set i (some taken)) + 1 = freeIn lo hi t := by
  have member : i ∈ (Finset.Ico lo hi).filter fun i => (t i).isNone = true := by simp [free, above, below]
  have same : (Finset.Ico lo hi).filter (fun j => (t.set i (some taken) j).isNone = true) =
      ((Finset.Ico lo hi).filter fun j => (t j).isNone = true).erase i := by
    ext j
    by_cases here : j = i
    · simp [here]
    · simp [here, set_of_ne here]
  rw [freeIn, same, Finset.card_erase_add_one member, freeIn]

theorem freeIn_set_outside {lo hi : ℕ} (outside : i < lo ∨ hi ≤ i) : freeIn lo hi (t.set i file) = freeIn lo hi t := by
  apply congrArg Finset.card
  apply Finset.filter_congr
  intro j member
  rw [Finset.mem_Ico] at member
  rw [set_of_ne (by omega)]

theorem freeIn_le (lo hi : ℕ) (t : FileTable F) : freeIn lo hi t ≤ hi - lo :=
  (Finset.card_filter_le ..).trans (Nat.card_Ico lo hi).le

theorem freeIn_full {lo hi : ℕ} (full : ∀ i < hi, t i ≠ none) : freeIn lo hi t = 0 := by
  rw [freeIn, Finset.card_eq_zero, Finset.filter_eq_empty_iff]
  intro i member
  rw [Finset.mem_Ico] at member
  rw [Option.isNone_iff_eq_none]
  exact full i member.2

end FileTable

end DaemonProxy.Lib
