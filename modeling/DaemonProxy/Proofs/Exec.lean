import DaemonProxy.Lib.Refusal
import DaemonProxy.Model.Exec
import DaemonProxy.Proofs.StrSeg

/-! # The descriptors and arguments of a child

The loops of `svc_do_exec` place descriptors in parallel: the first takes every source out of the range of the targets, so
that the second can write each target without losing a source that is still needed.
-/

namespace DaemonProxy.Proofs

open Lib Model

/-! ## Names -/

/-- The names that count. -/
def usedNames (fdSpec : Bytes) : List Bytes := (fdSpec.splitOn tab).filter (· ≠ [])

/-- The number behind a name; a dash stands for none. -/
def numberOf (fdByName : Bytes → Option ℤ) (name : Bytes) : ℤ := if name = [45] then -1 else (fdByName name).getD (-1)

/-- The name is a dash or that of a handle. -/
def Resolves (fdByName : Bytes → Option ℤ) (name : Bytes) : Prop := name = [45] ∨ (fdByName name).isSome

instance (fdByName : Bytes → Option ℤ) (name : Bytes) : Decidable (Resolves fdByName name) :=
  inferInstanceAs (Decidable (name = [45] ∨ (fdByName name).isSome))

theorem fdNames_eq (fdSpec : Bytes) : fdNames fdSpec = fdSpec.splitOn tab := strsegTokens_eq (by omega)

variable {fdByName : Bytes → Option ℤ}

theorem fillFdList_eq {names : List Bytes}
    (resolve : ∀ name ∈ names, name ≠ [] → Resolves fdByName name) :
    fillFdList fdByName names = ((names.filter (· ≠ [])).map (numberOf fdByName), false) := by
  induction names with
  | nil => rfl
  | cons name rest ih =>
    rw [List.forall_mem_cons] at resolve
    rw [fillFdList, ih resolve.2]
    by_cases empty : name = []
    · simp [empty]
    · by_cases dash : name = [45]
      · simp [dash, numberOf]
      · obtain ⟨fd, known⟩ := Option.isSome_iff_exists.mp ((resolve.1 empty).resolve_left dash)
        simp [empty, dash, known, numberOf]

theorem fdListOf_eq {fdSpec : Bytes}
    (resolve : ∀ name ∈ usedNames fdSpec, Resolves fdByName name) :
    fdListOf fdByName fdSpec = ((usedNames fdSpec).map (numberOf fdByName), false) := by
  rw [fdListOf]
  split
  · rename_i none
    subst none
    simp [usedNames]
  · rw [fdNames_eq, usedNames]
    apply fillFdList_eq
    intro name member used
    exact resolve name (List.mem_filter.mpr ⟨member, by simpa using used⟩)

/-- A name that does not exist ends the list. -/
theorem fillFdList_length (fdByName : Bytes → Option ℤ) (names : List Bytes) :
    (fillFdList fdByName names).1.length =
      ((names.filter (· ≠ [])).takeWhile (Resolves fdByName ·)).length := by
  induction names with
  | nil => rfl
  | cons name rest ih =>
    rw [fillFdList]
    by_cases empty : name = []
    · simpa [empty] using ih
    · by_cases dash : name = [45]
      · simpa [dash, Resolves] using ih
      · cases known : fdByName name with
        | none => simp [empty, dash, known, Resolves]
        | some fd => simpa [empty, dash, known, Resolves] using ih

/-! ## The first loop -/

section Raising

variable {F : Type} {limit count fuel : ℕ} {fd fd' : ℤ} {t t' : FileTable F}

/-- The file behind a number, if it is one. -/
def fileAt (t : FileTable F) (fd : ℤ) : Option F := if 0 ≤ fd then t fd.toNat else none

/-- The number is negative, or that of an open file. -/
def Usable (t : FileTable F) (fd : ℤ) : Prop := 0 ≤ fd → t fd.toNat ≠ none

instance (t : FileTable F) (fd : ℤ) : Decidable (Usable t fd) := inferInstanceAs (Decidable (0 ≤ fd → t fd.toNat ≠ none))

/-- The table keeps its files, and the numbers that the process may not have stay free. -/
structure Extends (limit : ℕ) (t t' : FileTable F) : Prop where
  kept : ∀ i, t i ≠ none → t' i = t i
  beyond : ∀ i, limit ≤ i → t' i = t i

namespace Extends

theorem refl (t : FileTable F) : Extends limit t t := ⟨fun _ _ => rfl, fun _ _ => rfl⟩

theorem trans {t'' : FileTable F} (first : Extends limit t t') (second : Extends limit t' t'') : Extends limit t t'' := by
  constructor
  · intro i held
    have same := first.kept i held
    rw [second.kept i (by rwa [same]), same]
  · intro i above
    rw [second.beyond i above, first.beyond i above]

theorem fileAt (extends' : Extends limit t t') (usable : Usable t fd) : fileAt t' fd = Proofs.fileAt t fd := by
  rw [Proofs.fileAt, Proofs.fileAt]
  split
  · rename_i isNumber
    exact extends'.kept _ (usable isNumber)
  · rfl

theorem usable (extends' : Extends limit t t') (usable : Usable t fd) : Usable t' fd := by
  intro isNumber
  rw [extends'.kept _ (usable isNumber)]
  exact usable isNumber

end Extends

variable {i : ℕ} {file : F}

theorem extends_set (free : t i = none) (below : i < limit) : Extends limit t (t.set i (some file)) := by
  constructor
  · intro j held
    apply FileTable.set_of_ne
    rintro rfl
    exact held free
  · intro j above
    exact FileTable.set_of_ne (by omega)

theorem fileAt_set : fileAt (t.set i (some file)) i = some file := by
  rw [fileAt, if_pos (Int.natCast_nonneg i), Int.toNat_natCast, FileTable.set_self]

theorem usable_set : Usable (t.set i (some file)) i := by
  intro _
  rw [Int.toNat_natCast, FileTable.set_self]
  exact Option.some_ne_none file

/-- `dup` fails only when no number is free. -/
theorem execDup_finishes (isNumber : 0 ≤ fd) (usable : Usable t fd) :
    Finishes (execDup limit fd) t
      (fun fd' t' => ∃ (i : ℕ) (file : F), fd' = i ∧ t i = none ∧ i < limit ∧ fileAt t fd = some file ∧ t' = t.set i (some file))
      (fun _ _ => FileTable.freeIn count limit t = 0) := by
  apply Finishes.get_bind
  cases duped : t.dup limit fd.toNat with
  | some result =>
    obtain ⟨i, t'⟩ := result
    obtain ⟨file, known, lowest, rfl⟩ := FileTable.dup_eq_some duped
    have known' : fileAt t fd = some file := by rw [fileAt, if_pos isNumber, known]
    exact ⟨.ok i, _, rfl, i, file, rfl, FileTable.lowestFree_free lowest, FileTable.lowestFree_lt lowest, known', rfl⟩
  | none =>
    apply finishes_throw
    apply FileTable.freeIn_full
    intro i below free
    obtain ⟨file, known⟩ := Option.ne_none_iff_exists'.mp (usable isNumber)
    obtain ⟨j, lowest⟩ := FileTable.exists_lowestFree free below
    rw [FileTable.dup, known, lowest] at duped
    cases duped

/-- What the loop around `dup` makes of a number: one out of the range of the targets, with the same file. -/
structure Raised (count : ℕ) (t t' : FileTable F) (fd fd' : ℤ) : Prop where
  file : fileAt t' fd' = fileAt t fd
  usable : Usable t' fd'
  away : fd' < 0 ∨ count ≤ fd'

/-- Each `dup` that lands too low takes one of the free numbers there, so that the loop ends. -/
theorem raiseFd_finishes (usable : Usable t fd) (enough : FileTable.freeIn 0 count t + 1 < fuel) :
    Finishes (raiseFd limit count fuel fd) t
      (fun fd' t' => Raised count t t' fd fd' ∧ Extends limit t t' ∧
        FileTable.freeIn count limit t ≤ FileTable.freeIn count limit t' + 1)
      (fun _ _ => FileTable.freeIn count limit t = 0) := by
  induction fuel generalizing fd t with
  | zero => omega
  | succ fuel ih =>
    rw [raiseFd]
    split
    · rename_i low
      apply (execDup_finishes low.1 usable).bind
      rintro _ _ ⟨i, file, rfl, free, below, known, rfl⟩
      have grown : Extends limit t (t.set i (some file)) := extends_set free below
      have same : fileAt (t.set i (some file)) i = fileAt t fd := by rw [fileAt_set, known]
      by_cases high : count ≤ i
      · -- the next test leaves the loop
        obtain ⟨fuel, rfl⟩ : ∃ before, fuel = before + 1 := ⟨fuel - 1, by omega⟩
        have fewer : FileTable.freeIn count limit (t.set i (some file)) + 1 = FileTable.freeIn count limit t :=
          FileTable.freeIn_set free high below
        rw [raiseFd, if_neg (by omega)]
        exact finishes_pure _ ⟨⟨same, usable_set, by omega⟩, grown, by omega⟩
      · have fewer : FileTable.freeIn 0 count (t.set i (some file)) + 1 = FileTable.freeIn 0 count t :=
          FileTable.freeIn_set free (Nat.zero_le i) (by omega)
        have elsewhere : FileTable.freeIn count limit (t.set i (some file)) = FileTable.freeIn count limit t :=
          FileTable.freeIn_set_outside (by omega)
        apply (ih usable_set (by omega)).mono
        · rintro fd' t' ⟨raised, further, room⟩
          exact ⟨⟨raised.file.trans same, raised.usable, raised.away⟩, grown.trans further, by omega⟩
        · intro _ _ full
          omega
    · rename_i away
      exact finishes_pure _ ⟨⟨rfl, usable, by omega⟩, .refl t, by omega⟩

variable {fds : List ℤ}

/-- The first loop, from any round on: `origin` is the table before it. Later rounds leave in place what earlier ones have
raised. -/
theorem raiseFds_finishes {origin : FileTable F} (usable : ∀ fd ∈ fds, Usable origin fd)
    (grown : Extends limit origin t) :
    Finishes (raiseFds limit count fds) t
      (fun raised t' => List.Forall₂ (Raised count origin t') fds raised ∧ Extends limit t t')
      (fun _ _ => FileTable.freeIn count limit t < fds.length) := by
  induction fds generalizing t with
  | nil => exact finishes_pure _ ⟨.nil, .refl t⟩
  | cons fd rest ih =>
    rw [List.forall_mem_cons] at usable
    have bound : FileTable.freeIn 0 count t ≤ count := FileTable.freeIn_le 0 count t
    rw [raiseFds]
    apply ((raiseFd_finishes (grown.usable usable.1) (by omega)).mono (fun _ _ => id) ?_).bind
    · rintro fd' t' ⟨first, further, room⟩
      apply ((ih usable.2 (grown.trans further)).mono (fun _ _ => id) ?_).bind
      · rintro raised t'' ⟨others, last⟩
        have file : fileAt t'' fd' = fileAt origin fd := by
          rw [last.fileAt first.usable, first.file, grown.fileAt usable.1]
        exact finishes_pure _ ⟨.cons ⟨file, last.usable first.usable, first.away⟩ others, further.trans last⟩
      · intro _ _ full
        rw [List.length_cons]
        omega
    · intro _ _ full
      rw [full, List.length_cons]
      omega

theorem raised_away {raised : List ℤ} (all : List.Forall₂ (Raised count t t') fds raised) :
    ∀ fd ∈ raised, fd < 0 ∨ count ≤ fd := by
  induction all with
  | nil => exact nofun
  | cons first _ ih => exact List.forall_mem_cons.mpr ⟨first.away, ih⟩

theorem raised_usable {raised : List ℤ} (all : List.Forall₂ (Raised count t t') fds raised) :
    ∀ fd ∈ raised, Usable t' fd := by
  induction all with
  | nil => exact nofun
  | cons first _ ih => exact List.forall_mem_cons.mpr ⟨first.usable, ih⟩

end Raising

/-! ## The second loop -/

section Placing

variable {F : Type} {limit count : ℕ} {t : FileTable F}

variable {i : ℕ}

theorem placeFd_finishes {fd : ℤ} (usable : Usable t fd) (inside : i < count) :
    Finishes (placeFd limit i fd) t (fun _ t' => t' = t.set i (fileAt t fd)) (fun _ _ => limit < count) := by
  rw [placeFd]
  split
  · rename_i isNumber
    apply Finishes.get_bind
    obtain ⟨file, known⟩ := Option.ne_none_iff_exists'.mp (usable isNumber)
    rw [FileTable.dup2, known, Option.map_some, fileAt, if_pos isNumber, known]
    by_cases below : i < limit
    · rw [if_pos below]
      exact finishes_set rfl
    · rw [if_neg below]
      exact finishes_throw _ (by omega)
  · rename_i closed
    rw [fileAt, if_neg closed]
    exact finishes_modify rfl

/-- The table with the files of the numbers in their places, from `i` on. -/
def placedFrom (origin t : FileTable F) (i : ℕ) (fds : List ℤ) : FileTable F := fun j =>
  if i ≤ j then (fds[j - i]?).elim (t j) (fileAt origin) else t j

theorem placedFrom_cons {origin : FileTable F} {fd : ℤ} {rest : List ℤ} :
    placedFrom origin (t.set i (fileAt origin fd)) (i + 1) rest = placedFrom origin t i (fd :: rest) := by
  funext j
  rw [placedFrom, placedFrom]
  rcases lt_trichotomy j i with before | rfl | after
  · rw [if_neg (by omega), if_neg (by omega), FileTable.set_of_ne (by omega)]
  · rw [if_neg (by omega), if_pos le_rfl, FileTable.set_self, Nat.sub_self, List.getElem?_cons_zero, Option.elim_some]
  · have next : j - i = j - (i + 1) + 1 := by omega
    rw [if_pos (by omega), if_pos (by omega), FileTable.set_of_ne (by omega), next, List.getElem?_cons_succ]

/-- The second loop, from the place `i` on. No target is a source. -/
theorem placeFds_finishes {origin : FileTable F} {fds : List ℤ} (away : ∀ fd ∈ fds, fd < 0 ∨ count ≤ fd)
    (usable : ∀ fd ∈ fds, Usable origin fd) (inside : i + fds.length ≤ count)
    (same : ∀ j, count ≤ j → t j = origin j) :
    Finishes (placeFds limit i fds) t (fun _ t' => t' = placedFrom origin t i fds) (fun _ _ => limit < count) := by
  induction fds generalizing i t with
  | nil =>
    apply finishes_pure
    funext j
    simp [placedFrom]
  | cons fd rest ih =>
    rw [List.forall_mem_cons] at away usable
    rw [List.length_cons] at inside
    have source : fileAt t fd = fileAt origin fd := by
      rw [fileAt, fileAt]
      split
      · exact same _ (by omega)
      · rfl
    have usable' : Usable t fd := by
      intro isNumber
      rw [same _ (by omega)]
      exact usable.1 isNumber
    rw [placeFds]
    apply (placeFd_finishes usable' (by omega)).bind
    rintro _ _ rfl
    rw [source, ← placedFrom_cons]
    apply ih away.2 usable.2 (by omega)
    intro j above
    rw [FileTable.set_of_ne (by omega), same j above]

end Placing

/-! ## The whole shuffle -/

/-- The i-th number has its file in the i-th place, and every other number is free. -/
structure InPlaces {F : Type} (table placed : FileTable F) (fds : List ℤ) : Prop where
  place : ∀ i (inside : i < fds.length), placed i = fileAt table fds[i]
  rest : ∀ i, fds.length ≤ i → placed i = none

/-- A process whose numbers stay below `FD_SETSIZE` ends with its descriptors in their places, unless it has none left. -/
theorem execFds_finishes {F : Type} {limit : ℕ} {table : FileTable F} {fdSpec : Bytes} {fds : List ℤ}
    (resolved : fdListOf fdByName fdSpec = (fds, false)) (usable : ∀ fd ∈ fds, Usable table fd) (bounded : limit ≤ fdSetSize)
    (below : ∀ i, limit ≤ i → table i = none) :
    Finishes (execFds limit fdByName fdSpec) table (fun _ placed => InPlaces table placed fds)
      (fun _ _ => FileTable.freeIn fds.length limit table < fds.length ∨ limit < fds.length) := by
  rw [execFds, resolved]
  apply ((raiseFds_finishes usable (.refl table)).mono (fun _ _ => id) fun _ _ => .inl).bind
  rintro raised moved ⟨all, grown⟩
  have room : 0 + raised.length ≤ fds.length := by rw [← all.length_eq, Nat.zero_add]
  apply ((placeFds_finishes (raised_away all) (raised_usable all) room fun _ _ => rfl).mono (fun _ _ => id)
    fun _ _ => .inr).bind
  rintro _ _ rfl
  apply finishes_modify
  constructor
  · intro i inside
    have inside' : i < raised.length := by rw [← all.length_eq]; exact inside
    rw [FileTable.closeFrom_apply, if_neg (by omega), placedFrom, if_pos (Nat.zero_le i), Nat.sub_zero,
      List.getElem?_eq_getElem inside', Option.elim_some]
    exact (all.get inside inside').file
  · intro i outside
    rw [FileTable.closeFrom_apply]
    split
    · rfl
    · have beyond : raised[i]? = none := List.getElem?_eq_none (by rw [← all.length_eq]; exact outside)
      rw [placedFrom, if_pos (Nat.zero_le i), Nat.sub_zero, beyond, Option.elim_none, grown.beyond i (by omega)]
      exact below i (by omega)

/-! ## Arguments -/

theorem length_splitArgs (p : ℕ) (argSpec : Bytes) : (splitArgs p argSpec).1.length = argSpec.count tab := by
  induction argSpec generalizing p with
  | nil => rfl
  | cons c rest ih =>
    rw [splitArgs, List.count_cons]
    by_cases sep : c = tab
    · simp [sep, ih]
    · simp [sep, ih]

theorem length_argvPointers (argSpec : Bytes) : (argvPointers argSpec).length = argSpec.count tab + 2 := by
  simp [argvPointers, length_splitArgs]

theorem storesInside_iff {α : Type} {reserved size : ℕ} {stored : List α} :
    StoresInside reserved size stored ↔ size * stored.length ≤ reserved := by
  rw [StoresInside]
  cases count : stored.length with
  | zero => simp
  | succ last =>
    constructor
    · intro inside
      exact inside last (by omega)
    · intro fits i before
      have : size * (i + 1) ≤ size * (last + 1) := Nat.mul_le_mul_left size (by omega)
      rw [Nat.mul_succ] at this
      omega

end DaemonProxy.Proofs
