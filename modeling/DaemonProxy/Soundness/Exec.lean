import DaemonProxy.Proofs.Exec

/-! # What a child gets

The descriptors of a child are those that the names of its service stood for, in their order. The buffers in which
`svc_do_exec` collects descriptors and arguments are too small, since it reserves one byte for each element.
-/

namespace DaemonProxy.Soundness

open Lib Model Proofs

/-! ## Descriptors -/

/-- The loops end. Unless the process runs out of descriptors, each name has its file in its place and all other numbers are
closed; and it does not run out if there are as many free numbers above the places as there are names. -/
theorem descriptors_placed {F : Type} {limit : ℕ} {table : FileTable F} {fdByName : Bytes → Option ℤ} {fdSpec : Bytes}
    (resolve : ∀ name ∈ usedNames fdSpec, Resolves fdByName name)
    (opened : ∀ name ∈ usedNames fdSpec, Usable table (numberOf fdByName name)) (bounded : limit ≤ fdSetSize)
    (below : ∀ i, limit ≤ i → table i = none) :
    ∃ ended placed, (execFds limit fdByName fdSpec).run.run table = some (ended, placed) ∧
      (ended = .ok () → InPlaces table placed ((usedNames fdSpec).map (numberOf fdByName))) ∧
      ((usedNames fdSpec).length ≤ FileTable.freeIn (usedNames fdSpec).length limit table → ended = .ok ()) := by
  have usable : ∀ fd ∈ (usedNames fdSpec).map (numberOf fdByName), Usable table fd := by
    intro fd member
    obtain ⟨name, used, rfl⟩ := List.mem_map.mp member
    exact opened name used
  obtain ⟨ended, placed, run, holds⟩ := (execFds_finishes (fdListOf_eq resolve) usable bounded below).ends
  refine ⟨ended, placed, run, ?_, ?_⟩
  · rintro rfl
    exact holds
  · intro room
    cases ended with
    | ok _ => rfl
    | error _ =>
      have bound := FileTable.freeIn_le (usedNames fdSpec).length limit table
      rw [List.length_map] at holds
      omega

/-- The handles of a service that exchanges two descriptors. -/
def exchanged (name : Bytes) : Option ℤ := if name = bytesOf "a" then some 0 else if name = bytesOf "b" then some 1 else none

def threeFiles (i : ℕ) : Option ℕ := if i < 3 then some (100 + i) else none

/-- Two descriptors change their places, one is left closed, and one of them is used twice. -/
theorem descriptors_placed_exchanged : ∃ placed,
    (execFds 16 exchanged (bytesOf "b\ta\t\t-\tb")).run.run threeFiles = some (.ok (), placed) ∧
      InPlaces threeFiles placed [1, 0, -1, 1] := by
  have names : usedNames (bytesOf "b\ta\t\t-\tb") = [bytesOf "b", bytesOf "a", [45], bytesOf "b"] := by decide
  have resolve : ∀ name ∈ usedNames (bytesOf "b\ta\t\t-\tb"), Resolves exchanged name := by
    rw [names]
    decide
  have opened : ∀ name ∈ usedNames (bytesOf "b\ta\t\t-\tb"), Usable threeFiles (numberOf exchanged name) := by
    rw [names]
    decide
  have below : ∀ i, 16 ≤ i → threeFiles i = none := fun i above => if_neg (by omega)
  obtain ⟨ended, placed, run, correct, enough⟩ := descriptors_placed resolve opened (by decide) below
  rw [names] at correct enough
  obtain rfl := enough (by decide)
  exact ⟨placed, run, correct rfl⟩

/-! ## Buffers -/

/-- `fd_list` has room exactly when at most one in four of the names is used, up to one that does not exist; `argv` never. -/
theorem exec_buffers_fit_iff (fdByName : Bytes → Option ℤ) (fdSpec argSpec : Bytes) :
    (StoresInside (fdListReserved fdSpec) 4 (fdListOf fdByName fdSpec).1 ↔
      4 * ((usedNames fdSpec).takeWhile (Resolves fdByName ·)).length ≤ (fdSpec.splitOn tab).length) ∧
    ¬StoresInside (argvReserved argSpec) 8 (argvPointers argSpec) := by
  constructor
  · rw [storesInside_iff, fdListReserved, countFds, fdListOf]
    split
    · rename_i none
      subst none
      simp [usedNames]
    · rw [fdNames_eq, fillFdList_length, usedNames]
  · rw [storesInside_iff, length_argvPointers, argvReserved, countArgs]
    omega

/-- The default descriptors take twelve bytes and get three, and the arguments of a program without arguments take sixteen
and get two. -/
theorem exec_buffers_default :
    ¬StoresInside (fdListReserved Bytewise.nullFds) 4 (fdListOf (fun _ => some 5) Bytewise.nullFds).1 ∧
      ¬StoresInside (argvReserved (bytesOf "true")) 8 (argvPointers (bytesOf "true")) := by
  constructor
  · intro inside
    exact absurd (inside 0 (by decide)) (by decide)
  · intro inside
    exact absurd (inside 0 (by decide)) (by decide)

end DaemonProxy.Soundness
