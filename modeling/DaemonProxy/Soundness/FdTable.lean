import DaemonProxy.Lib.Run
import DaemonProxy.Proofs.FdCommands

/-! # The table of handles is a map

From the special handles on, every sequence of commands keeps the table a map from names to objects,
as long as no pipe is asked for with one name for both its ends.
-/

namespace DaemonProxy.Soundness

open Lib Model Proofs

section Table

variable {ι : Type} [DecidableEq ι]

/-- What the table should be, when it started as `s₀`. -/
structure FdMap (s₀ s : FdTable ι) : Prop where
  distinct : ∀ x ∈ s.fdList, ∀ y ∈ s.fdList, (s.objects x).name = (s.objects y).name → x = y
  /-- A name is bound to the object that the last command gave to it. -/
  lookup : ∀ name, ∃ found, (fdByName name).run s = some (found, s) ∧ (∀ x ∈ found, x ∈ s.fdList) ∧
    found.map (fun x => (s.objects x).serial) = latest s.history name
  deletedOnce : s.deleted.Nodup
  /-- The constant handles are neither replaced nor deleted. -/
  const : ∀ x ∈ s₀.fdList, (s₀.objects x).flags.isConst = true →
    x ∈ s.fdList ∧ s.objects x = s₀.objects x ∧ (s.objects x).serial ∉ s.deleted
  /-- Peers have each other. -/
  peers : ∀ x ∈ s.fdList, ∀ y, (s.objects x).flags.pipe = true → (s.objects x).attr = .peer y →
    y ∈ s.fdList ∧ (s.objects y).flags.pipe = true ∧ (s.objects y).attr = .peer x

theorem fdMap_of_inv {s₀ s : FdTable ι} (inv : FdInv s) (kept : ConstKept s₀ s) : FdMap s₀ s := by
  refine ⟨inv.distinct, ?_, inv.ok.deletedOnce, ?_, ?_⟩
  · intro name
    obtain ⟨found, s', run, rfl, named, missing⟩ := fdByName_spec inv.ok name
    refine ⟨found, run, fun x same => (named x same).1, ?_⟩
    cases found with
    | none =>
      cases bound : latest s'.history name with
      | none => rfl
      | some serial =>
        obtain ⟨x, member, namedX, -⟩ := (inv.latest name serial).mp bound
        exact absurd namedX (missing rfl x member)
    | some x =>
      obtain ⟨member, namedX⟩ := named x rfl
      exact ((inv.latest name _).mpr ⟨x, member, namedX, rfl⟩).symm
  · intro x member const
    obtain ⟨inside, same⟩ := kept x member const
    exact ⟨inside, same, (inv.ok.serials x inside).2⟩
  · intro x member y pipe attr
    rcases inv.ok.peers x member pipe with null | ⟨z, inZ, attrX, pipeZ, attrZ⟩
    · exact nomatch null.symm.trans attr
    · obtain rfl := FdAttr.peer.inj (attrX.symm.trans attr)
      exact ⟨inZ, pipeZ, attrZ⟩

/-- In a run where the two names of every pipe differ, the table is a map in every state. -/
theorem fd_table_is_map (poolSize : Option ℕ) (fdDevNull : ℤ) (mem : Fin 4 → Option ι) {s₀ : FdTable ι}
    (start : (fdInitSpecialHandles fdDevNull mem).run (FdTable.empty poolSize) = some (true, s₀))
    (events : List (FdEvent ι)) (apart : ∀ event ∈ events, PipeApart event) {before : List (FdEvent ι)}
    (leading : before <+: events) : ∃ s, exec? fdStep s₀ before = some s ∧ FdMap s₀ s := by
  obtain ⟨_, s, run, inv⟩ := fdInitSpecialHandles_inv poolSize fdDevNull mem
  obtain ⟨-, rfl⟩ := Prod.mk.inj (Option.some.inj (run.symm.trans start))
  have along : Along? fdStep (fun _ event => PipeApart event) s before :=
    along?_of_forall fun event member => apart event (leading.subset member)
  obtain ⟨s', run', inv', kept⟩ := exec?_invariant (fdStep_inv s) ⟨inv, .refl s⟩ along
  exact ⟨s', run', fdMap_of_inv inv' kept⟩

end Table

/-- A pipe is made, its names are exchanged, and one end is deleted. -/
theorem fd_table_is_map_exchanged :
    ∃ s₀ s, (fdInitSpecialHandles 3 fun i => some i.val).run (FdTable.empty none) = some (true, s₀) ∧
      exec? fdStep s₀ [.pipe (bytesOf "x") 5 (bytesOf "y") 6 {} (some 10) (some 11),
        .pipe (bytesOf "y") 7 (bytesOf "x") 8 {} (some 12) (some 13), .delete (bytesOf "y")] = some s ∧ FdMap s₀ s := by
  have answer : ((fdInitSpecialHandles 3 fun i => some i.val).run (FdTable.empty none)).map Prod.fst = some true := by
    decide +kernel
  obtain ⟨⟨_, s₀⟩, start, rfl⟩ := Option.map_eq_some_iff.mp answer
  refine ⟨s₀, ?_⟩
  have apart : ∀ event ∈ ([.pipe (bytesOf "x") 5 (bytesOf "y") 6 {} (some 10) (some 11),
      .pipe (bytesOf "y") 7 (bytesOf "x") 8 {} (some 12) (some 13), .delete (bytesOf "y")] : List (FdEvent ℕ)),
      PipeApart event := by
    simp only [List.mem_cons, List.not_mem_nil, or_false, forall_eq_or_imp, forall_eq, PipeApart]
    decide
  obtain ⟨s, run, map⟩ := fd_table_is_map none 3 (fun i => some i.val) start _ apart List.prefix_rfl
  exact ⟨s, start, run, map⟩

/-- With the name of an existing handle for both ends, two objects get the name and the old one is passed to
`fd_delete` twice. -/
theorem pipe_with_one_name :
    ∃ s₀ s, (fdInitSpecialHandles 3 fun i => some i.val).run (FdTable.empty none) = some (true, s₀) ∧
      exec? fdStep s₀ [.pipe (bytesOf "x") 5 (bytesOf "y") 6 {} (some 10) (some 11),
        .pipe (bytesOf "x") 7 (bytesOf "x") 8 {} (some 12) (some 13)] = some s ∧
      12 ∈ s.fdList ∧ 13 ∈ s.fdList ∧ (s.objects 12).name = (s.objects 13).name ∧ s.deleted = [4, 4] ∧ ¬FdMap s₀ s := by
  have answer : ((fdInitSpecialHandles 3 fun i => some i.val).run (FdTable.empty none)).map (fun result => (result.1,
      (exec? fdStep result.2 [.pipe (bytesOf "x") 5 (bytesOf "y") 6 {} (some 10) (some 11),
        .pipe (bytesOf "x") 7 (bytesOf "x") 8 {} (some 12) (some 13)]).map fun s =>
        (decide (12 ∈ s.fdList ∧ 13 ∈ s.fdList ∧ (s.objects 12).name = (s.objects 13).name), s.deleted))) =
      some (true, some (true, [4, 4])) := by decide +kernel
  obtain ⟨⟨_, s₀⟩, start, facts⟩ := Option.map_eq_some_iff.mp answer
  obtain ⟨rfl, reached⟩ := Prod.mk.inj facts
  obtain ⟨s, run, facts⟩ := Option.map_eq_some_iff.mp reached
  obtain ⟨both, deleted⟩ := Prod.mk.inj facts
  obtain ⟨in12, in13, named⟩ := of_decide_eq_true both
  refine ⟨s₀, s, start, run, in12, in13, named, deleted, fun map => ?_⟩
  exact absurd (map.distinct 12 in12 13 in13 named) (by decide)

end DaemonProxy.Soundness
