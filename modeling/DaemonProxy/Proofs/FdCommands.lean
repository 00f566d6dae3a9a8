import DaemonProxy.Proofs.FdObjects

/-! # Commands on the table of handles

Between commands no two objects share a name, and each name has the object that the last command
gave to it. A command either leaves the objects of the table alone or makes new ones, which take the
place of those with their names; `Rebound` describes both.
-/

namespace DaemonProxy.Proofs

open Lib Model

variable {ι : Type}

/-- The object that a name was last given, unless the name was deleted after that. -/
def latest (history : List FdChange) (name : Bytes) : Option ℕ :=
  history.foldl (fun serial change =>
    match change with
    | .assigned other given => if other = name then some given else serial
    | .removed other => if other = name then none else serial) none

@[simp] theorem latest_assigned (history : List FdChange) (other : Bytes) (given : ℕ) (name : Bytes) :
    latest (history ++ [.assigned other given]) name = if other = name then some given else latest history name := by
  simp only [latest, List.foldl_append, List.foldl_cons, List.foldl_nil]

@[simp] theorem latest_removed (history : List FdChange) (other name : Bytes) :
    latest (history ++ [.removed other]) name = if other = name then none else latest history name := by
  simp only [latest, List.foldl_append, List.foldl_cons, List.foldl_nil]

structure FdInv (s : FdTable ι) : Prop where
  ok : FdOk s
  distinct : ∀ x ∈ s.fdList, ∀ y ∈ s.fdList, (s.objects x).name = (s.objects y).name → x = y
  latest : ∀ name serial, latest s.history name = some serial ↔
    ∃ x ∈ s.fdList, (s.objects x).name = name ∧ (s.objects x).serial = serial
  /-- The constant handles are no pipes. -/
  constFile : ∀ x ∈ s.fdList, (s.objects x).flags.isConst = true → (s.objects x).flags.pipe = false

/-- The constant handles of a table are still there. -/
def ConstKept (s s' : FdTable ι) : Prop :=
  ∀ x ∈ s.fdList, (s.objects x).flags.isConst = true → x ∈ s'.fdList ∧ s'.objects x = s.objects x

theorem ConstKept.refl (s : FdTable ι) : ConstKept s s := fun _ member _ => ⟨member, rfl⟩

theorem ConstKept.trans {s₀ s s' : FdTable ι} (first : ConstKept s₀ s) (second : ConstKept s s') : ConstKept s₀ s' := by
  intro x member const
  obtain ⟨member₁, same₁⟩ := first x member const
  obtain ⟨member₂, same₂⟩ := second x member₁ (same₁ ▸ const)
  exact ⟨member₂, same₂.trans same₁⟩

/-- The objects `new` have taken the place of those with their names. -/
structure Rebound (s s' : FdTable ι) (new : List ι) : Prop where
  ok : FdOk s'
  mem : ∀ y, y ∈ s'.fdList ↔ y ∈ new ∨ (y ∈ s.fdList ∧ ∀ f ∈ new, (s.objects y).name ≠ (s'.objects f).name)
  fresh : ∀ f ∈ new, f ∉ s.fdList
  apart : ∀ f ∈ new, ∀ g ∈ new, (s'.objects f).name = (s'.objects g).name → f = g
  same : ∀ y ∈ s.fdList, y ∈ s'.fdList → SameFd (s'.objects y) (s.objects y)
  const : ∀ y ∈ s.fdList, (s.objects y).flags.isConst = true → y ∈ s'.fdList
  constFile : ∀ f ∈ new, (s'.objects f).flags.isConst = true → (s'.objects f).flags.pipe = false
  history : s'.history = s.history

variable {s s' : FdTable ι} {new : List ι}

theorem Rebound.constKept (rebound : Rebound s s' new) (inv : FdInv s) : ConstKept s s' := by
  intro x member const
  have inside := rebound.const x member const
  exact ⟨inside, (rebound.same x member inside).file (inv.constFile x member const)⟩

/-- Recording the new objects restores the invariant. -/
theorem Rebound.inv (rebound : Rebound s s' new) (inv : FdInv s) {history : List FdChange}
    (recorded : ∀ name serial, Proofs.latest history name = some serial ↔
      (∃ f ∈ new, (s'.objects f).name = name ∧ (s'.objects f).serial = serial) ∨
        ((∀ f ∈ new, (s'.objects f).name ≠ name) ∧ Proofs.latest s.history name = some serial)) :
    FdInv { s' with history } := by
  have names : ∀ y ∈ s.fdList, y ∈ s'.fdList → (s'.objects y).name = (s.objects y).name :=
    fun y old inside => (rebound.same y old inside).name
  refine ⟨⟨rebound.ok.1, rebound.ok.2, rebound.ok.3, rebound.ok.4, rebound.ok.5, rebound.ok.6, rebound.ok.7⟩,
    ?_, ?_, ?_⟩ <;> dsimp only
  · intro x inX y inY same
    rcases (rebound.mem x).mp inX with newX | ⟨oldX, notX⟩ <;> rcases (rebound.mem y).mp inY with newY | ⟨oldY, notY⟩
    · exact rebound.apart x newX y newY same
    · exact absurd (same.trans (names y oldY inY)).symm (notY x newX)
    · exact absurd ((names x oldX inX).symm.trans same) (notX y newY)
    · rw [names x oldX inX, names y oldY inY] at same
      exact inv.distinct x oldX y oldY same
  · intro name serial
    rw [recorded]
    constructor
    · rintro (⟨f, inNew, named, numbered⟩ | ⟨others, old⟩)
      · exact ⟨f, (rebound.mem f).mpr (.inl inNew), named, numbered⟩
      · obtain ⟨x, inX, named, numbered⟩ := (inv.latest name serial).mp old
        have inside : x ∈ s'.fdList := (rebound.mem x).mpr (.inr ⟨inX, fun f inNew same => others f inNew (named ▸ same.symm)⟩)
        refine ⟨x, inside, ?_, ?_⟩
        · rw [names x inX inside, named]
        · rw [(rebound.same x inX inside).serial, numbered]
    · rintro ⟨x, inside, named, numbered⟩
      rcases (rebound.mem x).mp inside with isNew | ⟨inX, notX⟩
      · exact .inl ⟨x, isNew, named, numbered⟩
      · rw [names x inX inside] at named
        rw [(rebound.same x inX inside).serial] at numbered
        exact .inr ⟨fun f inNew same => notX f inNew (named.trans same.symm),
          (inv.latest name serial).mpr ⟨x, inX, named, numbered⟩⟩
  · intro x inside const
    rcases (rebound.mem x).mp inside with isNew | ⟨inX, -⟩
    · exact rebound.constFile x isNew const
    · rw [(rebound.same x inX inside).flags] at const ⊢
      exact inv.constFile x inX const

theorem Rebound.nothing (inv : FdInv s) : Rebound s s [] :=
  ⟨inv.ok, fun y => by simp, nofun, nofun, fun y _ _ => .refl _, fun y member _ => member, nofun, rfl⟩

variable [DecidableEq ι]

omit [DecidableEq ι] in
/-- The object found by a name is the only one with that name. -/
theorem FdInv.found_iff (inv : FdInv s) {name : Bytes} {old : Option ι}
    (found : ∀ x ∈ old, x ∈ s.fdList ∧ (s.objects x).name = name)
    (missing : old = none → ∀ x ∈ s.fdList, (s.objects x).name ≠ name) {y : ι} (member : y ∈ s.fdList) :
    old = some y ↔ (s.objects y).name = name := by
  constructor
  · exact fun same => (found y same).2
  · intro named
    cases old with
    | none => exact absurd named (missing rfl y member)
    | some x =>
      obtain ⟨inX, namedX⟩ := found x rfl
      rw [inv.distinct x inX y member (namedX.trans named.symm)]

theorem fdNewFile_spec (inv : FdInv s) (name : Bytes) (fdnum : ℤ) {flags : FdFlags} (notPipe : flags.pipe = false)
    (path : Bytes) (mem : Option ι) :
    Ends (fdNewFile name fdnum flags path mem) s fun result s' =>
      (result = none ∧ Rebound s s' []) ∨ ∃ f, result = some f ∧ Rebound s s' [f] := by
  simp only [fdNewFile, ends_bind]
  refine (fdByName_spec inv.ok name).mono ?_
  rintro old _ ⟨rfl, found, missing⟩
  refine (isConstFd_spec old).mono ?_
  rintro const s ⟨rfl, isConst⟩
  simp only [ends_ite, ends_pure, ends_bind]
  split
  · exact .inl ⟨trivial, .nothing inv⟩
  · next notConst =>
    refine (fdNew_spec inv.ok _ name mem).mono ?_
    rintro _ s₁ (⟨rfl, rfl⟩ | ⟨f, rfl, created⟩)
    · exact (ends_pure _).mpr (.inl ⟨rfl, .nothing inv⟩)
    · have isOld : ∀ {y}, y ∈ s.fdList → (old = some y ↔ (s.objects y).name = name) := inv.found_iff found missing
      have notF : old ≠ some f := fun same => created.fresh (found f same).1
      simp only [ends_bind]
      refine (deleteOld_spec created.ok fun x same => (created.mem x).mpr (.inr (found x same).1)).mono
        fun _ s₂ dropped => ?_
      simp only [ends_updateFd, ends_pure]
      have inside : f ∈ s₂.fdList := (dropped.mem f).mpr ⟨notF, (created.mem f).mpr (.inl rfl)⟩
      have here := ((dropped.same f inside).file (by rw [created.here]; rfl)).trans created.here
      have named : (s₂.objects f).name = name := by
        rw [here]
        rfl
      have member : ∀ y, y ∈ s₂.fdList ↔ y = f ∨ (y ∈ s.fdList ∧ (s.objects y).name ≠ name) := by
        intro y
        rw [dropped.mem, created.mem]
        constructor
        · rintro ⟨notOld, rfl | old⟩
          · exact .inl rfl
          · exact .inr ⟨old, fun same => notOld ((isOld old).mpr same)⟩
        · rintro (rfl | ⟨old, other⟩)
          · exact ⟨notF, .inl rfl⟩
          · exact ⟨fun same => other ((isOld old).mp same), .inr old⟩
      refine .inr ⟨f, rfl, ⟨?_, ?_, ?_, ?_, ?_, ?_, ?_, dropped.history.trans created.history⟩⟩
      · exact dropped.ok.assignFile inside (by rw [here]; rfl) rfl rfl notPipe
      · intro y
        simp only [member, List.mem_singleton, forall_eq, Function.update_self, named]
      · intro g same
        rw [List.mem_singleton.mp same]
        exact created.fresh
      · intro g inG k inK _
        rw [List.mem_singleton.mp inG, List.mem_singleton.mp inK]
      · intro y old inY
        have different : y ≠ f := fun same => created.fresh (same ▸ old)
        dsimp only
        rw [Function.update_of_ne different, ← created.other old]
        exact dropped.same y inY
      · intro y old const'
        refine (member y).mpr (.inr ⟨old, fun same => notConst ?_⟩)
        exact isConst.mpr ⟨y, (isOld old).mpr same, const'⟩
      · intro g same _
        dsimp only
        rw [List.mem_singleton.mp same, Function.update_self]
        exact notPipe

/-- Two new objects with different names take the place of those with their names. -/
theorem fdNewPipe_spec (inv : FdInv s) {name1 name2 : Bytes} (apart : name1 ≠ name2) (num1 num2 : ℤ) {flags : FdFlags}
    (notConst : flags.isConst = false) (mem1 mem2 : Option ι) :
    Ends (fdNewPipe name1 num1 name2 num2 flags mem1 mem2) s fun result s' =>
      (result = none ∧ Rebound s s' []) ∨ ∃ f1 f2, result = some (f1, f2) ∧ f1 ≠ f2 ∧ Rebound s s' [f1, f2] := by
  simp only [fdNewPipe, ends_bind]
  refine (fdByName_spec inv.ok name1).mono ?_
  rintro old1 _ ⟨rfl, found1, missing1⟩
  refine (fdByName_spec inv.ok name2).mono ?_
  rintro old2 _ ⟨rfl, found2, missing2⟩
  refine (isConstFd_spec old1).mono ?_
  rintro const1 _ ⟨rfl, isConst1⟩
  refine (isConstFd_spec old2).mono ?_
  rintro const2 s ⟨rfl, isConst2⟩
  simp only [ends_ite, ends_pure, ends_bind, Bool.or_eq_true]
  split
  · exact .inl ⟨trivial, .nothing inv⟩
  · next neither =>
    have isOld1 : ∀ {y}, y ∈ s.fdList → (old1 = some y ↔ (s.objects y).name = name1) := inv.found_iff found1 missing1
    have isOld2 : ∀ {y}, y ∈ s.fdList → (old2 = some y ↔ (s.objects y).name = name2) := inv.found_iff found2 missing2
    refine (fdNew_spec inv.ok _ name1 mem1).mono ?_
    rintro _ s₁ (⟨rfl, rfl⟩ | ⟨f1, rfl, created1⟩)
    · exact (ends_pure _).mpr (.inl ⟨rfl, .nothing inv⟩)
    · simp only [ends_bind]
      refine (fdNew_spec created1.ok _ name2 mem2).mono ?_
      rintro _ s₂ (⟨rfl, rfl⟩ | ⟨f2, rfl, created2⟩)
      · -- The first object is taken back.
        simp only [ends_bind, ends_pure]
        refine (fdDelete_spec created1.ok ((created1.mem f1).mpr (.inl rfl))).mono fun _ s₃ dropped => .inl ⟨trivial, ?_⟩
        have notF : ∀ {y}, y ∈ s.fdList → some f1 ≠ some y :=
          fun old same => created1.fresh (Option.some.inj same ▸ old)
        have member : ∀ y, y ∈ s₃.fdList ↔ y ∈ s.fdList := by
          intro y
          rw [dropped.mem, created1.mem]
          constructor
          · rintro ⟨notOld, rfl | old⟩
            · exact absurd rfl notOld
            · exact old
          · exact fun old => ⟨notF old, .inr old⟩
        refine ⟨dropped.ok, fun y => by simp [member], by rintro _ ⟨⟩, by rintro _ ⟨⟩, fun y old inY => ?_,
          fun y old _ => (member y).mpr old, by rintro _ ⟨⟩, dropped.history.trans created1.history⟩
        rw [← created1.other old]
        exact dropped.same y inY
      · have different : f1 ≠ f2 := fun same => created2.fresh (same ▸ (created1.mem f1).mpr (.inl rfl))
        have fresh2 : f2 ∉ s.fdList := fun old => created2.fresh ((created1.mem f2).mpr (.inr old))
        have listed : ∀ y, y ∈ s₂.fdList ↔ y = f2 ∨ y = f1 ∨ y ∈ s.fdList := by
          intro y
          rw [created2.mem, created1.mem]
        have not1 : ∀ {f}, f ∉ s.fdList → old1 ≠ some f := fun fresh same => fresh (found1 _ same).1
        have not2 : ∀ {f}, f ∉ s.fdList → old2 ≠ some f := fun fresh same => fresh (found2 _ same).1
        simp only [ends_bind]
        refine (deleteOld_spec created2.ok fun x same => (listed x).mpr (.inr (.inr (found1 x same).1))).mono
          fun _ s₃ dropped1 => ?_
        have live2 : ∀ x ∈ old2, x ∈ s₃.fdList := by
          intro x same
          obtain ⟨old, named⟩ := found2 x same
          refine (dropped1.mem x).mpr ⟨fun same1 => apart ?_, (listed x).mpr (.inr (.inr old))⟩
          rw [← named, (isOld1 old).mp same1]
        refine (deleteOld_spec dropped1.ok live2).mono fun _ s₄ dropped2 => ?_
        simp only [ends_updateFd, ends_pure]
        have member : ∀ y, y ∈ s₄.fdList ↔ y = f2 ∨ y = f1 ∨
            (y ∈ s.fdList ∧ (s.objects y).name ≠ name1 ∧ (s.objects y).name ≠ name2) := by
          intro y
          rw [dropped2.mem, dropped1.mem, listed]
          constructor
          · rintro ⟨notOld2, notOld1, rfl | rfl | old⟩
            · exact .inl rfl
            · exact .inr (.inl rfl)
            · exact .inr (.inr ⟨old, fun same => notOld1 ((isOld1 old).mpr same), fun same => notOld2 ((isOld2 old).mpr same)⟩)
          · rintro (rfl | rfl | ⟨old, other1, other2⟩)
            · exact ⟨not2 fresh2, not1 fresh2, .inl rfl⟩
            · exact ⟨not2 created1.fresh, not1 created1.fresh, .inr (.inl rfl)⟩
            · exact ⟨fun same => other2 ((isOld2 old).mp same), fun same => other1 ((isOld1 old).mp same), .inr (.inr old)⟩
        have same : ∀ y ∈ s₄.fdList, SameFd (s₄.objects y) (s₂.objects y) := by
          intro y inY
          exact (dropped2.same y inY).trans (dropped1.same y ((dropped2.mem y).mp inY).2)
        have in1 : f1 ∈ s₄.fdList := (member f1).mpr (.inr (.inl rfl))
        have in2 : f2 ∈ s₄.fdList := (member f2).mpr (.inl rfl)
        have at1 : s₂.objects f1 = newObj s _ name1 :=
          (created2.other ((created1.mem f1).mpr (.inl rfl))).trans created1.here
        have here1 := ((same f1 in1).file (by rw [at1]; rfl)).trans at1
        have here2 := ((same f2 in2).file (by rw [created2.here]; rfl)).trans created2.here
        have named1 : (s₄.objects f1).name = name1 := by
          rw [here1]
          rfl
        have named2 : (s₄.objects f2).name = name2 := by
          rw [here2]
          rfl
        rw [Function.update_of_ne different.symm]
        refine .inr ⟨f1, f2, rfl, different, ⟨?_, ?_, ?_, ?_, ?_, ?_, ?_, ?_⟩⟩
        · exact dropped2.ok.assignPipe in1 in2 different (by rw [here1]; rfl) (by rw [here2]; rfl) rfl rfl rfl rfl
            rfl rfl rfl rfl
        · intro y
          simp [member, different, named1, named2]
          tauto
        · simp only [List.mem_cons, List.not_mem_nil, or_false, forall_eq_or_imp, forall_eq]
          exact ⟨created1.fresh, fresh2⟩
        · simp [different, named1, named2, apart, apart.symm]
        · intro y old inY
          have notF1 : y ≠ f1 := fun same => created1.fresh (same ▸ old)
          have notF2 : y ≠ f2 := fun same => fresh2 (same ▸ old)
          dsimp only
          rw [Function.update_of_ne notF2, Function.update_of_ne notF1, ← created1.other old,
            ← created2.other ((created1.mem y).mpr (.inr old))]
          exact same y inY
        · intro y old const
          refine (member y).mpr (.inr (.inr ⟨old, fun same => neither (.inl ?_), fun same => neither (.inr ?_)⟩))
          · exact isConst1.mpr ⟨y, (isOld1 old).mpr same, const⟩
          · exact isConst2.mpr ⟨y, (isOld2 old).mpr same, const⟩
        · simp [different, notConst]
        · exact dropped2.history.trans (dropped1.history.trans (created2.history.trans created1.history))

/-! ## Commands -/

omit [DecidableEq ι] in
theorem Rebound.inv_nothing (rebound : Rebound s s' []) (inv : FdInv s) : FdInv s' ∧ ConstKept s s' := by
  refine ⟨?_, rebound.constKept inv⟩
  have same : FdInv { s' with history := s'.history } := by
    apply rebound.inv inv
    intro name serial
    simp [rebound.history]
  exact same

omit [DecidableEq ι] in
theorem recordAssigned_one {f : ι} (rebound : Rebound s s' [f]) (inv : FdInv s) :
    Ends (recordAssigned f) s' fun _ s'' => FdInv s'' ∧ ConstKept s s'' := by
  rw [recordAssigned, ends_modify]
  refine ⟨rebound.inv inv fun name serial => ?_, rebound.constKept inv⟩
  rw [latest_assigned, rebound.history]
  split
  · next named => simp [named]
  · next other => simp [other]

omit [DecidableEq ι] in
theorem recordAssigned_two {f1 f2 : ι} (different : f1 ≠ f2) (rebound : Rebound s s' [f1, f2]) (inv : FdInv s) :
    Ends (do recordAssigned f1; recordAssigned f2) s' fun _ s'' => FdInv s'' ∧ ConstKept s s'' := by
  have apart : (s'.objects f1).name ≠ (s'.objects f2).name :=
    fun same => different (rebound.apart f1 (by simp) f2 (by simp) same)
  simp only [recordAssigned, ends_bind, ends_modify]
  refine ⟨rebound.inv inv fun name serial => ?_, rebound.constKept inv⟩
  rw [latest_assigned, latest_assigned, rebound.history]
  by_cases named1 : (s'.objects f1).name = name
  · have notNamed2 : (s'.objects f2).name ≠ name := fun named2 => apart (named1.trans named2.symm)
    simp [named1, notNamed2]
  · by_cases named2 : (s'.objects f2).name = name
    · simp [named1, named2]
    · simp [named1, named2]

theorem ctlGetArgFd_spec (inv : FdInv s) (name : Bytes) (existing assignable : Bool) :
    Ends (ctlGetArgFd name existing assignable) s fun result s' => s' = s ∧ ∀ fd, result = .ok fd →
      ∀ x ∈ fd, x ∈ s.fdList ∧ (s.objects x).name = name ∧
        (assignable = true → (s.objects x).flags.isConst = false) := by
  simp only [ctlGetArgFd, ends_ite, ends_pure, ends_bind]
  split
  · exact ⟨trivial, by rintro _ ⟨⟩⟩
  · split
    · exact ⟨trivial, by rintro _ ⟨⟩⟩
    · refine (fdByName_spec inv.ok name).mono ?_
      rintro fd _ ⟨rfl, found, -⟩
      refine (isConstFd_spec fd).mono ?_
      rintro const s ⟨rfl, isConst⟩
      split
      · exact ⟨rfl, by rintro _ ⟨⟩⟩
      · next alterable =>
        split
        · exact ⟨rfl, by rintro _ ⟨⟩⟩
        · refine ⟨rfl, ?_⟩
          rintro fd ⟨⟩ x same
          obtain ⟨member, named⟩ := found x same
          refine ⟨member, named, fun assigns => ?_⟩
          rw [assigns, Bool.true_and] at alterable
          by_contra constant
          exact alterable (isConst.mpr ⟨x, same, eq_true_of_ne_false constant⟩)

omit [DecidableEq ι] in
/-- A handle that is not constant is gone, and so is its name. -/
theorem Dropped.inv {x : ι} (dropped : Dropped s s' (some x)) (inv : FdInv s) (member : x ∈ s.fdList)
    (notConst : (s.objects x).flags.isConst = false) :
    FdInv { s' with history := s'.history ++ [.removed (s.objects x).name] } ∧ ConstKept s s' := by
  have mem : ∀ y, y ∈ s'.fdList ↔ y ≠ x ∧ y ∈ s.fdList := by
    intro y
    rw [dropped.mem, ne_eq, ne_eq, Option.some.injEq, eq_comm]
  constructor
  · refine ⟨⟨dropped.ok.1, dropped.ok.2, dropped.ok.3, dropped.ok.4, dropped.ok.5, dropped.ok.6, dropped.ok.7⟩,
      ?_, ?_, ?_⟩ <;> dsimp only
    · intro y inY z inZ named
      rw [(dropped.same y inY).name, (dropped.same z inZ).name] at named
      exact inv.distinct y ((mem y).mp inY).2 z ((mem z).mp inZ).2 named
    · intro name serial
      rw [latest_removed, dropped.history]
      split
      · next named =>
        refine iff_of_false nofun ?_
        rintro ⟨y, inY, namedY, -⟩
        rw [(dropped.same y inY).name] at namedY
        exact ((mem y).mp inY).1 (inv.distinct y ((mem y).mp inY).2 x member (namedY.trans named.symm))
      · next other =>
        rw [inv.latest]
        constructor
        · rintro ⟨y, old, namedY, numberedY⟩
          have inY := (mem y).mpr ⟨fun same => other (same ▸ namedY), old⟩
          refine ⟨y, inY, ?_, ?_⟩
          · rw [(dropped.same y inY).name, namedY]
          · rw [(dropped.same y inY).serial, numberedY]
        · rintro ⟨y, inY, namedY, numberedY⟩
          rw [(dropped.same y inY).name] at namedY
          rw [(dropped.same y inY).serial] at numberedY
          exact ⟨y, ((mem y).mp inY).2, namedY, numberedY⟩
    · intro y inY const
      rw [(dropped.same y inY).flags] at const ⊢
      exact inv.constFile y ((mem y).mp inY).2 const
  · intro y old const
    have other : y ≠ x := by
      rintro rfl
      exact nomatch notConst.symm.trans const
    have inY := (mem y).mpr ⟨other, old⟩
    exact ⟨inY, (dropped.same y inY).file (inv.constFile y old const)⟩

/-- The names of a pipe's ends differ. -/
def PipeApart : FdEvent ι → Prop
  | .pipe readSide _ writeSide _ _ _ _ => readSide ≠ writeSide
  | _ => True

/-- A command that makes one object, and the record of it. -/
theorem newFile_inv {α : Type} (inv : FdInv s) (name : Bytes) (fdnum : ℤ) {flags : FdFlags} (notPipe : flags.pipe = false)
    (path : Bytes) (mem : Option ι) (failed succeeded : α) :
    Ends (do
      match ← fdNewFile name fdnum flags path mem with
      | none => return failed
      | some f =>
          recordAssigned f
          return succeeded) s fun _ s' => FdInv s' ∧ ConstKept s s' := by
  rw [ends_bind]
  refine (fdNewFile_spec inv name fdnum notPipe path mem).mono ?_
  rintro _ s' (⟨rfl, rebound⟩ | ⟨f, rfl, rebound⟩)
  · exact (ends_pure _).mpr (rebound.inv_nothing inv)
  · simp only [ends_bind, ends_pure]
    exact recordAssigned_one rebound inv

theorem fdProgram_inv (inv : FdInv s) (event : FdEvent ι) (apart : PipeApart event) :
    Ends (fdProgram event) s fun _ s' => FdInv s' ∧ ConstKept s s' := by
  cases event with
  | register name fdnum flags mem => exact newFile_inv inv name fdnum rfl _ mem _ _
  | file name fdnum flags path mem =>
    simp only [fdProgram, ctlCmdFdFile]
    rw [ends_bind]
    refine (ctlGetArgFd_spec inv name false true).mono ?_
    rintro (_ | _) _ ⟨rfl, -⟩
    · exact (ends_pure _).mpr ⟨inv, .refl _⟩
    · exact newFile_inv inv name fdnum rfl path mem _ _
  | take name fdnum flags mem =>
    simp only [fdProgram, ctlCmdFdTake]
    rw [ends_bind]
    refine (ctlGetArgFd_spec inv name false true).mono ?_
    rintro (_ | _) _ ⟨rfl, -⟩
    · exact (ends_pure _).mpr ⟨inv, .refl _⟩
    · exact newFile_inv inv name fdnum rfl _ mem _ _
  | pipe readSide num1 writeSide num2 flags mem1 mem2 =>
    have names : Ends (pipeNames readSide writeSide) s fun _ s' => s' = s := by
      simp only [pipeNames, ends_bind]
      refine (ctlGetArgFd_spec inv readSide false true).mono ?_
      rintro (_ | _) _ ⟨rfl, -⟩
      · exact (ends_pure _).mpr rfl
      · rw [ends_bind]
        refine (ctlGetArgFd_spec inv writeSide false true).mono ?_
        rintro (_ | _) _ ⟨rfl, -⟩
        · exact (ends_pure _).mpr rfl
        · exact (ends_pure _).mpr rfl
    simp only [fdProgram, ctlCmdFdPipe]
    rw [ends_bind]
    refine names.mono ?_
    rintro (_ | _) _ rfl
    · exact (ends_pure _).mpr ⟨inv, .refl _⟩
    · rw [ends_bind]
      refine (fdNewPipe_spec inv apart num1 num2 rfl mem1 mem2).mono ?_
      rintro _ s' (⟨rfl, rebound⟩ | ⟨f1, f2, rfl, different, rebound⟩)
      · exact (ends_pure _).mpr (rebound.inv_nothing inv)
      · have recorded := recordAssigned_two different rebound inv
        simp only [ends_bind, ends_pure] at recorded ⊢
        exact recorded
  | delete name =>
    simp only [fdProgram, ctlCmdFdDelete]
    rw [ends_bind]
    refine (ctlGetArgFd_spec inv name true true).mono ?_
    rintro (_ | _ | x) _ ⟨rfl, found⟩
    · exact (ends_pure _).mpr ⟨inv, .refl _⟩
    · exact (ends_pure _).mpr ⟨inv, .refl _⟩
    · obtain ⟨member, rfl, notConst⟩ := found (some x) rfl x rfl
      simp only [ends_bind]
      refine (fdDelete_spec inv.ok member).mono fun _ s' dropped => ?_
      simp only [ends_modify, ends_pure]
      exact dropped.inv inv member (notConst rfl)

theorem fdStep_inv (s₀ s : FdTable ι) (event : FdEvent ι) (inv : FdInv s ∧ ConstKept s₀ s) (apart : PipeApart event) :
    ∃ s', fdStep s event = some s' ∧ FdInv s' ∧ ConstKept s₀ s' := by
  obtain ⟨_, s', run, inv', kept⟩ := fdProgram_inv inv.1 event apart
  exact ⟨s', by rw [fdStep, run, Option.map_some], inv', inv.2.trans kept⟩

/-! ## The start -/

theorem empty_inv (poolSize : Option ℕ) : FdInv (FdTable.empty poolSize : FdTable ι) := by
  refine ⟨⟨List.nodup_nil, ?_, nofun, nofun, nofun, List.nodup_nil, nofun⟩, nofun, ?_, nofun⟩
  · exact (IndexHolds.init ⟨rfl, rfl, rfl⟩ fun _ => rfl).congr (fun x => by simp [FdTable.empty]) fun _ _ => rfl
  · exact fun name serial => iff_of_false nofun nofun

theorem specialHandle_inv (inv : FdInv s) (name : Bytes) (fdnum : ℤ) {flags : FdFlags} (notPipe : flags.pipe = false)
    (path : Bytes) (mem : Option ι) :
    Ends (specialHandle name fdnum flags path mem) s fun _ s' => FdInv s' := by
  unfold specialHandle
  refine Ends.mono (newFile_inv inv name fdnum ?_ path mem false true) fun _ _ after => after.1
  exact notPipe

theorem fdInitSpecialHandles_inv (poolSize : Option ℕ) (fdDevNull : ℤ) (mem : Fin 4 → Option ι) :
    Ends (fdInitSpecialHandles fdDevNull mem) (FdTable.empty poolSize) fun _ s => FdInv s := by
  simp only [fdInitSpecialHandles, ends_bind, ends_ite, ends_pure]
  refine (specialHandle_inv (empty_inv poolSize) _ _ rfl _ _).mono fun _ s₁ inv₁ => ?_
  split
  · refine (specialHandle_inv inv₁ _ _ rfl _ _).mono fun _ s₂ inv₂ => ?_
    split
    · refine (specialHandle_inv inv₂ _ _ rfl _ _).mono fun _ s₃ inv₃ => ?_
      split
      · exact specialHandle_inv inv₃ _ _ rfl _ _
      · exact inv₃
    · exact inv₂
  · exact inv₁

end DaemonProxy.Proofs
