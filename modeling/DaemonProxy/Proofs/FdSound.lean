import DaemonProxy.Proofs.FdCommands

/-! # The table of handles after any commands

`FdSound` is what is left of `FdInv` when `fd.pipe` may name one handle twice: the vector and the index hold the same
objects, but a name may have two of them, and an object may be deleted twice. The constant handles stay alone with their
names. Each function has one lemma, which says what becomes of the other objects; a refusal leaves the table as it was.
-/

namespace DaemonProxy.Proofs

open Lib Model

variable {ι : Type}

/-- What other objects keep when one is deleted, whatever it is: all but their peer. -/
structure Inherits (new old : FdObj ι) : Prop where
  name : new.name = old.name
  flags : new.flags = old.flags
  fd : new.fd = old.fd
  attr : new.attr = old.attr ∨ new.attr = .null

theorem Inherits.refl (fd : FdObj ι) : Inherits fd fd := ⟨rfl, rfl, rfl, .inl rfl⟩

theorem Inherits.trans {a b c : FdObj ι} (first : Inherits a b) (second : Inherits b c) : Inherits a c where
  name := first.name.trans second.name
  flags := first.flags.trans second.flags
  fd := first.fd.trans second.fd
  attr := by
    rcases first.attr with same | null
    · rw [same]
      exact second.attr
    · exact .inr null

structure FdSound (s : FdTable ι) : Prop where
  indexed : FdIndexed s
  /-- No other object has the name of a constant handle. -/
  const : ∀ x ∈ s.fdList, (s.objects x).flags.isConst = true → ∀ y ∈ s.fdList, (s.objects y).name = (s.objects x).name → y = x
  valid : ∀ x ∈ s.fdList, (s.objects x).name ≠ [] ∧ svcCheckName (s.objects x).name = true

/-- The objects of the table, and what is known of them, are the same. -/
structure SameTable (s s' : FdTable ι) : Prop where
  list : s'.fdList = s.fdList
  objects : ∀ x ∈ s.fdList, s'.objects x = s.objects x

theorem SameTable.refl (s : FdTable ι) : SameTable s s := ⟨rfl, fun _ _ => rfl⟩

variable {s' : FdTable ι}

/-- What depends on the objects of the table alone. -/
theorem FdSound.congr {s : FdTable ι} (sound : FdSound s) (indexed : FdIndexed s') (same : SameTable s s') : FdSound s' where
  indexed := indexed
  const x member isConst y memberY named := by
    rw [same.list] at member memberY
    rw [same.objects x member] at isConst named
    rw [same.objects y memberY] at named
    exact sound.const x member isConst y memberY named
  valid x member := by
    rw [same.list] at member
    rw [same.objects x member]
    exact sound.valid x member

variable [DecidableEq ι] {s : FdTable ι} {x : ι}

/-! ## Deleting -/

/-- The object `x` was deleted, which may have happened before. -/
structure Deleted (s s' : FdTable ι) (x : ι) : Prop where
  indexed : FdIndexed s'
  list : s'.fdList = swapRemove x s.fdList
  mem : ∀ y, y ∈ s'.fdList ↔ y ≠ x ∧ y ∈ s.fdList
  same : ∀ y, Inherits (s'.objects y) (s.objects y)
  file : (s.objects x).flags.pipe = false → s'.objects = s.objects
  closed : s'.closed = s.closed ++ if 0 ≤ (s.objects x).fd then [(s.objects x).fd] else []

/-- The peer of a pipe end loses its own peer. -/
theorem dropPeer_inherits (fd : FdObj ι) (s : FdTable ι) :
    Ensures (dropPeer fd) s fun _ s' => ∃ objects', s' = { s with objects := objects' } ∧
      (∀ y, Inherits (objects' y) (s.objects y)) ∧ (fd.flags.pipe = false → objects' = s.objects) := by
  rw [dropPeer]
  split
  · next pipe =>
    split
    · exact ensures_pure ⟨_, rfl, fun y => .refl _, fun _ => rfl⟩
    · next peer _ =>
      refine ensures_modify ⟨_, rfl, fun y => ?_, fun file => by cases pipe.symm.trans file⟩
      rw [Function.update_apply]
      split
      · next here => exact here ▸ ⟨rfl, rfl, rfl, .inr rfl⟩
      · exact .refl _
    · exact ensures_failure
  · exact ensures_pure ⟨_, rfl, fun y => .refl _, fun _ => rfl⟩

theorem swapRemove_of_not_mem {list : List ι} (absent : x ∉ list) : swapRemove x list = list := by
  rw [swapRemove]
  split
  · rw [if_neg absent]
  · rfl

/-- An object that is in no list any more is not in the index either. -/
theorem FdIndexed.prune (indexed : FdIndexed s) (x : ι) {fuel : ℕ} (enough : s.fdList.length + 1 < fuel) :
    Ends (rbTreeNodePrune fuel (.node x)) s.byName fun _ h =>
      IndexHolds strsegCmp (fun y => (s.objects y).name) h fun y => y ≠ x ∧ y ∈ s.fdList := by
  by_cases member : x ∈ s.fdList
  · exact indexed.names.prune member (fun _ inside => inside) enough
  · obtain ⟨order, redBlack, sorted, mem⟩ := indexed.names
    have unassigned := (redBlack.unassigned_iff x).mpr fun inside => member ((mem x).mp inside)
    rw [rbTreeNodePrune, ends_bind, ends_getColor]
    refine ⟨by rintro ⟨⟩, ?_⟩
    rw [if_pos unassigned, ends_pure]
    refine ⟨order, redBlack, sorted, fun y => (mem y).trans ⟨fun inside => ⟨?_, inside⟩, And.right⟩⟩
    rintro rfl
    exact member inside

theorem FdIndexed.delete (indexed : FdIndexed s) (x : ι) : Ensures (fdDelete x) s fun _ s' => Deleted s s' x := by
  have mem : ∀ y, y ∈ swapRemove x s.fdList ↔ y ≠ x ∧ y ∈ s.fdList := by
    intro y
    by_cases member : x ∈ s.fdList
    · exact mem_swapRemove indexed.nodup member
    · rw [swapRemove_of_not_mem member]
      refine ⟨fun inside => ⟨?_, inside⟩, And.right⟩
      rintro rfl
      exact member inside
  have nodup : (swapRemove x s.fdList).Nodup := by
    by_cases member : x ∈ s.fdList
    · exact (swapRemove_perm member).nodup_iff.mpr (indexed.nodup.erase x)
    · rw [swapRemove_of_not_mem member]
      exact indexed.nodup
  refine Ensures.get_bind (Ensures.modify_bind ((dropPeer_inherits _ _).bind ?_))
  rintro _ _ ⟨objects', rfl, same, file⟩
  have names : IndexHolds strsegCmp (fun y => (objects' y).name) s.byName (· ∈ s.fdList) :=
    indexed.names.congr (fun _ => .rfl) fun y _ => (same y).name
  have pruned : Ends (rbTreeNodePrune (s.fdList.length + 2) (.node x)) s.byName fun _ h =>
      FdIndexed { s with objects := objects', byName := h, fdList := swapRemove x s.fdList } := by
    refine (FdIndexed.prune (s := { s with objects := objects' }) ⟨indexed.nodup, names⟩ x (Nat.lt_succ_self _)).mono ?_
    exact fun _ h holds => ⟨nodup, holds.congr (fun y => (mem y).symm) fun _ _ => rfl⟩
  apply Ends.ensures
  simp only [ends_ite, ends_bind, ends_modify, ends_onFdIndex]
  split
  · next opened =>
    refine pruned.mono fun _ h after => ⟨⟨after.nodup, after.names⟩, rfl, mem, same, file, ?_⟩
    rw [if_pos opened]
  · next absent =>
    refine pruned.mono fun _ h after => ⟨⟨after.nodup, after.names⟩, rfl, mem, same, file, ?_⟩
    rw [if_neg absent, List.append_nil]

theorem Deleted.sound (sound : FdSound s) (deleted : Deleted s s' x) : FdSound s' where
  indexed := deleted.indexed
  const y member isConst z memberZ named := by
    obtain ⟨-, old⟩ := (deleted.mem y).mp member
    obtain ⟨-, oldZ⟩ := (deleted.mem z).mp memberZ
    rw [(deleted.same y).flags] at isConst
    rw [(deleted.same y).name, (deleted.same z).name] at named
    exact sound.const y old isConst z oldZ named
  valid y member := by
    rw [(deleted.same y).name]
    exact sound.valid y ((deleted.mem y).mp member).2

theorem FdSound.deleteOld (sound : FdSound s) (old : Option ι) :
    Ensures (deleteOld old) s fun _ s' => FdSound s' ∧ (∀ y, y ∈ s'.fdList ↔ old ≠ some y ∧ y ∈ s.fdList) ∧
      ∀ y, Inherits (s'.objects y) (s.objects y) := by
  cases old with
  | none => exact ensures_pure ⟨sound, fun y => by simp, fun y => .refl _⟩
  | some x =>
    refine (sound.indexed.delete x).mono fun _ s' deleted => ⟨deleted.sound sound, fun y => ?_, deleted.same⟩
    rw [deleted.mem, ne_eq, ne_eq, Option.some.injEq, eq_comm]

/-! ## Making objects -/

variable {name : Bytes}

omit [DecidableEq ι] in
/-- A name that does not find a constant handle is the name of none. -/
theorem FdSound.not_const (sound : FdSound s) {old : Option ι}
    (found : ∀ x ∈ old, x ∈ s.fdList ∧ (s.objects x).name = name)
    (missing : old = none → ∀ x ∈ s.fdList, (s.objects x).name ≠ name)
    (notConst : ¬∃ x ∈ old, (s.objects x).flags.isConst = true) :
    ∀ y ∈ s.fdList, (s.objects y).flags.isConst = true → (s.objects y).name ≠ name := by
  intro y member isConst named
  cases old with
  | none => exact missing rfl y member named
  | some x =>
    obtain ⟨memberX, namedX⟩ := found x rfl
    obtain rfl := sound.const y member isConst x memberX (namedX.trans named.symm)
    exact notConst ⟨x, rfl, isConst⟩

variable {size : ℕ} {h : Heap ι}

theorem withObj_cases (absent : x ∉ s.fdList) {y : ι}
    (inside : y ∈ (withObj s x size name h).fdList) :
    (y = x ∧ (withObj s x size name h).objects y = newObj s size name) ∨
      (y ∈ s.fdList ∧ (withObj s x size name h).objects y = s.objects y) := by
  rcases mem_withObj.mp inside with old | rfl
  · have other : y ≠ x := fun same => absent (same ▸ old)
    exact .inr ⟨old, withObj_other other ..⟩
  · exact .inl ⟨rfl, withObj_self ..⟩

/-- The object `x` is new, and has a name that no constant handle has. -/
theorem FdSound.withObj (sound : FdSound s) (absent : x ∉ s.fdList)
    (indexed : FdIndexed (withObj s x size name h)) (nonempty : name ≠ []) (valid : svcCheckName name = true)
    (free : ∀ y ∈ s.fdList, (s.objects y).flags.isConst = true → (s.objects y).name ≠ name) :
    FdSound (withObj s x size name h) := by
  refine ⟨indexed, fun y member isConst z memberZ named => ?_, fun y member => ?_⟩
  · rcases withObj_cases absent member with ⟨-, new⟩ | ⟨old, same⟩
    · rw [new] at isConst
      exact nomatch isConst
    · rw [same] at isConst named
      rcases withObj_cases absent memberZ with ⟨-, newZ⟩ | ⟨oldZ, sameZ⟩
      · rw [newZ] at named
        exact absurd named.symm (free y old isConst)
      · rw [sameZ] at named
        exact sound.const y old isConst z oldZ named
  · rcases withObj_cases absent member with ⟨-, new⟩ | ⟨old, same⟩
    · rw [new]
      exact ⟨nonempty, valid⟩
    · rw [same]
      exact sound.valid y old

/-- An object gets its contents; if it is constant, no other has its name. -/
theorem FdSound.assign (sound : FdSound s) {fd : FdObj ι} (name : fd.name = (s.objects x).name)
    (alone : fd.flags.isConst = true → ∀ z ∈ s.fdList, (s.objects z).name = fd.name → z = x) :
    FdSound { s with objects := Function.update s.objects x fd } := by
  have names : ∀ y, (Function.update s.objects x fd y).name = (s.objects y).name := by
    intro y
    rw [Function.update_apply]
    split
    · next here => rw [here, name]
    · rfl
  refine ⟨⟨sound.indexed.nodup, sound.indexed.names.congr (fun _ => .rfl) fun y _ => names y⟩, ?_, ?_⟩
  · intro y member isConst z memberZ named
    dsimp only at isConst named
    rw [names, names] at named
    rw [Function.update_apply] at isConst
    split at isConst
    · next here =>
      subst here
      exact alone isConst z memberZ (named.trans name.symm)
    · exact sound.const y member isConst z memberZ named
  · intro y member
    dsimp only
    rw [names]
    exact sound.valid y member

/-- The objects `new` are in the table now; the others were there before. -/
structure Placed (s s' : FdTable ι) (new : List ι) : Prop where
  sound : FdSound s'
  mem : ∀ y ∈ s'.fdList, y ∈ new ∨ y ∉ new ∧ y ∈ s.fdList ∧ Inherits (s'.objects y) (s.objects y)
  fresh : ∀ f ∈ new, f ∈ s'.fdList ∧ f ∉ s.fdList

theorem fdNewFile_sound (sound : FdSound s) (nonempty : name ≠ []) (valid : svcCheckName name = true)
    (fdnum : ℤ) {flags : FdFlags} (alone : flags.isConst = true → ∀ y ∈ s.fdList, (s.objects y).name ≠ name) (path : Bytes)
    (mem : Option ι) :
    Ensures (fdNewFile name fdnum flags path mem) s fun result s' =>
      (result = none ∧ s' = s) ∨ ∃ f, result = some f ∧ Placed s s' [f] ∧ (s'.objects f).fd = fdnum ∧
        (s'.objects f).flags = flags ∧ (s'.objects f).name = name ∧ ∃ size : ℤ, (s'.objects f).attr = .path (appendElipses size path) := by
  rw [fdNewFile]
  refine (sound.indexed.byName name).ensures.bind ?_
  rintro old _ ⟨rfl, found, missing⟩
  refine (isConstFd_spec old).ensures.bind ?_
  rintro const s ⟨rfl, isConst⟩
  split
  · exact ensures_pure (.inl ⟨rfl, rfl⟩)
  next notConst =>
    refine (sound.indexed.new _ name mem).ensures.bind ?_
    rintro _ _ (⟨rfl, rfl⟩ | ⟨f, h, rfl, -, absent, rfl, indexed⟩)
    · exact ensures_pure (.inl ⟨rfl, rfl⟩)
    have made := sound.withObj absent indexed nonempty valid (sound.not_const found missing fun const => notConst (isConst.mpr const))
    refine (made.deleteOld old).bind ?_
    rintro _ s₂ ⟨sound₂, mem₂, same₂⟩
    refine Ensures.modify_bind (ensures_pure (.inr ⟨f, rfl, ?_⟩))
    have named : (s₂.objects f).name = name := by
      rw [(same₂ f).name, withObj_self]
      rfl
    have inside : f ∈ s₂.fdList := (mem₂ f).mpr ⟨fun same => absent (found f same).1, mem_withObj.mpr (.inr rfl)⟩
    dsimp only
    rw [Function.update_self]
    refine ⟨⟨sound₂.assign rfl fun const z member same => ?_, fun y member => ?_, ?_⟩, rfl, rfl, named, _, rfl⟩
    · by_contra other
      have old : z ∈ s.fdList := (mem_withObj.mp ((mem₂ z).mp member).2).resolve_right other
      apply alone const z old
      rw [← named, ← same, (same₂ z).name, withObj_other other]
    · by_cases here : y = f
      · exact .inl (List.mem_singleton.mpr here)
      · have old : y ∈ s.fdList := (mem_withObj.mp ((mem₂ y).mp member).2).resolve_right here
        refine .inr ⟨fun new => here (List.mem_singleton.mp new), old, ?_⟩
        dsimp only
        rw [Function.update_of_ne here]
        have kept := same₂ y
        rwa [withObj_other here] at kept
    · rintro g new
      rw [List.mem_singleton.mp new]
      exact ⟨inside, absent⟩

theorem swapRemove_last {list : List ι} (absent : x ∉ list) : swapRemove x (list ++ [x]) = list := by
  rw [swapRemove, List.getLast?_concat]
  simp [List.idxOf_append_of_notMem absent]

/-- An object that was made and deleted again leaves the table as it was. -/
theorem Deleted.of_new (absent : x ∉ s.fdList)
    (deleted : Deleted (withObj s x size name h) s' x) : SameTable s s' ∧ s'.closed = s.closed := by
  have new := withObj_self s x size name h
  refine ⟨⟨?_, fun y member => ?_⟩, ?_⟩
  · rw [deleted.list]
    exact swapRemove_last absent
  · rw [deleted.file (by rw [new]; rfl)]
    have other : y ≠ x := fun same => absent (same ▸ member)
    exact withObj_other other ..
  · rw [deleted.closed, new]
    exact List.append_nil _

theorem fdNewPipe_sound (sound : FdSound s) {name1 name2 : Bytes} (nonempty1 : name1 ≠ []) (valid1 : svcCheckName name1 = true)
    (nonempty2 : name2 ≠ []) (valid2 : svcCheckName name2 = true) (num1 num2 : ℤ) {flags : FdFlags}
    (free : flags.isConst = false) (mem1 mem2 : Option ι) :
    Ensures (fdNewPipe name1 num1 name2 num2 flags mem1 mem2) s fun result s' =>
      (result = none ∧ SameTable s s' ∧ FdIndexed s' ∧ s'.closed = s.closed) ∨
        ∃ f1 f2, result = some (f1, f2) ∧ Placed s s' [f1, f2] ∧ (s'.objects f1).attr = .peer f2 ∧
          (s'.objects f2).attr = .peer f1 := by
  have refused : ∀ {s : FdTable ι}, FdSound s → SameTable s s ∧ FdIndexed s ∧ s.closed = s.closed :=
    fun sound => ⟨.refl _, sound.indexed, rfl⟩
  rw [fdNewPipe]
  refine (sound.indexed.byName name1).ensures.bind ?_
  rintro old1 _ ⟨rfl, found1, missing1⟩
  refine (sound.indexed.byName name2).ensures.bind ?_
  rintro old2 _ ⟨rfl, found2, missing2⟩
  refine (isConstFd_spec old1).ensures.bind ?_
  rintro const1 _ ⟨rfl, isConst1⟩
  refine (isConstFd_spec old2).ensures.bind ?_
  rintro const2 s ⟨rfl, isConst2⟩
  split
  · exact ensures_pure (.inl ⟨rfl, refused sound⟩)
  next notConst =>
    rw [Bool.or_eq_true, not_or] at notConst
    have free1 := sound.not_const found1 missing1 fun const => notConst.1 (isConst1.mpr const)
    have free2 := sound.not_const found2 missing2 fun const => notConst.2 (isConst2.mpr const)
    refine (sound.indexed.new _ name1 mem1).ensures.bind ?_
    rintro _ _ (⟨rfl, rfl⟩ | ⟨f1, h1, rfl, -, absent1, rfl, indexed1⟩)
    · exact ensures_pure (.inl ⟨rfl, refused sound⟩)
    have sound1 := sound.withObj absent1 indexed1 nonempty1 valid1 free1
    refine (indexed1.new _ name2 mem2).ensures.bind ?_
    rintro _ _ (⟨rfl, rfl⟩ | ⟨f2, h2, rfl, -, absent2, rfl, indexed2⟩)
    · refine (indexed1.delete f1).bind fun _ s' deleted => ensures_pure (.inl ⟨rfl, ?_⟩)
      obtain ⟨same, closed⟩ := Deleted.of_new absent1 deleted
      exact ⟨same, deleted.indexed, closed⟩
    have sound2 := sound1.withObj absent2 indexed2 nonempty2 valid2 fun y member isConst => by
      rcases withObj_cases absent1 member with ⟨-, new⟩ | ⟨old, same⟩
      · rw [new] at isConst
        cases isConst
      · rw [same] at isConst ⊢
        exact free2 y old isConst
    refine (sound2.deleteOld old1).bind ?_
    rintro _ s₃ ⟨sound₃, mem₃, same₃⟩
    refine (sound₃.deleteOld old2).bind ?_
    rintro _ s₄ ⟨sound₄, mem₄, same₄⟩
    refine Ensures.modify_bind (Ensures.modify_bind (ensures_pure (.inr ⟨f1, f2, rfl, ?_⟩)))
    have distinct : f2 ≠ f1 := fun same => absent2 (mem_withObj.mpr (.inr same))
    have absent2' : f2 ∉ s.fdList := fun old => absent2 (mem_withObj.mpr (.inl old))
    have remains : ∀ f ∉ s.fdList, f = f1 ∨ f = f2 → f ∈ s₄.fdList := by
      intro f absent new
      refine (mem₄ f).mpr ⟨fun same => absent (found2 f same).1, (mem₃ f).mpr ⟨fun same => absent (found1 f same).1, ?_⟩⟩
      rcases new with rfl | rfl
      · exact mem_withObj.mpr (.inl (mem_withObj.mpr (.inr rfl)))
      · exact mem_withObj.mpr (.inr rfl)
    dsimp only
    refine ⟨⟨(FdSound.assign (FdSound.assign sound₄ ?_ ?_) ?_ ?_), fun y member => ?_, ?_⟩, ?_, ?_⟩
    · rfl
    · exact fun const => by cases free.symm.trans const
    · rfl
    · exact fun const => by cases free.symm.trans const
    · by_cases new : y ∈ [f1, f2]
      · exact .inl new
      · obtain ⟨other1, other2⟩ : y ≠ f1 ∧ y ≠ f2 := by simpa [not_or] using new
        have old := (mem_withObj.mp ((mem₃ y).mp ((mem₄ y).mp member).2).2).resolve_right other2
        refine .inr ⟨new, (mem_withObj.mp old).resolve_right other1, ?_⟩
        dsimp only
        rw [Function.update_of_ne other2, Function.update_of_ne other1]
        have kept := (same₄ y).trans (same₃ y)
        rwa [withObj_other other2, withObj_other other1] at kept
    · intro f new
      rcases List.mem_pair.mp new with rfl | rfl
      · exact ⟨remains _ absent1 (.inl rfl), absent1⟩
      · exact ⟨remains _ absent2' (.inr rfl), absent2'⟩
    · rw [Function.update_of_ne distinct.symm, Function.update_self]
    · rw [Function.update_self]

/-! ## The start -/

/-- So far the handles have these names. -/
structure Started (s : FdTable ι) (names : List Bytes) : Prop where
  sound : FdSound s
  used : ∀ y ∈ s.fdList, (s.objects y).name ∈ names

theorem Started.special {names : List Bytes} (started : Started s names)
    (usable : name ≠ [] ∧ svcCheckName name = true ∧ name ∉ names) (fdnum : ℤ) (flags : FdFlags) (path : Bytes) (mem : Option ι) :
    Ensures (specialHandle name fdnum flags path mem) s fun _ s' => Started s' (name :: names) := by
  obtain ⟨nonempty, valid, new⟩ := usable
  have alone : ∀ y ∈ s.fdList, (s.objects y).name ≠ name := fun y member same => new (same ▸ started.used y member)
  refine (fdNewFile_sound started.sound nonempty valid fdnum (fun _ => alone) path mem).bind ?_
  rintro _ s' (⟨rfl, rfl⟩ | ⟨f, rfl, placed, -, -, named, -⟩)
  · exact ensures_pure ⟨started.sound, fun y member => List.mem_cons_of_mem _ (started.used y member)⟩
  · refine Ensures.modify_bind (ensures_pure ⟨placed.sound.congr ?_ ⟨rfl, fun _ _ => rfl⟩, fun y member => ?_⟩)
    · exact ⟨placed.sound.indexed.nodup, placed.sound.indexed.names⟩
    · rcases placed.mem y member with here | ⟨-, old, same⟩
      · rw [List.mem_singleton.mp here, named]
        exact List.mem_cons_self
      · rw [same.name]
        exact List.mem_cons_of_mem _ (started.used y old)

theorem fdInitSpecialHandles_sound (poolSize : Option ℕ) (fdDevNull : ℤ) (mem : Fin 4 → Option ι) :
    Ensures (fdInitSpecialHandles fdDevNull mem) (FdTable.empty poolSize) fun _ s => FdSound s := by
  have empty : Started (FdTable.empty poolSize : FdTable ι) [] := ⟨⟨(empty_inv poolSize).ok.indexed, nofun, nofun⟩, nofun⟩
  refine (empty.special (by decide) _ _ _ _).bind fun done s₁ started₁ => ?_
  split
  · refine (started₁.special (by decide) _ _ _ _).bind fun done s₂ started₂ => ?_
    split
    · refine (started₂.special (by decide) _ _ _ _).bind fun done s₃ started₃ => ?_
      split
      · exact (started₃.special (by decide) _ _ _ _).mono fun _ _ started₄ => started₄.sound
      · exact ensures_pure started₃.sound
    · exact ensures_pure started₂.sound
  · exact ensures_pure started₁.sound

end DaemonProxy.Proofs
