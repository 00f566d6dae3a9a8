import DaemonProxy.Proofs.RBTreeIndex

/-! # `RBTree_Clear`

The loop of `RBTree_Clear` waits for the shared sentinel, and `RBTreeNode_GetNext` never returns it: behind the last node
it returns null. So the loop cannot be left once it has been entered.
-/

namespace DaemonProxy.Proofs

open Lib Model ColorTree

variable {ι : Type} [DecidableEq ι] {h : Heap ι} {order : List ι} {x : ι} {p : Ref ι} {fuel : ℕ}

/-- The pointers of the nodes lead to nodes of the tree, or to its ends. -/
structure Closed (h : Heap ι) (order : List ι) : Prop where
  root : (h .root).parent = .null
  parent : ∀ x ∈ order, (h (.node x)).parent = .root ∨ ∃ y ∈ order, (h (.node x)).parent = .node y
  child : ∀ x ∈ order, ∀ s, (h (.node x)).child s = .sentinel ∨ ∃ y ∈ order, (h (.node x)).child s = .node y

omit [DecidableEq ι] in
theorem RedBlack.closed (redBlack : RedBlack h order) : Closed h order := by
  obtain ⟨t, k, shape, -, rfl, -⟩ := redBlack
  refine ⟨by rw [shape.root], ?_, ?_⟩
  · intro x member
    obtain ⟨ctx, c, l, r, rfl⟩ := exists_plug_of_mem member
    have record : h (.node x) = ⟨ptr l, ptr r, above ctx, nodeColor c⟩ := Shape.record (s := .left) shape
    rw [record]
    cases ctx with
    | nil => exact .inl rfl
    | cons f ctx =>
      refine .inr ⟨f.label, ?_, rfl⟩
      rw [(labels_plug_perm ..).mem_iff]
      exact List.mem_append_right _ List.mem_cons_self
  · intro x member s
    obtain ⟨ctx, c, l, r, rfl⟩ := exists_plug_of_mem member
    obtain ⟨a, b, same⟩ := exists_link s c l x r
    rw [same] at shape ⊢
    rw [shape.record, cell_child]
    cases a with
    | nil => exact .inl rfl
    | node d l' z r' =>
      refine .inr ⟨z, ?_, rfl⟩
      rw [labels_plug]
      refine List.mem_append_left _ (List.mem_append_right _ ?_)
      rw [(labels_link_perm ..).mem_iff]
      simp [labels]

theorem Closed.setColor (closed : Closed h order) (color : NodeColor) : Closed (h.modify p (·.setColor color)) order := by
  have same (q : Ref ι) : (h.modify p (·.setColor color) q).parent = (h q).parent ∧
      ∀ s, (h.modify p (·.setColor color) q).child s = (h q).child s := by
    rw [Heap.modify]
    split
    · next here =>
      subst here
      refine ⟨rfl, fun s => ?_⟩
      cases s <;> rfl
    · exact ⟨rfl, fun _ => rfl⟩
  refine ⟨(same _).1.trans closed.root, fun x member => ?_, fun x member s => ?_⟩
  · rw [(same _).1]
    exact closed.parent x member
  · rw [(same _).2]
    exact closed.child x member s

/-! ## Pointers that are followed -/

theorem ensures_load : Ensures (load p) h fun cell h' => p ≠ .null ∧ cell = h p ∧ h' = h := by
  by_cases null : p = .null
  · intro cell h' run
    simp [load, null, StateT.run] at run
  · exact Ends.ensures (ends_load.mpr ⟨null, null, rfl, rfl⟩)

theorem ensures_getChild {s : Side} : Ensures (getChild s p) h fun q h' => p ≠ .null ∧ q = (h p).child s ∧ h' = h := by
  refine ensures_load.bind ?_
  rintro _ _ ⟨proper, rfl, rfl⟩
  exact ensures_pure ⟨proper, rfl, rfl⟩

theorem ensures_getParent : Ensures (getParent p) h fun q h' => p ≠ .null ∧ q = (h p).parent ∧ h' = h := by
  refine ensures_load.bind ?_
  rintro _ _ ⟨proper, rfl, rfl⟩
  exact ensures_pure ⟨proper, rfl, rfl⟩

theorem ensures_setColor {color : NodeColor} :
    Ensures (setColor p color) h fun _ h' => p ≠ .null ∧ h' = h.modify p (·.setColor color) := by
  by_cases null : p = .null
  · intro done h' run
    simp [setColor, store, null, StateT.run] at run
  · exact Ends.ensures (ends_setColor.mpr ⟨null, null, rfl⟩)

/-! ## The walks stay inside -/

theorem Closed.descend (closed : Closed h order) (member : x ∈ order) (s : Side) :
    Ensures (descend fuel s (.node x)) h fun p h' => h' = h ∧ ∃ y ∈ order, p = .node y := by
  let Inv : Ref ι → Heap ι → Prop := fun p h' => h' = h ∧ ∃ y ∈ order, p = .node y
  have round : ∀ p h', Inv p h' → Ensures (descendRound s p) h' fun outcome h' => outcome.elim (Inv · h') (Inv · h') := by
    rintro _ _ ⟨rfl, y, inside, rfl⟩
    refine ensures_getChild.bind ?_
    rintro _ _ ⟨-, rfl, rfl⟩
    split
    · exact ensures_pure ⟨rfl, y, inside, rfl⟩
    · next proper =>
      rcases closed.child y inside s with none | below
      · exact absurd none proper
      · exact ensures_pure ⟨rfl, below⟩
  exact Ensures.loop round ⟨rfl, x, member, rfl⟩ fuel

/-- The next of a node of the tree is a node of the tree, or null. -/
theorem Closed.getNext (closed : Closed h order) (member : x ∈ order) :
    Ensures (rbTreeNodeGetNext fuel (.node x)) h fun p h' => h' = h ∧ (p = .null ∨ ∃ y ∈ order, p = .node y) := by
  refine ensures_getChild.bind ?_
  rintro _ _ ⟨-, rfl, rfl⟩
  split
  · next proper =>
    rcases closed.child x member .right with none | ⟨y, inside, right⟩
    · exact absurd none proper
    · rw [right]
      exact (closed.descend inside .left).mono fun _ _ found => ⟨found.1, .inr found.2⟩
  · refine ensures_getParent.bind ?_
    rintro _ h ⟨-, rfl, rfl⟩
    let Inv : Ref ι × Ref ι → Heap ι → Prop := fun pair h' =>
      h' = h ∧ (pair.2 = .null ∨ pair.2 = .root ∨ ∃ y ∈ order, pair.2 = .node y)
    let Above : Ref ι → Heap ι → Prop := fun p h' => h' = h ∧ (p = .root ∨ ∃ y ∈ order, p = .node y)
    have round : ∀ pair h', Inv pair h' → Ensures (nextRound pair) h' fun outcome h' => outcome.elim (Inv · h') (Above · h') := by
      rintro ⟨node, parent⟩ _ ⟨rfl, place⟩
      refine ensures_getChild.bind ?_
      rintro _ _ ⟨proper, rfl, rfl⟩
      split
      · refine ensures_getParent.bind ?_
        rintro _ _ ⟨-, rfl, rfl⟩
        refine ensures_pure ⟨rfl, ?_⟩
        rcases place with null | rfl | ⟨y, inside, rfl⟩
        · exact absurd null proper
        · exact .inl closed.root
        · exact .inr (closed.parent y inside)
      · rcases place with null | place
        · exact absurd null proper
        · exact ensures_pure ⟨rfl, place⟩
    refine (Ensures.loop round ⟨rfl, .inr (closed.parent x member)⟩ fuel).bind ?_
    rintro p _ ⟨rfl, place⟩
    refine ensures_getParent.bind ?_
    rintro _ _ ⟨-, rfl, rfl⟩
    split
    · exact ensures_pure ⟨rfl, .inl rfl⟩
    · next below =>
      rcases place with rfl | place
      · exact absurd closed.root below
      · exact ensures_pure ⟨rfl, .inr place⟩

/-! ## The loop -/

/-- From a node, the loop comes to no end: it runs out of nodes and follows null. -/
theorem Closed.clearLoop (closed : Closed h order) (member : x ∈ order) {rounds : ℕ} :
    Ensures (loop (clearRound fuel) rounds (.node x)) h fun _ _ => False := by
  let Inv : Ref ι → Heap ι → Prop := fun p h' => Closed h' order ∧ (p = .null ∨ ∃ y ∈ order, p = .node y)
  have round : ∀ p h', Inv p h' → Ensures (clearRound fuel p) h' fun outcome h' => outcome.elim (Inv · h') fun _ => False := by
    rintro p h' ⟨closed, place⟩
    rw [clearRound]
    split
    · next last => rcases place with rfl | ⟨y, -, rfl⟩ <;> cases last
    · refine ensures_setColor.bind ?_
      rintro _ _ ⟨proper, rfl⟩
      rcases place with null | ⟨y, inside, rfl⟩
      · exact absurd null proper
      · have closed' : Closed (h'.modify (.node y) (·.setColor .unassigned)) order := closed.setColor .unassigned
        refine (closed'.getNext inside).bind ?_
        rintro next _ ⟨rfl, place⟩
        exact ensures_pure ⟨closed', place⟩
  exact Ensures.loop round ⟨closed, .inr ⟨x, member, rfl⟩⟩ rounds

theorem RedBlack.clear_nonempty (redBlack : RedBlack h order) (nonempty : order ≠ []) : Ensures (rbTreeClear fuel) h fun _ _ => False := by
  have closed := redBlack.closed
  obtain ⟨t, k, shape, -, rfl, -⟩ := redBlack
  cases t with
  | nil => exact absurd rfl nonempty
  | node c l x r =>
    have member : x ∈ (node c l x r).labels := by simp [labels]
    refine ensures_getChild.bind ?_
    rintro _ _ ⟨-, rfl, rfl⟩
    rw [shape.root, mk_child_left]
    refine (closed.descend member .left).bind ?_
    rintro _ _ ⟨rfl, y, inside, rfl⟩
    exact (closed.clearLoop inside).bind fun _ _ never => never.elim

/-- In an empty tree there is nothing to do. -/
theorem RedBlack.clear_empty (redBlack : RedBlack h []) (enough : 0 < fuel) : Ends (rbTreeClear fuel) h fun _ h' => h' = h := by
  obtain ⟨t, k, shape, -, empty, -⟩ := redBlack
  obtain rfl : t = nil := by
    cases t with
    | nil => rfl
    | node c l x r => simp [labels] at empty
  have root : h .root = ⟨.sentinel, .sentinel, .null, .black⟩ := shape.root
  have left : (h .sentinel).child .left = .sentinel := shape.sentinel.left
  obtain ⟨fuel, rfl⟩ : ∃ before, fuel = before + 1 := ⟨fuel - 1, by omega⟩
  simp only [rbTreeClear, rbTreeNodeGetLeftmost, descend, loop, descendRound, clearRound, ends_bind, ends_getChild, ends_ite,
    ends_pure, ends_setChild, root, left, mk_child_left, if_true, ne_eq, reduceCtorEq, not_false_eq_true, true_and]
  funext q
  rw [Heap.modify]
  split
  · next here => rw [here, root]; rfl
  · rfl

end DaemonProxy.Proofs
