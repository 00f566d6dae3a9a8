import DaemonProxy.Proofs.RBTreeLocal

/-! # Deletion

`RBTreeNode_PruneLeaf` takes out a node with at most one child. When that node was black and had
none, the loop carries a subtree that is one black node short of what its hole wants; a red sibling
is first rotated away, a black one is painted red and the shortage moves up, or a red nephew is
rotated in to make up for it. `RBTreeNode_Prune` reduces a node with two children to this case.
-/

namespace DaemonProxy.Proofs

open Lib Model ColorTree

variable {ι : Type} [DecidableEq ι] {h : Heap ι} {rest : ι → Cell ι} {ctx : List (Frame ι)}

/-- The pointer to the subtree beside a hole; there is none beside the root. -/
def siblingPtr : List (Frame ι) → Ref ι
  | [] => .sentinel
  | f :: _ => ptr f.sibling

omit [DecidableEq ι] in
theorem Shape.sibling_above {t : ColorTree ι} (shape : Shape h rest (plug ctx t)) :
    (h (above ctx)).child (holeSide ctx).other = siblingPtr ctx := by
  have path := (shape_plug.mp shape).path
  cases ctx with
  | nil => rw [above, show h .root = _ from path]; rfl
  | cons f ctx => rw [above, holeSide, path.1, cell_child_other]; rfl

/-! ## The cases of the loop -/

section Cases

variable {s : Side} {c : Color} {x y z : ι} {t a b : ColorTree ι} {current : Ref ι}

/-- Case 1: the red sibling rises, and the shortage stays below its old parent, now red. -/
theorem pruneRedSibling_spec (shape : Shape h rest (plug ctx (link s c x t (link s .red y a b)))) :
    Ends (pruneRedSibling ⟨current, .node x, .node y, s⟩) h fun v h' => v = ⟨current, .node x, ptr a, s⟩ ∧
      Shape h' rest (plug (⟨s, .red, x, a⟩ :: ⟨s, .black, y, b⟩ :: ctx) t) := by
  simp only [pruneRedSibling, ends_bind, ends_getChild, ends_pure]
  refine (setColor_spec shape .red).mono fun _ h₁ shape₁ => ?_
  refine (setColor_spec shape₁.focus_far .black).mono fun _ h₂ shape₂ => ?_
  refine (rotateHere_spec shape₂.unfocus_far).mono fun _ h₃ shape₃ => ?_
  rw [shape₃.focus_near.record, cell_child_other]
  exact ⟨by rintro ⟨⟩, rfl, shape₃⟩

/-- Case 2a: the black sibling turns red, and the shortage moves one level up. -/
theorem pruneBlackSibling_spec (shape : Shape h rest (plug ctx (link s c x t (link s .black y a b)))) :
    Ends (pruneBlackSibling ⟨current, .node x, .node y, s⟩) h fun v h' =>
      v = ⟨.node x, above ctx, siblingPtr ctx, holeSide ctx⟩ ∧
      Shape h' rest (plug ctx (link s c x t (link s .red y a b))) := by
  simp only [pruneBlackSibling, ends_bind, ends_getChild, ends_getParent, ends_sideOf, ends_pure]
  refine (setColor_spec shape.focus_far .red).mono fun _ h₁ shape₁ => ?_
  have whole := shape₁.unfocus_far
  simp only [whole.record, cell_parent, whole.side_eq, whole.sibling_above, above_ne_null, ne_eq, reduceCtorEq,
    not_false_eq_true, true_and]
  exact whole

/-- Case 4: the sibling rises in the colour of its old parent, above two black nodes. -/
theorem pruneRotate_spec {d d' : Color} {p q : ColorTree ι}
    (shape : Shape h rest (plug ctx (link s c x t (link s d y a (link s d' z p q))))) :
    Ends (do
      setColor (← getChild s.other (.node y)) .black
      setColor (.node y) (← getColor (.node x))
      setColor (.node x) .black
      rotateHere s (.node x)) h fun _ h' =>
      Shape h' rest (plug ctx (link s c y (link s .black x t a) (link s .black z p q))) := by
  simp only [ends_bind, ends_getChild, ends_getColor, shape.focus_far.record, cell_child_other, ptr_link, ne_eq,
    reduceCtorEq, not_false_eq_true, true_and]
  refine (setColor_spec shape.focus_far.focus_far .black).mono fun _ h₁ shape₁ => ?_
  rw [shape₁.unfocus_far.unfocus_far.record, cell_color]
  refine (setColor_spec shape₁.unfocus_far c).mono fun _ h₂ shape₂ => ?_
  refine (setColor_spec shape₂.unfocus_far .black).mono fun _ h₃ shape₃ => ?_
  exact rotateHere_spec shape₃

theorem pruneRedNephew_far {p q : ColorTree ι}
    (shape : Shape h rest (plug ctx (link s c x t (link s .black y a (link s .red z p q))))) :
    Ends (pruneRedNephew ⟨current, .node x, .node y, s⟩) h fun _ h' =>
      Shape h' rest (plug ctx (link s c y (link s .black x t a) (link s .black z p q))) := by
  have far := shape.focus_far.focus_far.color
  have rotated := pruneRotate_spec shape
  simp only [ptr_link, color_link, nodeColor_red] at far
  simp only [pruneRedNephew, ends_bind, ends_getChild, ends_getColor, shape.focus_far.record, cell_child_other, ptr_link,
    far, ends_pure, if_false, ne_eq, reduceCtorEq, not_false_eq_true, true_and] at rotated ⊢
  exact rotated

/-- Case 3: only the near nephew is red; it becomes the sibling first. -/
theorem pruneRedNephew_near {p q : ColorTree ι}
    (shape : Shape h rest (plug ctx (link s c x t (link s .black y (link s .red z p q) b))))
    (farBlack : b.color = .black) :
    Ends (pruneRedNephew ⟨current, .node x, .node y, s⟩) h fun _ h' =>
      Shape h' rest (plug ctx (link s c z (link s .black x t p) (link s .black y q b))) := by
  have far := shape.focus_far.focus_far.color
  rw [farBlack, nodeColor_black] at far
  have turned : Shape h rest (plug (⟨s.other, c, x, t⟩ :: ctx)
      (link s.other .black y b (link s.other .red z q p))) := by
    simpa only [link_other] using shape.focus_far
  simp only [pruneRedNephew, ends_bind, ends_getChild, ends_getColor, shape.focus_far.record, cell_child_other, ptr_link,
    far, if_true, ptr_ne_null, ne_eq, reduceCtorEq, not_false_eq_true, true_and]
  refine (rotate_spec turned).mono fun _ h₁ shape₁ => ?_
  have risen : Shape h₁ rest (plug ctx (link s c x t (link s .red z p (link s .black y q b)))) := by
    simpa only [link_other] using shape₁.unfocus_far
  have rotated := pruneRotate_spec risen
  simp only [ends_bind, ends_getChild, ends_getColor, risen.record, cell_child_other, ptr_link, ne_eq, reduceCtorEq,
    not_false_eq_true, true_and] at rotated ⊢
  exact rotated

theorem blackNephews_spec {d : Color} (shape : Shape h rest (plug ctx (link s d y a b))) :
    Ends (blackNephews (.node y)) h fun result h' =>
      h' = h ∧ (result = true ↔ a.color = .black ∧ b.color = .black) := by
  have near := shape.focus_near.color
  have far := shape.focus_far.color
  simp only [blackNephews, ends_bind, ends_getChild, ends_getColor, shape.record, ends_ite, ends_pure, ne_eq,
    reduceCtorEq, not_false_eq_true, true_and]
  cases s <;>
    simp only [cell, mk_child_left, mk_child_right, near, far, ptr_ne_null, nodeColor_eq_black, not_false_eq_true, true_and] <;>
    split <;> simp_all

end Cases

/-! ## The loop -/

/-- What a deletion leaves behind: a balanced tree with the given labels. Of the records outside, only
that of the deleted node `gone` may have changed. -/
def Pruned (rest : ι → Cell ι) (gone : ι) (order : List ι) (h : Heap ι) : Prop :=
  ∃ rest' t k, (∀ z, z ≠ gone → rest' z = rest z) ∧ Shape h rest' t ∧ t.Balanced .black k ∧ t.labels = order

omit [DecidableEq ι] in
theorem Pruned.of_rest {rest' : ι → Cell ι} {gone : ι} {order : List ι} (pruned : Pruned rest' gone order h)
    (same : ∀ z, z ≠ gone → rest' z = rest z) : Pruned rest gone order h := by
  obtain ⟨rest'', t, k, others, shape, balanced, labels⟩ := pruned
  exact ⟨rest'', t, k, fun z other => (others z other).trans (same z other), shape, balanced, labels⟩

/-- The subtree `t` in its hole is one black node short. `current` is its root, or at first the
deleted node, which is black as well. -/
structure Short (rest : ι → Cell ι) (gone : ι) (ctx : List (Frame ι)) (t : ColorTree ι) (current : Ref ι) : Prop where
  balanced : ∃ k, t.Balanced .black k ∧ Hole ctx .black (k + 1)
  current : (current = .node gone ∧ gone ∉ (plug ctx t).labels ∧ (rest gone).color = .black) ∨
    (current = ptr t ∧ t ≠ nil)

/-- Painting `current` black ends the deletion. -/
def Repairable (ctx : List (Frame ι)) (t : ColorTree ι) (current : Ref ι) : Prop :=
  ∃ s x a b k, t = link s .red x a b ∧ current = .node x ∧ (link s .black x a b).Balanced .black k ∧ Hole ctx .black k

/-- Below a red node the loop ends within one more round. -/
def pruneVariant : List (Frame ι) → ℕ
  | ⟨_, .red, _, _⟩ :: _ => 1
  | ctx => ctx.length + 1

omit [DecidableEq ι] in
theorem pruneVariant_le (ctx : List (Frame ι)) : pruneVariant ctx ≤ ctx.length + 1 := by
  unfold pruneVariant
  split <;> simp

/-- What the loop of `RBTreeNode_PruneLeaf` maintains. -/
def PruneInv (rest : ι → Cell ι) (gone : ι) (order : List ι) (n : ℕ) (v : PruneVars ι) (h : Heap ι) : Prop :=
  ∃ ctx t, v.parent = above ctx ∧ v.sibling = siblingPtr ctx ∧ v.leftSide = holeSide ctx ∧
    Shape h rest (plug ctx t) ∧ (plug ctx t).labels = order ∧
    (Short rest gone ctx t v.current ∧ n = pruneVariant ctx ∨ Repairable ctx t v.current ∧ n = 0)

/-- What it leaves behind, up to the colour of the current node if it did not return. -/
def PruneDone (rest : ι → Cell ι) (gone : ι) (order : List ι) (result : Option (Ref ι)) (h : Heap ι) : Prop :=
  match result with
  | none => Pruned rest gone order h
  | some current => Ends (setColor current .black) h fun _ => Pruned rest gone order

section Loop

variable {gone : ι} {t : ColorTree ι} {current : Ref ι}

omit [DecidableEq ι] in
theorem Short.current_black (short : Short rest gone ctx t current) (shape : Shape h rest (plug ctx t)) :
    current ≠ .null ∧ (h current).color = .black := by
  obtain ⟨k, balanced, -⟩ := short.balanced
  rcases short.current with ⟨rfl, absent, black⟩ | ⟨rfl, -⟩
  · exact ⟨nofun, by rw [shape.others gone absent, black]⟩
  · exact ⟨ptr_ne_null t, by rw [shape.color, balanced.color_eq, nodeColor_black]⟩

/-- At the root nothing is missing. -/
theorem Short.done (short : Short rest gone [] t current) (shape : Shape h rest t) :
    PruneDone rest gone t.labels (some current) h := by
  obtain ⟨k, balanced, -⟩ := short.balanced
  rcases short.current with ⟨rfl, absent, -⟩ | ⟨rfl, nonempty⟩
  · refine ends_setColor.mpr ⟨nofun, _, t, k, ?_, shape.modify_other absent _, balanced, rfl⟩
    exact fun z other => Function.update_of_ne other _ _
  · cases t with
    | nil => exact absurd rfl nonempty
    | node c l x r =>
      obtain rfl : c = .black := balanced.color_eq
      have painted : Shape h rest (plug [] (link .left .black x l r)) := shape
      exact (setColor_spec painted .black).mono fun _ h' shape' =>
        ⟨rest, _, k, fun _ _ => rfl, shape', balanced, rfl⟩

theorem Repairable.done (repairable : Repairable ctx t current) (shape : Shape h rest (plug ctx t)) :
    PruneDone rest gone (plug ctx t).labels (some current) h := by
  obtain ⟨s, x, a, b, k, rfl, rfl, balanced, hole⟩ := repairable
  obtain ⟨m, whole⟩ := hole.plug balanced
  exact (setColor_spec shape .black).mono fun _ h' shape' =>
    ⟨rest, _, m, fun _ _ => rfl, shape', whole, labels_plug_congr ctx (labels_link_color ..)⟩

omit [DecidableEq ι] in
/-- The colour of the current node decides whether the loop goes on. -/
theorem Repairable.current_red (repairable : Repairable ctx t current) (shape : Shape h rest (plug ctx t)) :
    current ≠ .null ∧ (h current).color = .red := by
  obtain ⟨s, x, a, b, k, rfl, rfl, -, -⟩ := repairable
  exact ⟨nofun, by rw [shape.record, cell_color, nodeColor_red]⟩

/-- A round below a black sibling. -/
theorem pruneRound_black {s : Side} {c c₁ c₂ : Color} {x y : ι} {a b : ColorTree ι} {k : ℕ}
    (shape : Shape h rest (plug ctx (link s c x t (link s .black y a b)))) (balanced : t.Balanced .black k)
    (near : a.Balanced c₁ k) (far : b.Balanced c₂ k)
    (hole : Hole (⟨s, c, x, link s .black y a b⟩ :: ctx) .black (k + 1)) :
    Ends (do
      if ← blackNephews (.node y) then
        return .inl (← pruneBlackSibling ⟨current, .node x, .node y, s⟩)
      else
        pruneRedNephew ⟨current, .node x, .node y, s⟩
        return .inr none) h
      (Round (PruneInv rest gone (plug ctx (link s c x t (link s .black y a b))).labels)
        (PruneDone rest gone (plug ctx (link s c x t (link s .black y a b))).labels)
        (pruneVariant (⟨s, c, x, link s .black y a b⟩ :: ctx))) := by
  rw [ends_bind]
  refine (blackNephews_spec shape.focus_far).mono fun nephews h' after => ?_
  obtain ⟨rfl, isBlack⟩ := after
  rw [near.color_eq, far.color_eq] at isBlack
  cases c₂ with
  | red =>
    obtain ⟨z, p, q, rfl, nearZ, farZ⟩ := far.exists_red s
    rw [if_neg (fun holds => by cases (isBlack.mp holds).2), ends_bind]
    refine (pruneRedNephew_far shape).mono fun _ h' shape' => ?_
    obtain ⟨m, whole⟩ := hole.relink (balanced.link_black near) (nearZ.link_black farZ)
    refine (ends_pure _).mpr ⟨rest, _, m, fun _ _ => rfl, shape', whole, labels_plug_congr ctx ?_⟩
    cases s <;> simp [link, labels]
  | black =>
    cases c₁ with
    | red =>
      obtain ⟨z, p, q, rfl, nearZ, farZ⟩ := near.exists_red s
      rw [if_neg (fun holds => by cases (isBlack.mp holds).1), ends_bind]
      refine (pruneRedNephew_near shape far.color_eq).mono fun _ h' shape' => ?_
      obtain ⟨m, whole⟩ := hole.relink (balanced.link_black nearZ) (farZ.link_black far)
      refine (ends_pure _).mpr ⟨rest, _, m, fun _ _ => rfl, shape', whole, labels_plug_congr ctx ?_⟩
      cases s <;> simp [link, labels]
    | black =>
      rw [if_pos (isBlack.mpr ⟨rfl, rfl⟩), ends_bind]
      refine (pruneBlackSibling_spec shape).mono fun v h' after => (ends_pure _).mpr ?_
      obtain ⟨rfl, shape'⟩ := after
      have order : (plug ctx (link s c x t (link s .red y a b))).labels =
          (plug ctx (link s c x t (link s .black y a b))).labels :=
        labels_plug_congr ctx (by cases s <;> simp [link, labels])
      have painted := balanced.link_black (s := s) (x := x) (near.link_red (s := s) (x := y) far)
      cases hole with
      | red outer _ =>
        exact ⟨0, by simp [pruneVariant], ctx, _, rfl, rfl, rfl, shape', order,
          .inr ⟨⟨s, x, t, _, k + 1, rfl, rfl, painted, outer.of_red⟩, rfl⟩⟩
      | black outer _ =>
        have smaller := pruneVariant_le ctx
        have decreases : pruneVariant ctx < ctx.length + 1 + 1 := by omega
        refine ⟨pruneVariant ctx, decreases, ctx, _, rfl, rfl, rfl, shape', order, .inl
          ⟨⟨⟨k + 1, painted, outer⟩, .inr ⟨(ptr_link ..).symm, ?_⟩⟩, rfl⟩⟩
        cases s <;> exact fun empty => by cases empty

/-- A round with a node above the shortage. -/
theorem pruneRound_below {s : Side} {c : Color} {x : ι} {sibling : ColorTree ι}
    (shape : Shape h rest (plug ctx (link s c x t sibling)))
    (short : Short rest gone (⟨s, c, x, sibling⟩ :: ctx) t current) :
    Ends (pruneRound ⟨current, .node x, ptr sibling, s⟩) h
      (Round (PruneInv rest gone (plug ctx (link s c x t sibling)).labels)
        (PruneDone rest gone (plug ctx (link s c x t sibling)).labels)
        (pruneVariant (⟨s, c, x, sibling⟩ :: ctx))) := by
  obtain ⟨valid, black⟩ := short.current_black shape.focus_near
  obtain ⟨k, balanced, hole⟩ := short.balanced
  have color := shape.focus_far.color
  have wanted := hole
  simp only [pruneRound, ends_bind, ends_getColor, ends_getParent, ends_ite, black, shape.record, cell_parent, color,
    above_ne_null, ptr_ne_null, valid, if_false, not_true_eq_false, ne_eq, reduceCtorEq, not_false_eq_true, true_and]
  cases hole with
  | red outer beside =>
    obtain ⟨y, a, b, c₁, c₂, rfl, near, far⟩ := beside.exists_black s
    rw [color_link, if_neg (by decide), ptr_link]
    simpa only [ends_bind, ends_ite] using pruneRound_black shape balanced near far wanted
  | @black _ _ _ _ _ _ d outer beside =>
    cases d with
    | red =>
      obtain ⟨y, a, b, rfl, near, far⟩ := beside.exists_red s
      rw [color_link, if_pos (by decide), ptr_link]
      refine (pruneRedSibling_spec shape).mono fun v h' after => (ends_pure _).mpr ?_
      obtain ⟨rfl, shape'⟩ := after
      have order : (plug (⟨s, .red, x, a⟩ :: ⟨s, .black, y, b⟩ :: ctx) t).labels =
          (plug ctx (link s .black x t (link s .red y a b))).labels :=
        labels_plug_congr ctx (by cases s <;> simp [link, labels])
      have smaller : 1 < ctx.length + 1 + 1 := by omega
      refine ⟨1, smaller, _, t, rfl, rfl, rfl, shape', order, .inl ⟨⟨?_, ?_⟩, rfl⟩⟩
      · exact ⟨k, balanced, .red (.black outer far) near⟩
      · rw [order]
        exact short.current
    | black =>
      obtain ⟨y, a, b, c₁, c₂, rfl, near, far⟩ := beside.exists_black s
      rw [color_link, if_neg (by decide), ptr_link]
      simpa only [ends_bind, ends_ite] using pruneRound_black shape balanced near far wanted

theorem pruneRound_spec {order : List ι} (n : ℕ) (v : PruneVars ι) (h : Heap ι)
    (inv : PruneInv rest gone order n v h) :
    Ends (pruneRound v) h (Round (PruneInv rest gone order) (PruneDone rest gone order) n) := by
  obtain ⟨current, parent, sibling, leftSide⟩ := v
  obtain ⟨ctx, t, rfl, rfl, rfl, shape, rfl, state⟩ := inv
  rcases state with ⟨short, rfl⟩ | ⟨repairable, rfl⟩
  · cases ctx with
    | nil =>
      obtain ⟨valid, black⟩ := short.current_black shape
      simp only [pruneRound, ends_bind, ends_getColor, ends_getParent, ends_ite, ends_pure, black, above,
        shape.root, valid, if_false, if_true, not_true_eq_false, ne_eq, reduceCtorEq,
        not_false_eq_true, true_and]
      exact short.done shape
    | cons f ctx => exact pruneRound_below shape short
  · obtain ⟨valid, red⟩ := repairable.current_red shape
    simp only [pruneRound, ends_bind, ends_getColor, ends_ite, ends_pure, red, valid, if_true, ne_eq, reduceCtorEq,
      not_false_eq_true, true_and]
    exact repairable.done shape

end Loop

/-! ## The functions -/

omit [DecidableEq ι] in
theorem labels_without {l r u : ColorTree ι} (same : u.labels = l.labels ++ r.labels) :
    (plug ctx u).labels = leftOf ctx ++ (l.labels ++ r.labels) ++ rightOf ctx := by rw [labels_plug, same]

/-- `RBTreeNode_PruneLeaf` takes out a node that lacks a child. -/
theorem rbTreeNodePruneLeaf_spec {c : Color} {l r : ColorTree ι} {x : ι} {m fuel : ℕ}
    (shape : Shape h rest (plug ctx (node c l x r))) (balanced : (plug ctx (node c l x r)).Balanced .black m)
    (lacks : l = nil ∨ r = nil) (enough : (plug ctx (node c l x r)).labels.length + 1 < fuel) :
    Ends (rbTreeNodePruneLeaf fuel (.node x)) h fun _ =>
      Pruned rest x (leftOf ctx ++ (l.labels ++ r.labels) ++ rightOf ctx) := by
  obtain ⟨c', n, sub, hole⟩ := balanced.focus
  have linked : Shape h rest (plug ctx (link .left c x l r)) := shape
  have others : ∀ (p : Cell ι) z, z ≠ x → Function.update rest x p z = rest z :=
    fun p z other => Function.update_of_ne other _ _
  have record : h (.node x) = ⟨ptr l, ptr r, above ctx, nodeColor c⟩ := linked.record
  simp only [rbTreeNodePruneLeaf, ends_bind, ends_getParent, ends_sideOf, ends_getColor, ends_getChild, record,
    linked.side_eq, mk_child_left, mk_child_right, ends_ite, above_ne_null, ne_eq, reduceCtorEq, not_false_eq_true,
    true_and]
  cases sub with
  | red left right =>
    obtain rfl := left.height_eq_zero right lacks
    obtain rfl := left.eq_nil
    obtain rfl := right.eq_nil
    obtain ⟨k, whole⟩ := hole.of_red.plug .nil
    rw [if_pos nodeColor_red, ends_setChild]
    exact ⟨above_ne_null ctx, _, plug ctx nil, k, others _, shape.detach, whole, labels_without rfl⟩
  | black left right =>
    obtain rfl := left.height_eq_zero right lacks
    rw [if_neg (by decide)]
    rcases left.height_zero with rfl | ⟨y, rfl⟩
    · rcases right.height_zero with rfl | ⟨y, rfl⟩
      · -- A black node without children: its place is one black node short.
        have absent : x ∉ (plug ctx nil).labels := by
          have apart := (shape_plug.mp shape).apart x (by simp [labels])
          rwa [(labels_plug_perm ctx nil).mem_iff, labels_nil, List.nil_append]
        have detached := shape.detach
        rw [if_neg (by simp), if_neg (by simp), ends_setChild]
        refine ⟨above_ne_null ctx, ?_⟩
        rw [detached.sibling_above]
        have steps : pruneVariant ctx < fuel := by
          have := pruneVariant_le ctx
          have := length_le_labels ctx (node .black nil x nil)
          omega
        have short : Short (Function.update rest x (h (.node x))) x ctx nil (.node x) :=
          ⟨⟨0, .nil, hole⟩, .inl ⟨rfl, absent, by rw [Function.update_self, record, nodeColor_black]⟩⟩
        refine (Ends.loop pruneRound_spec ⟨ctx, nil, rfl, rfl, rfl, detached,
          labels_without (l := nil) (r := nil) rfl, .inl ⟨short, rfl⟩⟩
          steps).mono fun result h' done => ?_
        cases result with
        | none => exact (ends_pure _).mpr (Pruned.of_rest done (others _))
        | some current => exact Ends.mono done fun _ h'' pruned => pruned.of_rest (others _)
      · rw [if_neg (by simp), if_pos (by simp [ptr])]
        have turned : Shape h rest (plug ctx (link .right .black x (node .red nil y nil) nil)) := shape
        obtain ⟨k, whole⟩ := hole.plug (.black (x := y) .nil .nil)
        exact (replaceByChild_spec turned).mono fun _ h' shape' =>
          ⟨_, _, k, others _, shape', whole, labels_without rfl⟩
    · obtain rfl : r = nil := lacks.resolve_left nofun
      rw [if_pos (by simp [ptr])]
      obtain ⟨k, whole⟩ := hole.plug (.black (x := y) .nil .nil)
      exact (replaceByChild_spec linked).mono fun _ h' shape' =>
        ⟨_, _, k, others _, shape', whole, labels_without rfl⟩

end DaemonProxy.Proofs
