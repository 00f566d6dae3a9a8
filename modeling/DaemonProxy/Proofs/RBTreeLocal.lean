import DaemonProxy.Proofs.RBTreeShape

/-! # Local changes of a tree in the heap

Each sequence of writes that the tree functions share, as a rewrite of one subtree: a rotation, a
change of colour, hanging a new node into a hole, taking a node out, and putting one node in the
place of another. The path above the subtree and the records outside the tree stay as they are.
-/

namespace DaemonProxy.Proofs

open Lib Model ColorTree

variable {ι : Type} [DecidableEq ι] {h : Heap ι} {rest : ι → Cell ι} {ctx : List (Frame ι)}

variable {s : Side} {c : Color} {x : ι} {a b : ColorTree ι}

section

omit [DecidableEq ι]

/-- The record of a node that is linked in the tree. -/
theorem Shape.record
    (shape : Shape h rest (plug ctx (link s c x a b))) : h (.node x) = cell s (ptr a) (ptr b) (above ctx) c :=
  (holdsTree_link.mp (shape_plug.mp shape).tree).1

theorem Shape.color {t : ColorTree ι} (shape : Shape h rest (plug ctx t)) : (h (ptr t)).color = nodeColor t.color :=
  have opened := shape_plug.mp shape
  opened.tree.color opened.sentinel

theorem Shape.focus_near
    (shape : Shape h rest (plug ctx (link s c x a b))) : Shape h rest (plug (⟨s, c, x, b⟩ :: ctx) a) := shape

theorem Shape.unfocus_near
    (shape : Shape h rest (plug (⟨s, c, x, b⟩ :: ctx) a)) : Shape h rest (plug ctx (link s c x a b)) := shape

theorem Shape.focus_far
    (shape : Shape h rest (plug ctx (link s c x a b))) : Shape h rest (plug (⟨s.other, c, x, a⟩ :: ctx) b) := by
  rwa [plug_cons, link_other]

theorem Shape.unfocus_far
    (shape : Shape h rest (plug (⟨s.other, c, x, a⟩ :: ctx) b)) : Shape h rest (plug ctx (link s c x a b)) := by
  rwa [plug_cons, link_other] at shape

end

/-- Writing the colour of a node of the tree. -/
theorem setColor_spec
    (shape : Shape h rest (plug ctx (link s c x a b))) (d : Color) :
    Ends (setColor (.node x) (nodeColor d)) h fun _ h' => Shape h' rest (plug ctx (link s d x a b)) := by
  have same := labels_link_color s d c x a b
  obtain ⟨nodup, pathNodup, apart, sentinel, path, tree, others⟩ := shape_plug.mp shape
  obtain ⟨record, near, far⟩ := holdsTree_link.mp tree
  obtain ⟨⟨xa, xb⟩, -⟩ := nodup_link.mp nodup
  have xp : x ∉ pathLabels ctx := apart x (mem_labels_link.mpr (.inl rfl))
  refine ends_setColor.mpr ⟨nofun, shape_plug.mpr ⟨same ▸ nodup, pathNodup, same ▸ apart, sentinel.modify_node x,
    ?_, ?_, ?_⟩⟩
  · rw [ptr_link] at path ⊢
    exact path.modify_node xp
  · refine holdsTree_link.mpr ⟨?_, near.modify_node xa, far.modify_node xb⟩
    rw [modify_self, record, cell_setColor]
  · intro z outside beside
    have zx : z ≠ x := fun equal => outside (mem_labels_link.mpr (.inl equal))
    rw [modify_of_ne (fun equal => zx (Ref.node.inj equal))]
    exact others z (same ▸ outside) beside

variable {y : ι}

/-- The four rotations: `y`, the child of `x` away from `dir`, takes its place. -/
theorem rotate_spec {dir : Side} {d : Color} {e : ColorTree ι}
    (shape : Shape h rest (plug ctx (link dir c x a (link dir d y b e)))) :
    Ends (rotate (holeSide ctx) dir (.node x)) h fun _ h' =>
      Shape h' rest (plug ctx (link dir d y (link dir c x a b) e)) := by
  have same := labels_rotate dir c d x y a b e
  obtain ⟨nodup, pathNodup, apart, sentinel, path, tree, others⟩ := shape_plug.mp shape
  simp only [holdsTree_link, ptr_link] at tree path
  obtain ⟨recordX, treeA, recordY, treeB, treeE⟩ := tree
  have parts := nodup
  simp only [nodup_link, mem_labels_link, not_or] at parts
  obtain ⟨⟨xa, xy, xb, xe⟩, -, ⟨⟨yb, ye⟩, nodupB, -, be⟩, disjointA⟩ := parts
  have outside := apart
  simp only [mem_labels_link] at outside
  have xp := outside x (.inl rfl)
  have ap : ∀ z ∈ a.labels, z ∉ pathLabels ctx := fun z member => outside z (.inr (.inl member))
  have yp := outside y (.inr (.inr (.inl rfl)))
  have bp : ∀ z ∈ b.labels, z ∉ pathLabels ctx := fun z member => outside z (.inr (.inr (.inr (.inl member))))
  have ep : ∀ z ∈ e.labels, z ∉ pathLabels ctx := fun z member => outside z (.inr (.inr (.inr (.inr member))))
  have nodeXY : Ref.node x ≠ Ref.node y := fun equal => xy (Ref.node.inj equal)
  simp only [rotate, ends_bind, ends_getParent, ends_getChild, ends_setChild, ends_setParent, recordX,
    cell_parent, cell_child_other, modify_self, modify_of_ne (node_ne_above yp), recordY, cell_setParent, cell_child,
    ne_eq, reduceCtorEq, not_false_eq_true, above_ne_null, ptr_ne_null, true_and]
  refine shape_plug.mpr ⟨same ▸ nodup, pathNodup, same ▸ apart, ?_, ?_, ?_, ?_⟩
  · exact (((((sentinel.modify (above_ne_sentinel ctx)).modify_node y).modify_node x).setParent _ _).modify_node
      y).modify_node x
  · rw [ptr_link]
    exact (((((path.setChild pathNodup (.node y)).modify_node yp).modify_node xp).modify (ptr_ne_root b)
      (apart_ptr fun z member inB => bp z inB member)).modify_node yp).modify_node xp
  · simp only [holdsTree_link, ptr_link]
    refine ⟨?_, ⟨?_, ?_, ?_⟩, ?_⟩
    · simp only [modify_of_ne nodeXY.symm, modify_self, modify_of_ne (node_ne_ptr yb), modify_of_ne (node_ne_above yp),
        recordY, cell_setParent, cell_setChild]
    · simp only [modify_self, modify_of_ne nodeXY, modify_of_ne (node_ne_ptr xb), modify_of_ne (node_ne_above xp),
        recordX, cell_setParent, cell_setChild_other]
    · have ya : y ∉ a.labels := fun member => (disjointA y member).1 rfl
      exact (((((treeA.modify (apart_above ap)).modify_node ya).modify_node xa).modify
        (apart_ptr fun z member => (disjointA z member).2.1)).modify_node ya).modify_node xa
    · exact (((((treeB.modify (apart_above bp)).modify_node yb).modify_node xb).setParent
        nodupB (.node x)).modify_node yb).modify_node xb
    · exact (((((treeE.modify (apart_above ep)).modify_node ye).modify_node xe).modify
        (apart_ptr fun z member inB => be z inB member)).modify_node ye).modify_node xe
  · intro z absent beside
    rw [same] at absent
    have parts := absent
    simp only [mem_labels_link, not_or] at parts
    obtain ⟨zx, -, zy, zb, -⟩ := parts
    have nodeX : Ref.node z ≠ .node x := fun equal => zx (Ref.node.inj equal)
    have nodeY : Ref.node z ≠ .node y := fun equal => zy (Ref.node.inj equal)
    simp only [modify_of_ne nodeX, modify_of_ne nodeY, modify_of_ne (node_ne_ptr zb), modify_of_ne (node_ne_above beside)]
    exact others z absent beside

omit [DecidableEq ι] in
/-- The node above a subtree points to it from the side where it hangs, and only from there. -/
theorem Shape.child_above {d : Side}
    (shape : Shape h rest (plug ctx (link d c x a b))) (s : Side) :
    (h (above ctx)).child s = .node x ↔ s = holeSide ctx := by
  obtain ⟨-, -, apart, -, path, -, -⟩ := shape_plug.mp shape
  rw [ptr_link] at path
  cases ctx with
  | nil =>
    simp only [above, holeSide, show h .root = _ from path]
    cases s <;> simp
  | cons f ctx =>
    obtain ⟨record, -, -⟩ := path
    rw [above, holeSide, record]
    have absent : x ∉ f.sibling.labels := fun member =>
      apart x (mem_labels_link.mpr (.inl rfl)) (by simp [pathLabels, member])
    by_cases here : s = f.side
    · rw [here, cell_child]
      exact ⟨fun _ => rfl, fun _ => rfl⟩
    · have away : s = f.side.other := by cases s <;> cases side : f.side <;> simp_all [Side.other]
      rw [away, cell_child_other]
      exact ⟨fun same => absurd same.symm (node_ne_ptr absent), fun same => absurd same f.side.other_ne⟩

/-- The test by which the source finds the side where a node hangs. -/
theorem Shape.side_eq {d : Side}
    (shape : Shape h rest (plug ctx (link d c x a b))) :
    (if (h (above ctx)).child .left = .node x then Side.left else .right) = holeSide ctx := by
  have child := shape.child_above .left
  split
  · next here => exact child.mp here
  · next away =>
    cases side : holeSide ctx with
    | left => exact absurd (child.mpr side.symm) away
    | right => rfl

theorem rotateHere_spec {dir : Side} {d : Color} {e : ColorTree ι}
    (shape : Shape h rest (plug ctx (link dir c x a (link dir d y b e)))) :
    Ends (rotateHere dir (.node x)) h fun _ h' =>
      Shape h' rest (plug ctx (link dir d y (link dir c x a b) e)) := by
  have record := shape.record
  rw [ptr_link] at record
  have rotated := rotate_spec shape
  have child := shape.child_above .left
  simp only [rotateHere, ends_bind, ends_getParent, ends_getChild, record, cell_parent, ends_ite, ne_eq, reduceCtorEq,
    not_false_eq_true, above_ne_null, true_and]
  cases side : holeSide ctx with
  | left =>
    rw [if_pos (child.mpr side.symm), ← side]
    exact rotated
  | right =>
    have notLeft : ¬(h (above ctx)).child .left = .node x := by
      rw [child, side]
      decide
    rw [if_neg notLeft, ← side]
    exact rotated

/-! ## Nodes that come and go -/

/-- A record outside the tree may be changed at will. -/
theorem Shape.modify_other {t : ColorTree ι} (shape : Shape h rest t) (absent : x ∉ t.labels)
    (f : Cell ι → Cell ι) : Shape (h.modify (.node x) f) (Function.update rest x (f (rest x))) t := by
  obtain ⟨nodup, sentinel, root, tree, others⟩ := shape
  refine ⟨nodup, sentinel.modify_node x, ?_, tree.modify_node absent, ?_⟩
  · rw [modify_node_root, root]
  · intro z outside
    by_cases same : z = x
    · rw [same, modify_self, Function.update_self, others x absent]
    · rw [modify_of_ne (fun equal => same (Ref.node.inj equal)), Function.update_of_ne same, others z outside]

/-- A red node without children is hung into a hole. -/
theorem Shape.attach (shape : Shape h rest (plug ctx nil)) (absent : x ∉ pathLabels ctx) {p : Ref ι}
    (fresh : rest x = ⟨.sentinel, .sentinel, p, .red⟩) :
    Shape ((h.modify (above ctx) (·.setChild (holeSide ctx) (.node x))).modify (.node x) (·.setParent (above ctx)))
      rest (plug ctx (node .red nil x nil)) := by
  obtain ⟨-, pathNodup, -, sentinel, path, -, others⟩ := shape_plug.mp shape
  refine shape_plug.mpr ⟨List.nodup_singleton x, pathNodup, ?_, ?_, ?_, ?_, ?_⟩
  · intro z member
    rwa [List.mem_singleton.mp member]
  · exact (sentinel.modify (above_ne_sentinel ctx)).modify_node x
  · exact (path.setChild pathNodup (.node x)).modify_node absent
  · refine ⟨?_, trivial, trivial⟩
    rw [modify_self, modify_of_ne (node_ne_above absent), others x List.not_mem_nil absent, fresh]
    rfl
  · intro z outside beside
    have zx : z ≠ x := fun equal => outside (by simp [labels, equal])
    rw [modify_of_ne (fun equal => zx (Ref.node.inj equal)), modify_of_ne (node_ne_above beside)]
    exact others z List.not_mem_nil beside

/-- A node without children is taken out, and its record stays as it was. -/
theorem Shape.detach (shape : Shape h rest (plug ctx (node c nil x nil))) :
    Shape (h.modify (above ctx) (·.setChild (holeSide ctx) .sentinel)) (Function.update rest x (h (.node x)))
      (plug ctx nil) := by
  obtain ⟨-, pathNodup, apart, sentinel, path, -, others⟩ := shape_plug.mp shape
  refine shape_plug.mpr ⟨List.nodup_nil, pathNodup, nofun, sentinel.modify (above_ne_sentinel ctx),
    path.setChild pathNodup .sentinel, trivial, ?_⟩
  intro z _ beside
  rw [modify_of_ne (node_ne_above beside)]
  by_cases same : z = x
  · rw [same, Function.update_self]
  · rw [Function.update_of_ne same]
    exact others z (by simpa [labels] using same) beside

/-- A black node with one red child is taken out, and the child takes its place and its colour. -/
theorem replaceByChild_spec
    (shape : Shape h rest (plug ctx (link s .black x (node .red nil y nil) nil))) :
    Ends (replaceByChild (holeSide ctx) (above ctx) (.node y)) h fun _ h' =>
      Shape h' (Function.update rest x (h (.node x))) (plug ctx (node .black nil y nil)) := by
  obtain ⟨nodup, pathNodup, apart, sentinel, path, tree, others⟩ := shape_plug.mp shape
  obtain ⟨-, near, -⟩ := holdsTree_link.mp tree
  simp only [mem_labels_link, labels, List.nil_append, List.mem_singleton, List.not_mem_nil, or_false] at apart others
  have yp := apart y (.inr rfl)
  simp only [replaceByChild, ends_bind, ends_setColor, ends_setParent, ends_setChild, ne_eq, reduceCtorEq,
    not_false_eq_true, above_ne_null, true_and]
  refine shape_plug.mpr ⟨List.nodup_singleton y, pathNodup, ?_, ?_, ?_, ?_, ?_⟩
  · intro z member
    rwa [List.mem_singleton.mp member]
  · exact ((sentinel.modify_node y).modify_node y).modify (above_ne_sentinel ctx)
  · exact ((path.modify_node yp).modify_node yp).setChild pathNodup (.node y)
  · refine ⟨?_, trivial, trivial⟩
    rw [modify_of_ne (node_ne_above yp), modify_self, modify_self, near.1]
    rfl
  · intro z outside beside
    have zy : z ≠ y := by simpa [labels] using outside
    have nodeY : Ref.node z ≠ .node y := fun equal => zy (Ref.node.inj equal)
    rw [modify_of_ne (node_ne_above beside), modify_of_ne nodeY, modify_of_ne nodeY]
    by_cases same : z = x
    · rw [same, Function.update_self]
    · rw [Function.update_of_ne same]
      exact others z (not_or.mpr ⟨same, zy⟩) beside

/-- `y` takes the place of `x`, with its colour and its neighbours. -/
theorem exchange_spec {l r : ColorTree ι} (shape : Shape h rest (plug ctx (node c l x r)))
    (absent : y ∉ (plug ctx (node c l x r)).labels) :
    Ends (exchange (.node x) (.node y)) h fun _ h' =>
      Shape h' (Function.update rest x (h (.node x))) (plug ctx (node c l y r)) := by
  have side := Shape.side_eq (d := .left) shape
  rw [(labels_plug_perm ctx _).mem_iff] at absent
  obtain ⟨nodup, pathNodup, apart, sentinel, path, ⟨record, left, right⟩, others⟩ := shape_plug.mp shape
  obtain ⟨⟨xl, xr⟩, nodupL, nodupR, lr⟩ := (nodup_link (s := .left)).mp nodup
  have inside : ∀ z, z ∈ (node c l x r).labels ↔ z = x ∨ z ∈ l.labels ∨ z ∈ r.labels :=
    fun z => mem_labels_link (s := .left)
  simp only [inside] at apart others
  simp only [List.mem_append, inside, not_or] at absent
  obtain ⟨⟨yx, yl, yr⟩, yp⟩ := absent
  have xp := apart x (.inl rfl)
  have lp : ∀ z ∈ l.labels, z ∉ pathLabels ctx := fun z member => apart z (.inr (.inl member))
  have rp : ∀ z ∈ r.labels, z ∉ pathLabels ctx := fun z member => apart z (.inr (.inr member))
  have nodeXY : Ref.node x ≠ .node y := fun equal => yx (Ref.node.inj equal).symm
  have aboveY : above ctx ≠ .node y := (node_ne_above yp).symm
  simp only [exchange, ends_bind, ends_getChild, ends_getParent, ends_getColor, ends_setColor, ends_setParent,
    ends_setChild, ends_sideOf, record, modify_of_ne nodeXY, modify_of_ne (node_ne_ptr xl), modify_of_ne (node_ne_ptr xr),
    modify_of_ne aboveY, modify_of_ne (above_ne_ptr lp), modify_of_ne (above_ne_ptr rp), modify_of_ne (node_ne_above xp),
    side, mk_child_left, mk_child_right, ne_eq, reduceCtorEq, not_false_eq_true, ptr_ne_null, above_ne_null, true_and]
  refine shape_plug.mpr ⟨?_, pathNodup, ?_, ?_, ?_, ⟨?_, ?_, ?_⟩, ?_⟩
  · exact (nodup_link (s := .left)).mpr ⟨⟨yl, yr⟩, nodupL, nodupR, lr⟩
  · intro z member
    rcases mem_labels_link (s := .left).mp member with rfl | inner
    · exact yp
    · exact apart z (.inr inner)
  · exact (((((((sentinel.modify_node y).setParent _ _).modify_node y).setParent _ _).modify_node y).modify
      (above_ne_sentinel ctx)).modify_node y)
  · exact (((((((path.modify_node yp).modify (ptr_ne_root r) (apart_ptr fun z member inR => rp z inR member)).modify_node
      yp).modify (ptr_ne_root l) (apart_ptr fun z member inL => lp z inL member)).modify_node yp).setChild pathNodup
      (.node y)).modify_node yp)
  · simp only [modify_self, modify_of_ne (node_ne_above yp), modify_of_ne (node_ne_ptr yl), modify_of_ne (node_ne_ptr yr)]
    rfl
  · exact (((((((left.modify_node yl).modify (apart_ptr lr)).modify_node yl).setParent nodupL (.node y)).modify_node
      yl).modify (apart_above lp)).modify_node yl)
  · exact (((((((right.modify_node yr).setParent nodupR (.node y)).modify_node yr).modify
      (apart_ptr fun z member inL => lr z inL member)).modify_node yr).modify (apart_above rp)).modify_node yr)
  · intro z outside beside
    have parts : ¬(z = y ∨ z ∈ l.labels ∨ z ∈ r.labels) := fun inner => outside (mem_labels_link (s := .left).mpr inner)
    simp only [not_or] at parts
    obtain ⟨zy, zl, zr⟩ := parts
    have nodeY : Ref.node z ≠ .node y := fun equal => zy (Ref.node.inj equal)
    simp only [modify_of_ne nodeY, modify_of_ne (node_ne_ptr zl), modify_of_ne (node_ne_ptr zr),
      modify_of_ne (node_ne_above beside)]
    by_cases same : z = x
    · rw [same, Function.update_self, record]
    · rw [Function.update_of_ne same]
      exact others z (not_or.mpr ⟨same, not_or.mpr ⟨zl, zr⟩⟩) beside

end DaemonProxy.Proofs
