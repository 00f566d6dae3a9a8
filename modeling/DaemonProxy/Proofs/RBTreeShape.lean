import DaemonProxy.Model.RBTree

/-! # Heaps that hold a tree

`Shape h rest t` says that the heap `h` holds the tree `t` below its root sentinel, with every
parent pointer set, and that the records outside `t` are those of `rest`. It is opened at any
subtree: `HoldsPath` describes the records on the path to a hole and `HoldsTree` those of a subtree,
each of them unchanged by a write elsewhere.
-/

namespace DaemonProxy.Proofs

open Lib Model ColorTree

variable {ι : Type}

/-- The value of `Color` for a node of the tree. -/
def nodeColor : Color → NodeColor
  | .red => .red
  | .black => .black

@[simp] theorem nodeColor_red : nodeColor .red = .red := rfl

@[simp] theorem nodeColor_black : nodeColor .black = .black := rfl

theorem nodeColor_eq_black {c : Color} : nodeColor c = .black ↔ c = .black := by cases c <;> simp [nodeColor]

theorem nodeColor_ne_unassigned (c : Color) : nodeColor c ≠ .unassigned := by cases c <;> decide

/-- The pointer to a subtree. -/
def ptr : ColorTree ι → Ref ι
  | nil => .sentinel
  | node _ _ x _ => .node x

@[simp] theorem ptr_nil : ptr (nil : ColorTree ι) = .sentinel := rfl

@[simp] theorem ptr_link (s : Side) (c : Color) (x : ι) (a b : ColorTree ι) : ptr (link s c x a b) = .node x := by
  cases s <;> rfl

@[simp] theorem ptr_ne_null (t : ColorTree ι) : ptr t ≠ .null := by cases t <;> simp [ptr]

variable {t : ColorTree ι}

theorem ptr_eq_sentinel : ptr t = .sentinel ↔ t = nil := by cases t <;> simp [ptr]

/-- The node above a hole. -/
def above : List (Frame ι) → Ref ι
  | [] => .root
  | f :: _ => .node f.label

/-- The side of the node above on which the hole is. -/
def holeSide : List (Frame ι) → Side
  | [] => .left
  | f :: _ => f.side

@[simp] theorem above_ne_null (ctx : List (Frame ι)) : above ctx ≠ .null := by cases ctx <;> simp [above]

/-- The record with `near` on side `s`. -/
def cell (s : Side) (near far parent : Ref ι) (c : Color) : Cell ι :=
  match s with
  | .left => ⟨near, far, parent, nodeColor c⟩
  | .right => ⟨far, near, parent, nodeColor c⟩

section Cell

variable (s : Side) (near far parent p : Ref ι) (c d : Color)

@[simp] theorem cell_child : (cell s near far parent c).child s = near := by cases s <;> rfl

@[simp] theorem cell_child_other : (cell s near far parent c).child s.other = far := by cases s <;> rfl

@[simp] theorem cell_parent : (cell s near far parent c).parent = parent := by cases s <;> rfl

@[simp] theorem cell_color : (cell s near far parent c).color = nodeColor c := by cases s <;> rfl

@[simp] theorem cell_setChild : (cell s near far parent c).setChild s p = cell s p far parent c := by cases s <;> rfl

@[simp] theorem cell_setChild_other : (cell s near far parent c).setChild s.other p = cell s near p parent c := by
  cases s <;> rfl

@[simp] theorem cell_setParent : (cell s near far parent c).setParent p = cell s near far p c := by cases s <;> rfl

@[simp] theorem cell_setColor :
    (cell s near far parent c).setColor (nodeColor d) = cell s near far parent d := by cases s <;> rfl

@[simp] theorem mk_child_left {k : NodeColor} : (⟨near, far, parent, k⟩ : Cell ι).child .left = near := rfl

@[simp] theorem mk_child_right {k : NodeColor} : (⟨near, far, parent, k⟩ : Cell ι).child .right = far := rfl

end Cell

/-- The records of a subtree whose parent is `p`. -/
def HoldsTree (h : Heap ι) (p : Ref ι) : ColorTree ι → Prop
  | nil => True
  | node c l x r =>
      h (.node x) = ⟨ptr l, ptr r, p, nodeColor c⟩ ∧ HoldsTree h (.node x) l ∧ HoldsTree h (.node x) r

/-- The records of a path and of the subtrees beside it, when `q` hangs in the hole. -/
def HoldsPath (h : Heap ι) : List (Frame ι) → Ref ι → Prop
  | [], q => h .root = ⟨q, .sentinel, .null, .black⟩
  | f :: ctx, q =>
      h (.node f.label) = cell f.side q (ptr f.sibling) (above ctx) f.color ∧
        HoldsTree h (.node f.label) f.sibling ∧ HoldsPath h ctx (.node f.label)

variable {h : Heap ι} {s : Side} {x : ι}

@[simp] theorem holdsTree_link {p : Ref ι} {c : Color} {a b : ColorTree ι} :
    HoldsTree h p (link s c x a b) ↔
      h (.node x) = cell s (ptr a) (ptr b) p c ∧ HoldsTree h (.node x) a ∧ HoldsTree h (.node x) b := by
  cases s with
  | left => rfl
  | right => exact and_congr_right fun _ => and_comm

/-- The sentinel is black and its own child; its parent is whatever a rotation left there. -/
structure SentinelOk (h : Heap ι) : Prop where
  left : (h .sentinel).left = .sentinel
  right : (h .sentinel).right = .sentinel
  color : (h .sentinel).color = .black

/-- The heap holds the tree `t`, and outside of it the records `rest`. -/
structure Shape (h : Heap ι) (rest : ι → Cell ι) (t : ColorTree ι) : Prop where
  nodup : t.labels.Nodup
  sentinel : SentinelOk h
  root : h .root = ⟨ptr t, .sentinel, .null, .black⟩
  tree : HoldsTree h .root t
  others : ∀ x, x ∉ t.labels → h (.node x) = rest x

theorem HoldsTree.color {p : Ref ι} (holds : HoldsTree h p t)
    (sentinel : SentinelOk h) : (h (ptr t)).color = nodeColor t.color := by
  cases t with
  | nil => exact sentinel.color
  | node c l x r => rw [ptr, holds.1, ColorTree.color]

theorem holdsTree_plug {ctx : List (Frame ι)} :
    (h .root = ⟨ptr (plug ctx t), .sentinel, .null, .black⟩ ∧ HoldsTree h .root (plug ctx t)) ↔
      HoldsPath h ctx (ptr t) ∧ HoldsTree h (above ctx) t := by
  induction ctx generalizing t with
  | nil => rfl
  | cons f ctx ih =>
    rw [plug_cons, ih, holdsTree_link, ptr_link, HoldsPath, above]
    constructor
    · rintro ⟨path, record, tree, sibling⟩
      exact ⟨⟨record, sibling, path⟩, tree⟩
    · rintro ⟨⟨record, sibling, path⟩, tree⟩
      exact ⟨path, record, tree, sibling⟩

/-- A shape opened at one of its subtrees. -/
structure Opened (h : Heap ι) (rest : ι → Cell ι) (ctx : List (Frame ι)) (t : ColorTree ι) : Prop where
  nodup : t.labels.Nodup
  pathNodup : (pathLabels ctx).Nodup
  apart : ∀ x ∈ t.labels, x ∉ pathLabels ctx
  sentinel : SentinelOk h
  path : HoldsPath h ctx (ptr t)
  tree : HoldsTree h (above ctx) t
  others : ∀ x, x ∉ t.labels → x ∉ pathLabels ctx → h (.node x) = rest x

theorem shape_plug {rest : ι → Cell ι} {ctx : List (Frame ι)} :
    Shape h rest (plug ctx t) ↔ Opened h rest ctx t := by
  have perm := labels_plug_perm ctx t
  constructor
  · rintro ⟨nodup, sentinel, root, tree, others⟩
    obtain ⟨path, subtree⟩ := holdsTree_plug.mp ⟨root, tree⟩
    obtain ⟨inner, outer, apart⟩ := List.nodup_append'.mp (perm.nodup_iff.mp nodup)
    refine ⟨inner, outer, fun _ => @apart _, sentinel, path, subtree, fun x outside beside => others x ?_⟩
    rw [perm.mem_iff, List.mem_append]
    exact fun member => member.elim outside beside
  · rintro ⟨inner, outer, apart, sentinel, path, subtree, others⟩
    obtain ⟨root, tree⟩ := holdsTree_plug.mpr ⟨path, subtree⟩
    refine ⟨perm.nodup_iff.mpr (inner.append outer fun _ => apart _), sentinel, root, tree, fun x absent => ?_⟩
    rw [perm.mem_iff, List.mem_append, not_or] at absent
    exact others x absent.1 absent.2

/-! ## Writes -/

section Writes

variable [DecidableEq ι] {h : Heap ι} {p q r : Ref ι} {f : Cell ι → Cell ι} {t : ColorTree ι} {ctx : List (Frame ι)}

@[simp] theorem modify_self : h.modify p f p = f (h p) := if_pos rfl

theorem modify_of_ne (other : q ≠ p) : h.modify p f q = h q := if_neg other

@[simp] theorem modify_node_root : h.modify (.node x) f .root = h .root := modify_of_ne fun same => nomatch same

/-- The pointer is to none of the given nodes. -/
def Apart (p : Ref ι) (xs : List ι) : Prop := ∀ x ∈ xs, Ref.node x ≠ p

variable {xs : List ι}

section

omit [DecidableEq ι]

@[simp] theorem apart_node : Apart (.node x) xs ↔ x ∉ xs := by
  simp only [Apart, ne_eq, Ref.node.injEq]
  exact ⟨fun apart member => apart x member rfl, fun absent y member same => absent (same ▸ member)⟩

theorem node_ne_ptr (absent : x ∉ t.labels) : Ref.node x ≠ ptr t := by
  cases t with
  | nil => exact fun same => nomatch same
  | node c l y r =>
    intro same
    rw [Ref.node.inj same] at absent
    exact absent (by simp [labels])

theorem node_ne_above (absent : x ∉ pathLabels ctx) : Ref.node x ≠ above ctx := by
  cases ctx with
  | nil => exact fun same => nomatch same
  | cons f ctx =>
    intro same
    rw [Ref.node.inj same] at absent
    exact absent List.mem_cons_self

theorem above_ne_ptr (disjoint : ∀ x ∈ t.labels, x ∉ pathLabels ctx) : above ctx ≠ ptr t := by
  cases t with
  | nil => cases ctx <;> exact fun same => nomatch same
  | node c l x r => exact (node_ne_above (disjoint x (by simp [labels]))).symm

@[simp] theorem above_ne_sentinel (ctx : List (Frame ι)) : above ctx ≠ .sentinel := by cases ctx <;> simp [above]

@[simp] theorem ptr_ne_root (t : ColorTree ι) : ptr t ≠ .root := by cases t <;> simp [ptr]

theorem apart_ptr (disjoint : ∀ x ∈ xs, x ∉ t.labels) : Apart (ptr t) xs :=
  fun x member => node_ne_ptr (disjoint x member)

theorem apart_above (disjoint : ∀ x ∈ xs, x ∉ pathLabels ctx) : Apart (above ctx) xs :=
  fun x member => node_ne_above (disjoint x member)

end

theorem HoldsTree.modify (holds : HoldsTree h p t) (apart : Apart q t.labels) : HoldsTree (h.modify q f) p t := by
  induction t generalizing p with
  | nil => trivial
  | node c l x r leftIh rightIh =>
    obtain ⟨record, left, right⟩ := holds
    refine ⟨?_, leftIh left ?_, rightIh right ?_⟩
    · rw [modify_of_ne (apart x (by simp [labels])), record]
    · exact fun y member => apart y (by simp [labels, member])
    · exact fun y member => apart y (by simp [labels, member])

theorem HoldsTree.modify_node (holds : HoldsTree h p t) (absent : x ∉ t.labels) :
    HoldsTree (h.modify (.node x) f) p t := holds.modify (apart_node.mpr absent)

/-- Writing the parent pointer of a subtree hangs it elsewhere. -/
theorem HoldsTree.setParent (holds : HoldsTree h p t) (nodup : t.labels.Nodup) (q : Ref ι) :
    HoldsTree (h.modify (ptr t) (·.setParent q)) q t := by
  cases t with
  | nil => trivial
  | node c l x r =>
    obtain ⟨record, left, right⟩ := holds
    simp only [labels, List.nodup_append, List.nodup_cons] at nodup
    refine ⟨by rw [ptr, modify_self, record]; rfl, left.modify ?_, right.modify ?_⟩
    · exact apart_node.mpr fun member => nodup.2.2 x member x List.mem_cons_self rfl
    · exact apart_node.mpr nodup.2.1.1

theorem HoldsPath.modify (holds : HoldsPath h ctx r) (notRoot : q ≠ .root) (apart : Apart q (pathLabels ctx)) :
    HoldsPath (h.modify q f) ctx r := by
  induction ctx generalizing r with
  | nil => exact (modify_of_ne (Ne.symm notRoot)).trans holds
  | cons frame ctx ih =>
    obtain ⟨record, sibling, path⟩ := holds
    refine ⟨?_, sibling.modify ?_, ih path ?_⟩
    · rw [modify_of_ne (apart _ List.mem_cons_self), record]
    · exact fun y member => apart y (by simp [pathLabels, member])
    · exact fun y member => apart y (by simp [pathLabels, member])

theorem HoldsPath.modify_node (holds : HoldsPath h ctx r) (absent : x ∉ pathLabels ctx) :
    HoldsPath (h.modify (.node x) f) ctx r := holds.modify (fun same => nomatch same) (apart_node.mpr absent)

/-- Writing the child pointer above a hole fills it with something else. -/
theorem HoldsPath.setChild (holds : HoldsPath h ctx r) (nodup : (pathLabels ctx).Nodup) (q : Ref ι) :
    HoldsPath (h.modify (above ctx) (·.setChild (holeSide ctx) q)) ctx q := by
  cases ctx with
  | nil =>
    simp only [HoldsPath, above, holeSide, modify_self]
    rw [show h .root = _ from holds]
    rfl
  | cons frame ctx =>
    obtain ⟨record, sibling, path⟩ := holds
    simp only [pathLabels, List.nodup_cons, List.mem_append, not_or] at nodup
    refine ⟨?_, sibling.modify (apart_node.mpr nodup.1.1), path.modify (fun same => by cases same) ?_⟩
    · rw [above, holeSide, modify_self, record, cell_setChild]
    · exact apart_node.mpr nodup.1.2

theorem SentinelOk.modify (ok : SentinelOk h) (other : q ≠ .sentinel) : SentinelOk (h.modify q f) := by
  constructor <;> rw [modify_of_ne (Ne.symm other)]
  · exact ok.left
  · exact ok.right
  · exact ok.color

theorem SentinelOk.modify_node (ok : SentinelOk h) (x : ι) : SentinelOk (h.modify (.node x) f) :=
  ok.modify fun same => nomatch same

/-- The sentinel's parent may be overwritten. -/
theorem SentinelOk.setParent (ok : SentinelOk h) (p q : Ref ι) : SentinelOk (h.modify p (·.setParent q)) := by
  by_cases same : p = .sentinel
  · subst same
    constructor <;> rw [modify_self]
    · exact ok.left
    · exact ok.right
    · exact ok.color
  · exact ok.modify same

end Writes

/-! ## What the pointer operations do -/

section Operations

variable [DecidableEq ι] {h : Heap ι} {p q : Ref ι}

theorem ends_load {post : Cell ι → Heap ι → Prop} : Ends (load p) h post ↔ p ≠ .null ∧ post (h p) h := by
  by_cases null : p = .null
  · simp [Ends, load, null, StateT.run]
  · simp [Ends, load, null, StateT.run]

@[simp] theorem ends_getChild {post : Ref ι → Heap ι → Prop} :
    Ends (getChild s p) h post ↔ p ≠ .null ∧ post ((h p).child s) h := by
  rw [getChild, ends_bind, ends_load, ends_pure]

@[simp] theorem ends_getParent {post : Ref ι → Heap ι → Prop} :
    Ends (getParent p) h post ↔ p ≠ .null ∧ post (h p).parent h := by
  rw [getParent, ends_bind, ends_load, ends_pure]

@[simp] theorem ends_getColor {post : NodeColor → Heap ι → Prop} :
    Ends (getColor p) h post ↔ p ≠ .null ∧ post (h p).color h := by
  rw [getColor, ends_bind, ends_load, ends_pure]

variable {post : Unit → Heap ι → Prop}

theorem ends_store {f : Cell ι → Cell ι} :
    Ends (store p f) h post ↔ p ≠ .null ∧ post () (h.modify p f) := by
  by_cases null : p = .null
  · simp [Ends, store, null, StateT.run]
  · simp only [Ends, store, null, StateT.run, if_false, Option.some.injEq, Prod.mk.injEq, ne_eq, not_false_eq_true,
      true_and]
    constructor
    · rintro ⟨_, _, rfl, holds⟩
      exact holds
    · intro holds
      exact ⟨(), _, rfl, holds⟩

@[simp] theorem ends_setChild :
    Ends (setChild s p q) h post ↔ p ≠ .null ∧ post () (h.modify p (·.setChild s q)) := ends_store

@[simp] theorem ends_setParent :
    Ends (setParent p q) h post ↔ p ≠ .null ∧ post () (h.modify p (·.setParent q)) := ends_store

@[simp] theorem ends_setColor {c : NodeColor} :
    Ends (setColor p c) h post ↔ p ≠ .null ∧ post () (h.modify p (·.setColor c)) := ends_store

@[simp] theorem ends_sideOf {post : Side → Heap ι → Prop} :
    Ends (sideOf p q) h post ↔ p ≠ .null ∧ post (if (h p).child .left = q then .left else .right) h := by
  simp only [sideOf, ends_bind, ends_getChild, ends_pure]

end Operations

end DaemonProxy.Proofs
