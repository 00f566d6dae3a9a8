import DaemonProxy.Proofs.RBTreeInsert
import DaemonProxy.Proofs.RBTreePrune
import Mathlib.Data.List.Sort

/-! # A tree as an index

What a user of the tree relies on: `RedBlack h order` says that the tree in the heap is a red-black
tree with the labels `order`, and that the nodes outside are unassigned. Adding, pruning and finding
are described in terms of that list and of a comparison that orders the keys of the nodes.
-/

namespace DaemonProxy.Proofs

open Lib Model ColorTree

variable {ι κ : Type}

/-- A comparison function whose results are those of a total preorder. -/
structure TotalPreorder (cmp : κ → κ → ℤ) : Prop where
  sign : ∀ a b, cmp a b < 0 ↔ 0 < cmp b a
  trans : ∀ a b c, cmp a b ≤ 0 → cmp b c ≤ 0 → cmp a c ≤ 0

namespace TotalPreorder

variable {cmp : κ → κ → ℤ} (preorder : TotalPreorder cmp)

include preorder

theorem not_lt {a b : κ} : ¬cmp a b < 0 ↔ cmp b a ≤ 0 := by
  rw [preorder.sign]
  omega

theorem lt_of_lt_of_le {a b c : κ} (first : cmp a b < 0) (second : cmp b c ≤ 0) : cmp a c < 0 := by
  by_contra reversed
  have back := preorder.trans b c a second (preorder.not_lt.mp reversed)
  exact preorder.not_lt.mpr back first

theorem lt_of_le_of_lt {a b c : κ} (first : cmp a b ≤ 0) (second : cmp b c < 0) : cmp a c < 0 := by
  by_contra reversed
  have back := preorder.trans c a b (preorder.not_lt.mp reversed) first
  exact preorder.not_lt.mpr back second

end TotalPreorder

/-- The keys of the labels do not descend. -/
def SortedBy (cmp : κ → κ → ℤ) (key : ι → κ) (order : List ι) : Prop :=
  order.Pairwise fun a b => cmp (key a) (key b) ≤ 0

/-- The heap holds a red-black tree with the given labels. -/
def RedBlack (h : Heap ι) (order : List ι) : Prop :=
  ∃ t k, Shape h (fun x => h (.node x)) t ∧ t.Balanced .black k ∧ t.labels = order ∧
    ∀ x, x ∉ order → (h (.node x)).color = .unassigned

theorem RedBlack.nodup {h : Heap ι} {order : List ι} (redBlack : RedBlack h order) : order.Nodup := by
  obtain ⟨t, k, shape, -, rfl, -⟩ := redBlack
  exact shape.nodup

/-- Exactly the nodes outside the tree are unassigned. -/
theorem RedBlack.unassigned_iff {h : Heap ι} {order : List ι} (redBlack : RedBlack h order) (x : ι) :
    (h (.node x)).color = .unassigned ↔ x ∉ order := by
  obtain ⟨t, k, shape, -, rfl, unassigned⟩ := redBlack
  refine ⟨fun color member => ?_, unassigned x⟩
  obtain ⟨ctx, c, l, r, rfl⟩ := exists_plug_of_mem member
  rw [Shape.record (s := .left) shape, cell_color] at color
  exact nodeColor_ne_unassigned c color

section Operations

variable [DecidableEq ι] {cmp : κ → κ → ℤ} {key : ι → κ} {order : List ι} {h : Heap ι}

/-- `RBTree_Init` makes an empty tree, given the sentinel of the source and unassigned nodes. -/
theorem rbTreeInit_redBlack (sentinel : SentinelOk h) (unassigned : ∀ x, (h (.node x)).color = .unassigned) :
    RedBlack (rbTreeInit h) [] := by
  have node : ∀ x, rbTreeInit h (.node x) = h (.node x) := fun x => modify_of_ne fun same => nomatch same
  refine ⟨nil, 0, ⟨List.nodup_nil, sentinel.modify (fun same => nomatch same), modify_self, trivial, fun _ _ => rfl⟩,
    .nil, rfl, fun x _ => ?_⟩
  rw [node, unassigned]

/-- The comparison of some data with the keys of the nodes. -/
def compareKey (cmp : κ → κ → ℤ) (key : ι → κ) (data : κ) (x : ι) : ℤ := cmp data (key x)

omit [DecidableEq ι] in
theorem SortedBy.ascending (preorder : TotalPreorder cmp) (sorted : SortedBy cmp key order) (data : κ) :
    Ascending (compareKey cmp key) data order :=
  sorted.imp fun {_ _} le before => preorder.lt_of_lt_of_le before le

/-- The list with `x` after all labels whose keys are not greater than that of `x`. -/
def insertByKey (cmp : κ → κ → ℤ) (key : ι → κ) (x : ι) (order : List ι) : List ι :=
  order.orderedInsert (fun a b => cmp (key a) (key b) < 0) x

omit [DecidableEq ι] in
theorem InsertedAt.eq_insertByKey {x : ι} {new : List ι}
    (inserted : InsertedAt (compareKey cmp key) (key x) x order new) : new = insertByKey cmp key x order := by
  obtain ⟨before, after, rfl, rfl, notBefore, isAfter⟩ := inserted
  induction before with
  | nil =>
    cases after with
    | nil => rfl
    | cons y after => exact (if_pos (isAfter y List.mem_cons_self)).symm
  | cons y before ih =>
    simp only [insertByKey, List.cons_append, List.orderedInsert_cons]
    have later : ¬cmp (key x) (key y) < 0 := notBefore y List.mem_cons_self
    rw [if_neg later]
    exact congrArg (y :: ·) (ih fun z member => notBefore z (List.mem_cons_of_mem _ member))

omit [DecidableEq ι] in
theorem InsertedAt.sorted (preorder : TotalPreorder cmp) {x : ι} {new : List ι}
    (inserted : InsertedAt (compareKey cmp key) (key x) x order new) (sorted : SortedBy cmp key order) :
    SortedBy cmp key new := by
  obtain ⟨before, after, rfl, rfl, notBefore, isAfter⟩ := inserted
  obtain ⟨front, back, across⟩ := List.pairwise_append.mp sorted
  refine List.pairwise_append.mpr ⟨front, List.pairwise_cons.mpr ⟨fun b member => (isAfter b member).le, back⟩, ?_⟩
  intro a inFront b member
  rcases List.mem_cons.mp member with rfl | inBack
  · exact preorder.not_lt.mp (notBefore a inFront)
  · exact across a inFront b inBack

/-- `RBTree_Add` puts an unassigned node in its place. -/
theorem RedBlack.add (preorder : TotalPreorder cmp) (redBlack : RedBlack h order) (sorted : SortedBy cmp key order)
    {x : ι} (absent : x ∉ order) {fuel : ℕ} (enough : order.length < fuel) :
    Ends (rbTreeAdd fuel (compareKey cmp key) (.node x) (key x)) h fun added h' => added = true ∧
      RedBlack h' (insertByKey cmp key x order) ∧ SortedBy cmp key (insertByKey cmp key x order) := by
  obtain ⟨t, k, shape, balanced, rfl, unassigned⟩ := redBlack
  refine (rbTreeAdd_spec shape balanced absent (unassigned x absent) (sorted.ascending preorder (key x))
    enough).mono fun added h' after => ?_
  obtain ⟨rfl, rest', t', k', same, shape', balanced', inserted⟩ := after
  rw [← inserted.eq_insertByKey]
  refine ⟨rfl, ⟨t', k', shape'.of_rest ?_, balanced', rfl, ?_⟩, inserted.sorted preorder sorted⟩
  · exact fun z outside => (shape'.others z outside).symm
  · intro z outside
    obtain ⟨before, after, old, new, -⟩ := inserted
    simp only [new, List.mem_append, List.mem_cons, not_or] at outside
    have notOld : z ∉ t.labels := by simp [old, outside.1, outside.2.2]
    rw [shape'.others z (by simp [new, outside]), same z outside.2.1]
    exact unassigned z notOld

/-- `RBTreeNode_Prune` takes a node of the tree out. -/
theorem RedBlack.prune (redBlack : RedBlack h order) {x : ι} (member : x ∈ order) {fuel : ℕ}
    (enough : order.length + 1 < fuel) :
    Ends (rbTreeNodePrune fuel (.node x)) h fun removed h' => removed = true ∧ RedBlack h' (order.erase x) := by
  obtain ⟨t, k, shape, balanced, rfl, unassigned⟩ := redBlack
  refine (rbTreeNodePrune_spec shape balanced member enough).mono fun removed h' after => ?_
  obtain ⟨rfl, cell, t', k', color, shape', balanced', labels⟩ := after
  refine ⟨rfl, t', k', shape'.of_rest fun z outside => (shape'.others z outside).symm, balanced', labels, ?_⟩
  intro z outside
  rw [shape'.others z (labels ▸ outside)]
  by_cases here : z = x
  · rw [here, Function.update_self, color]
  · rw [Function.update_of_ne here]
    exact unassigned z fun old => outside ((List.mem_erase_of_ne here).mpr old)

/-! ## Finding -/

/-- The labels with smaller keys, and those with greater ones. -/
structure Gap (cmp : κ → κ → ℤ) (key : ι → κ) (data : κ) (before after : List ι) : Prop where
  before : ∀ z ∈ before, 0 < cmp data (key z)
  after : ∀ z ∈ after, cmp data (key z) < 0

/-- A search that finds nothing ends at one of the nodes beside the place of the key. -/
inductive EndsBeside (before after : List ι) : RBTreeSearch ι → Prop
  | empty (first : before = []) (last : after = []) : EndsBeside before after ⟨.null, -1⟩
  | greater {y : ι} {rest : List ι} (next : after = y :: rest) {relation : ℤ} (less : relation < 0) :
      EndsBeside before after ⟨.node y, relation⟩
  | smaller {y : ι} {rest : List ι} (last : before = rest ++ [y]) {relation : ℤ} (more : 0 < relation) :
      EndsBeside before after ⟨.node y, relation⟩

/-- What `RBTree_Find` reports: a node with an equal key, or that there is none. -/
def FoundBy (cmp : κ → κ → ℤ) (key : ι → κ) (data : κ) (order : List ι) (found : RBTreeSearch ι) : Prop :=
  (found.relation = 0 ∧ ∃ x ∈ order, found.nearest = .node x ∧ cmp data (key x) = 0) ∨
    ∃ before after, order = before ++ after ∧ Gap cmp key data before after ∧ EndsBeside before after found

omit [DecidableEq ι] in
theorem Gap.none {data : κ} {before after : List ι} (gap : Gap cmp key data before after) :
    ∀ x ∈ before ++ after, cmp data (key x) ≠ 0 := by
  intro x member
  rcases List.mem_append.mp member with left | right
  · exact (gap.before x left).ne'
  · exact (gap.after x right).ne

omit [DecidableEq ι] in
theorem EndsBeside.relation_ne {before after : List ι} {found : RBTreeSearch ι} (beside : EndsBeside before after found) :
    found.relation ≠ 0 := by
  cases beside with
  | empty => exact (by decide : (-1 : ℤ) ≠ 0)
  | greater _ less => exact less.ne
  | smaller _ more => exact more.ne'

omit [DecidableEq ι] in
/-- Going to one side of a node whose key does not match. -/
theorem Gap.step (preorder : TotalPreorder cmp) {data : κ} {ctx : List (Frame ι)} {c : Color} {l r : ColorTree ι}
    {y : ι} (gap : Gap cmp key data (leftOf ctx) (rightOf ctx)) (sorted : SortedBy cmp key (node c l y r).labels) :
    (cmp data (key y) < 0 → Gap cmp key data (leftOf (⟨.left, c, y, r⟩ :: ctx)) (rightOf (⟨.left, c, y, r⟩ :: ctx))) ∧
      (0 < cmp data (key y) → Gap cmp key data (leftOf (⟨.right, c, y, l⟩ :: ctx)) (rightOf (⟨.right, c, y, l⟩ :: ctx))) := by
  obtain ⟨-, back, across⟩ := List.pairwise_append.mp sorted
  constructor
  · refine fun before => ⟨gap.before, fun z member => ?_⟩
    simp only [rightOf, List.cons_append, List.mem_cons, List.mem_append] at member
    rcases member with rfl | inside | outside
    · exact before
    · exact preorder.lt_of_lt_of_le before ((List.pairwise_cons.mp back).1 z inside)
    · exact gap.after z outside
  · refine fun after => ⟨fun z member => ?_, gap.after⟩
    have greater := (preorder.sign (key y) data).mpr after
    simp only [leftOf, List.mem_append, List.mem_singleton] at member
    rcases member with (outside | inside) | rfl
    · exact gap.before z outside
    · have smaller := preorder.lt_of_le_of_lt (across z inside y List.mem_cons_self) greater
      exact (preorder.sign _ _).mp smaller
    · exact after

/-- `RBTree_Find` finds a node with the given key if there is one, in as many rounds as the tree is deep, and changes
nothing. -/
theorem Shape.find {t : ColorTree ι} {rest : ι → Cell ι} (preorder : TotalPreorder cmp) (shape : Shape h rest t)
    (sorted : SortedBy cmp key t.labels) (data : κ) {fuel : ℕ} (enough : t.depth < fuel) :
    Ends (rbTreeFind fuel (compareKey cmp key) data) h fun found h' =>
      h' = h ∧ FoundBy cmp key data t.labels found := by
  simp only [rbTreeFind, ends_bind, ends_getChild, shape.root, mk_child_left, ends_ite, ends_pure, ne_eq, reduceCtorEq,
    not_false_eq_true, true_and]
  let Inv : ℕ → Ref ι → Heap ι → Prop := fun n p h' => h' = h ∧ ∃ ctx c l y r, t = plug ctx (node c l y r) ∧
    p = .node y ∧ Gap cmp key data (leftOf ctx) (rightOf ctx) ∧ n = (node c l y r).depth
  have side : ∀ s ctx c y a b i, t = plug ctx (link s c y a b) →
      (∀ outer, outer = ⟨s, c, y, b⟩ :: ctx → EndsBeside (leftOf outer) (rightOf outer) ⟨.node y, i⟩) →
      Gap cmp key data (leftOf (⟨s, c, y, b⟩ :: ctx)) (rightOf (⟨s, c, y, b⟩ :: ctx)) →
      Ends (findSide s (.node y) i) h (Round Inv (fun found h' => h' = h ∧ FoundBy cmp key data t.labels found)
        (link s c y a b).depth) := by
    rintro s ctx c y a b i rfl beside gap
    simp only [findSide, ends_bind, ends_getChild, shape.record, cell_child, ends_ite, ends_pure, ne_eq, reduceCtorEq,
      not_false_eq_true, true_and]
    cases a with
    | nil =>
      rw [if_pos ptr_nil]
      refine ⟨rfl, .inr ⟨_, _, ?_, gap, beside _ rfl⟩⟩
      rw [← plug_cons ⟨s, c, y, b⟩ ctx nil, labels_plug, labels_nil, List.append_nil]
    | node d l z r =>
      rw [if_neg (by simp [ptr])]
      refine ⟨(node d l z r).depth, ?_, rfl, _, d, l, z, r, rfl, rfl, gap, rfl⟩
      rw [depth_link]
      omega
  have round : ∀ n p h', Inv n p h' → Ends (findRound (compareKey cmp key) data p) h'
      (Round Inv (fun found h' => h' = h ∧ FoundBy cmp key data t.labels found) n) := by
    rintro n p h' ⟨rfl, ctx, c, l, y, r, here, rfl, gap, rfl⟩
    have inner : SortedBy cmp key (node c l y r).labels := by
      rw [here, labels_plug] at sorted
      exact (List.pairwise_append.mp (List.pairwise_append.mp sorted).1).2.1
    obtain ⟨goLeft, goRight⟩ := gap.step preorder inner
    simp only [findRound, compareWith, compareKey, ends_bind, ends_pure, ends_ite]
    split
    · next before => exact side .left ctx c y l r _ here (by rintro _ rfl; exact .greater rfl before) (goLeft before)
    · next notBefore =>
      split
      · next after => exact side .right ctx c y r l _ here (by rintro _ rfl; exact .smaller rfl after) (goRight after)
      · next notAfter =>
        refine ⟨rfl, .inl ⟨rfl, y, ?_, rfl, by omega⟩⟩
        rw [here, labels_plug_node]
        simp
  cases t with
  | nil =>
    rw [if_pos ptr_nil]
    exact .inr ⟨[], [], rfl, ⟨by rintro _ ⟨⟩, by rintro _ ⟨⟩⟩, .empty rfl rfl⟩
  | node c l y r =>
    rw [if_neg (by simp [ptr])]
    exact Ends.loop round ⟨rfl, [], c, l, y, r, rfl, rfl, ⟨by rintro _ ⟨⟩, by rintro _ ⟨⟩⟩, rfl⟩ enough

theorem RedBlack.find (preorder : TotalPreorder cmp) (redBlack : RedBlack h order) (sorted : SortedBy cmp key order)
    (data : κ) {fuel : ℕ} (enough : order.length < fuel) :
    Ends (rbTreeFind fuel (compareKey cmp key) data) h fun found h' =>
      h' = h ∧ FoundBy cmp key data order found := by
  obtain ⟨t, k, shape, -, rfl, -⟩ := redBlack
  exact shape.find preorder sorted data (t.depth_le_length.trans_lt enough)

end Operations

end DaemonProxy.Proofs
