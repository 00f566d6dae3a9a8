import DaemonProxy.Lib.Run
import DaemonProxy.Proofs.RBTreeClear

/-! # The red-black tree over whole histories

From `RBTree_Init`, any sequence of additions of unassigned nodes and prunings of assigned ones runs
without following a null pointer, ends, and leaves a red-black tree whose in-order sequence is that of
a sorted list. The invariant is stated on the records themselves.
-/

namespace DaemonProxy.Soundness

open Lib Model Proofs ColorTree

variable {ι κ : Type}

/-- The labels met on an in-order walk from a pointer. -/
inductive InOrder (h : Heap ι) : Ref ι → List ι → Prop
  | sentinel : InOrder h .sentinel []
  | node {x : ι} {before after : List ι} : InOrder h (h (.node x)).left before → InOrder h (h (.node x)).right after →
      InOrder h (.node x) (before ++ x :: after)

/-- The number of black nodes on some way down from a pointer to the sentinel. -/
inductive BlackPath (h : Heap ι) : Ref ι → ℕ → Prop
  | sentinel : BlackPath h .sentinel 0
  | node {x : ι} (s : Side) {n : ℕ} : BlackPath h ((h (.node x)).child s) n →
      BlackPath h (.node x) (if (h (.node x)).color = .black then n + 1 else n)

/-- The invariant of the representation, for a tree with the in-order sequence `order`. -/
structure RepInvariant (h : Heap ι) (order : List ι) : Prop where
  inOrder : InOrder h (h .root).left order
  /-- A node is the parent of its children. -/
  childParent : ∀ x ∈ order, ∀ s y, (h (.node x)).child s = .node y → (h (.node y)).parent = .node x
  rootParent : ∀ y, (h .root).left = .node y → (h (.node y)).parent = .root
  /-- A node is a child of its parent, which is the root sentinel or a node of the tree. -/
  parentChild : ∀ x ∈ order, (∃ s, (h (h (.node x)).parent).child s = .node x) ∧
    ((h (.node x)).parent = .root ∨ ∃ y ∈ order, (h (.node x)).parent = .node y)
  rootBlack : (h (h .root).left).color = .black
  redChildren : ∀ x ∈ order, (h (.node x)).color = .red → ∀ s, (h ((h (.node x)).child s)).color = .black
  blackPaths : ∃ n, ∀ m, BlackPath h (h .root).left m → m = n
  sentinelBlack : (h .sentinel).color = .black
  unassigned : ∀ x, (h (.node x)).color = .unassigned ↔ x ∉ order

variable {h : Heap ι}

theorem inOrder_of_holdsTree {p : Ref ι} {t : ColorTree ι} (holds : HoldsTree h p t) :
    InOrder h (ptr t) t.labels := by
  induction t generalizing p with
  | nil => exact .sentinel
  | node c l x r leftIh rightIh =>
    obtain ⟨record, left, right⟩ := holds
    refine .node ?_ ?_
    · rw [record]
      exact leftIh left
    · rw [record]
      exact rightIh right

theorem blackPath_of_balanced {p : Ref ι} {t : ColorTree ι} {c : Color} {n m : ℕ}
    (balanced : t.Balanced c n) (holds : HoldsTree h p t) (path : BlackPath h (ptr t) m) : m = n := by
  induction balanced generalizing p m with
  | nil =>
    cases path
    rfl
  | red left right leftIh rightIh =>
    obtain ⟨record, holdsL, holdsR⟩ := holds
    cases path with
    | node s path =>
      rw [record] at path ⊢
      cases s with
      | left => exact leftIh holdsL path
      | right => exact rightIh holdsR path
  | black left right leftIh rightIh =>
    obtain ⟨record, holdsL, holdsR⟩ := holds
    cases path with
    | node s path =>
      rw [record] at path ⊢
      cases s with
      | left => exact congrArg (· + 1) (leftIh holdsL path)
      | right => exact congrArg (· + 1) (rightIh holdsR path)

theorem repInvariant_of_redBlack {order : List ι} (redBlack : RedBlack h order) :
    RepInvariant h order := by
  have unassigned := redBlack.unassigned_iff
  obtain ⟨t, k, shape, balanced, rfl, -⟩ := redBlack
  have rootLeft : (h .root).left = ptr t := by rw [shape.root]
  have blackRoot : (h (ptr t)).color = .black := by
    rw [shape.tree.color shape.sentinel, balanced.color_eq, nodeColor_black]
  refine ⟨?_, ?_, ?_, ?_, ?_, ?_, ?_, shape.sentinel.color, unassigned⟩
  · rw [rootLeft]
    exact inOrder_of_holdsTree shape.tree
  · intro x member s y child
    obtain ⟨ctx, c, l, r, rfl⟩ := exists_plug_of_mem member
    obtain ⟨a, b, same⟩ := exists_link s c l x r
    rw [same] at shape
    rw [shape.record, cell_child] at child
    cases a with
    | nil => exact nomatch child
    | node d l' z r' =>
      obtain rfl := Ref.node.inj child
      have record := Shape.record (s := .left) shape.focus_near
      rw [record, cell_parent]
      rfl
  · intro y child
    rw [rootLeft] at child
    cases t with
    | nil => exact nomatch child
    | node d l z r =>
      obtain rfl := Ref.node.inj child
      rw [shape.tree.1]
  · intro x member
    obtain ⟨ctx, c, l, r, rfl⟩ := exists_plug_of_mem member
    have linked : Shape h (fun x => h (.node x)) (plug ctx (link .left c x l r)) := shape
    rw [linked.record, cell_parent]
    refine ⟨⟨holeSide ctx, (linked.child_above _).mpr rfl⟩, ?_⟩
    cases ctx with
    | nil => exact .inl rfl
    | cons f ctx =>
      refine .inr ⟨f.label, ?_, rfl⟩
      rw [(labels_plug_perm ..).mem_iff]
      exact List.mem_append_right _ List.mem_cons_self
  · rw [rootLeft, blackRoot]
  · intro x member red s
    obtain ⟨ctx, c, l, r, rfl⟩ := exists_plug_of_mem member
    obtain ⟨a, b, same⟩ := exists_link s c l x r
    rw [same] at shape balanced
    obtain ⟨d, n, sub, -⟩ := balanced.focus
    rw [shape.record, cell_color] at red
    obtain rfl : c = .red := by
      cases c
      · rfl
      · exact nomatch red
    rw [shape.record, cell_child, shape.focus_near.color, sub.of_link_red.2.1.color_eq, nodeColor_black]
  · refine ⟨k, fun m path => ?_⟩
    rw [rootLeft] at path
    exact blackPath_of_balanced balanced shape.tree path

/-! ## Histories -/

inductive TreeOp (ι κ : Type) where
  | add (x : ι) (key : κ)
  | prune (x : ι)

/-- The heap, and the keys of the objects that contain the nodes. -/
structure TreeState (ι κ : Type) where
  heap : Heap ι
  key : ι → κ

section Histories

variable [DecidableEq ι]

/-- One call: an object gets its key before its node is added. A null pointer or too little fuel
gives nothing. -/
def treeStep (fuel : ℕ) (cmp : κ → κ → ℤ) (s : TreeState ι κ) : TreeOp ι κ → Option (TreeState ι κ)
  | .add x k =>
      let key := Function.update s.key x k
      ((rbTreeAdd fuel (compareKey cmp key) (.node x) k).run s.heap).map fun result => ⟨result.2, key⟩
  | .prune x => ((rbTreeNodePrune fuel (.node x)).run s.heap).map fun result => ⟨result.2, s.key⟩

/-- The calls of a history, one after the other. -/
def treeRun (fuel : ℕ) (cmp : κ → κ → ℤ) (s : TreeState ι κ) (ops : List (TreeOp ι κ)) : Option (TreeState ι κ) :=
  ops.foldlM (treeStep fuel cmp) s

/-- What the in-order sequence should be. -/
structure Sequence (ι κ : Type) where
  order : List ι
  key : ι → κ

def sequenceStep (cmp : κ → κ → ℤ) (s : Sequence ι κ) : TreeOp ι κ → Sequence ι κ
  | .add x k =>
      let key := Function.update s.key x k
      ⟨insertByKey cmp key x s.order, key⟩
  | .prune x => ⟨s.order.erase x, s.key⟩

/-- Nodes are added when they are unassigned, and pruned when they are assigned. -/
def Proper (s : Sequence ι κ) : TreeOp ι κ → Prop
  | .add x _ => x ∉ s.order
  | .prune x => x ∈ s.order

instance (s : Sequence ι κ) : (op : TreeOp ι κ) → Decidable (Proper s op)
  | .add x _ => inferInstanceAs (Decidable (x ∉ s.order))
  | .prune x => inferInstanceAs (Decidable (x ∈ s.order))

/-- The tree in the heap is the sequence. -/
structure Matches (cmp : κ → κ → ℤ) (s : TreeState ι κ) (q : Sequence ι κ) : Prop where
  redBlack : RedBlack s.heap q.order
  sorted : SortedBy cmp q.key q.order
  key : s.key = q.key

variable {cmp : κ → κ → ℤ}

theorem sortedBy_update {key : ι → κ} {order : List ι} (sorted : SortedBy cmp key order) {x : ι}
    (absent : x ∉ order) (k : κ) : SortedBy cmp (Function.update key x k) order := by
  refine List.Pairwise.imp_of_mem (fun {a b} inA inB le => ?_) sorted
  have notA : a ≠ x := fun same => absent (same ▸ inA)
  have notB : b ≠ x := fun same => absent (same ▸ inB)
  rwa [Function.update_of_ne notA, Function.update_of_ne notB]

variable {fuel : ℕ}

theorem treeStep_matches (preorder : TotalPreorder cmp) {s : TreeState ι κ} {q : Sequence ι κ}
    (same : Matches cmp s q) {op : TreeOp ι κ} (proper : Proper q op) (enough : q.order.length + 1 < fuel) :
    ∃ s', treeStep fuel cmp s op = some s' ∧ Matches cmp s' (sequenceStep cmp q op) := by
  obtain ⟨heap, key⟩ := s
  obtain ⟨redBlack, sorted, rfl⟩ := same
  cases op with
  | add x k =>
    have sorted' := sortedBy_update sorted proper k
    have added := redBlack.add preorder sorted' proper (by omega : q.order.length < fuel)
    rw [Function.update_self] at added
    obtain ⟨result, h', run, -, redBlack', sorted''⟩ := added
    exact ⟨⟨h', Function.update q.key x k⟩, by simp only [treeStep, run, Option.map_some], redBlack', sorted'', rfl⟩
  | prune x =>
    obtain ⟨result, h', run, -, redBlack'⟩ := redBlack.prune proper enough
    refine ⟨⟨h', q.key⟩, by simp only [treeStep, run, Option.map_some], redBlack', ?_, rfl⟩
    exact List.Pairwise.sublist List.erase_sublist sorted

theorem sequenceStep_length (cmp : κ → κ → ℤ) (q : Sequence ι κ) (op : TreeOp ι κ) :
    (sequenceStep cmp q op).order.length ≤ q.order.length + 1 := by
  cases op with
  | add x k => simp only [sequenceStep, insertByKey, List.orderedInsert_length, le_refl]
  | prune x =>
    have := List.length_erase_le (a := x) (l := q.order)
    simp only [sequenceStep]
    omega

theorem treeRun_matches (preorder : TotalPreorder cmp) {s : TreeState ι κ} {q : Sequence ι κ}
    (same : Matches cmp s q) {ops : List (TreeOp ι κ)} (proper : Along (sequenceStep cmp) Proper q ops)
    (enough : q.order.length + ops.length + 1 < fuel) :
    ∃ s', treeRun fuel cmp s ops = some s' ∧ Matches cmp s' (exec (sequenceStep cmp) q ops) := by
  induction ops generalizing s q with
  | nil => exact ⟨s, rfl, same⟩
  | cons op ops ih =>
    rw [List.length_cons] at enough
    obtain ⟨s₁, step, same₁⟩ := treeStep_matches preorder same proper.1 (by omega : q.order.length + 1 < fuel)
    have grown := sequenceStep_length cmp q op
    obtain ⟨s₂, run, same₂⟩ := ih same₁ proper.2 (by omega)
    exact ⟨s₂, by simp only [treeRun, List.foldlM_cons, step] at run ⊢; exact run, same₂⟩

/-- A history of additions and prunings of a tree that `RBTree_Init` has made. -/
theorem treeRun_init (preorder : TotalPreorder cmp) {memory : Heap ι}
    (sentinel : memory .sentinel = ⟨.sentinel, .sentinel, .sentinel, .black⟩)
    (fresh : ∀ x, (memory (.node x)).color = .unassigned) {key : ι → κ} {ops : List (TreeOp ι κ)}
    (proper : Along (sequenceStep cmp) Proper ⟨[], key⟩ ops) (enough : ops.length + 1 < fuel) :
    ∃ s, treeRun fuel cmp ⟨rbTreeInit memory, key⟩ ops = some s ∧ Matches cmp s (exec (sequenceStep cmp) ⟨[], key⟩ ops) := by
  have ok : SentinelOk memory := by constructor <;> rw [sentinel]
  have start : Matches cmp (⟨rbTreeInit memory, key⟩ : TreeState ι κ) ⟨[], key⟩ :=
    ⟨rbTreeInit_redBlack ok fresh, .nil, rfl⟩
  exact treeRun_matches preorder start proper (by simpa using enough)

/-- Every history of additions and prunings ends in a tree that satisfies the invariant of the
representation, with the in-order sequence of the sorted list. -/
theorem red_black_history (cmp : κ → κ → ℤ) (preorder : TotalPreorder cmp) (memory : Heap ι)
    (sentinel : memory .sentinel = ⟨.sentinel, .sentinel, .sentinel, .black⟩)
    (fresh : ∀ x, (memory (.node x)).color = .unassigned) (key : ι → κ) (ops : List (TreeOp ι κ))
    (proper : Along (sequenceStep cmp) Proper ⟨[], key⟩ ops) (fuel : ℕ) (enough : ops.length + 1 < fuel) :
    let final := exec (sequenceStep cmp) ⟨[], key⟩ ops
    ∃ s, treeRun fuel cmp ⟨rbTreeInit memory, key⟩ ops = some s ∧ RepInvariant s.heap final.order ∧
      SortedBy cmp final.key final.order := by
  obtain ⟨s, run, same⟩ := treeRun_init preorder sentinel fresh proper enough
  exact ⟨s, run, repInvariant_of_redBlack same.redBlack, same.sorted⟩

/-- Node memory as the loader leaves it. -/
def zeroMemory : Heap ℕ
  | .sentinel => ⟨.sentinel, .sentinel, .sentinel, .black⟩
  | _ => ⟨.null, .null, .null, .unassigned⟩

/-- Five objects are added, two of them with equal keys, and one with two children is pruned. -/
theorem red_black_history_five :
    ∃ s, treeRun 10 (fun a b : ℤ => a - b) ⟨rbTreeInit zeroMemory, fun _ => 0⟩
        [.add 1 50, .add 2 30, .add 3 80, .add 4 30, .add 5 70, .prune 1] = some s ∧
      RepInvariant s.heap [2, 4, 5, 3] := by
  obtain ⟨s, run, invariant, -⟩ := red_black_history (fun a b : ℤ => a - b)
    ⟨fun a b => by omega, fun a b c first second => by omega⟩ zeroMemory rfl (fun _ => rfl) (fun _ => 0)
    [.add 1 50, .add 2 30, .add 3 80, .add 4 30, .add 5 70, .prune 1]
    (by decide) 10 (by decide)
  exact ⟨s, run, invariant⟩

/-! ## Searching -/

/-- After any history of additions and prunings, `RBTree_Find` gives its result after a number of rounds that is logarithmic
in the number of objects. -/
theorem find_logarithmic (cmp : κ → κ → ℤ) (preorder : TotalPreorder cmp) (memory : Heap ι)
    (sentinel : memory .sentinel = ⟨.sentinel, .sentinel, .sentinel, .black⟩)
    (fresh : ∀ x, (memory (.node x)).color = .unassigned) (key : ι → κ) (ops : List (TreeOp ι κ))
    (proper : Along (sequenceStep cmp) Proper ⟨[], key⟩ ops) (fuel : ℕ) (enough : ops.length + 1 < fuel) :
    let final := exec (sequenceStep cmp) ⟨[], key⟩ ops
    ∃ s, treeRun fuel cmp ⟨rbTreeInit memory, key⟩ ops = some s ∧
      ∀ data rounds, 2 * (final.order.length + 1).log2 < rounds →
        ∃ found, (rbTreeFind rounds (compareKey cmp s.key) data).run s.heap = some (found, s.heap) ∧
          FoundBy cmp s.key data final.order found := by
  intro final
  obtain ⟨s, run, redBlack, sorted, sameKey⟩ := treeRun_init preorder sentinel fresh proper enough
  refine ⟨s, run, fun data rounds many => ?_⟩
  obtain ⟨t, k, shape, balanced, labels, -⟩ := redBlack
  rw [← sameKey, ← labels] at sorted
  rw [show final.order = t.labels from labels.symm] at many ⊢
  obtain ⟨deep, nodes⟩ := balanced.depth_le
  rw [if_neg (by decide)] at deep
  have height := (Nat.le_log2 (Nat.add_one_ne_zero _)).mpr nodes
  obtain ⟨found, _, ends, rfl, result⟩ := shape.find preorder sorted data (by omega : t.depth < rounds)
  exact ⟨found, ends, result⟩

/-- Among four objects, no search takes more than five rounds. -/
theorem find_logarithmic_four :
    ∃ s, treeRun 6 (fun a b : ℤ => a - b) ⟨rbTreeInit zeroMemory, fun _ => 0⟩
        [.add 1 50, .add 2 30, .add 3 80, .add 4 30] = some s ∧
      ∀ data, ∃ found, (rbTreeFind 5 (compareKey (fun a b : ℤ => a - b) s.key) data).run s.heap = some (found, s.heap) := by
  obtain ⟨s, run, finds⟩ := find_logarithmic (fun a b : ℤ => a - b)
    ⟨fun a b => by omega, fun a b c first second => by omega⟩ zeroMemory rfl (fun _ => rfl) (fun _ => 0)
    [.add 1 50, .add 2 30, .add 3 80, .add 4 30] (by decide) 6 (by decide)
  exact ⟨s, run, fun data => (finds data 5 (by decide)).imp fun _ => And.left⟩

/-! ## Clearing -/

/-- `RBTree_Clear` ends without following null, and leaves an empty tree and nodes that can be added again. -/
structure Clears (cmp : κ → κ → ℤ) (heap : Heap ι) (order : List ι) (cleared : Heap ι) : Prop where
  ends : ∃ bound, ∀ fuel, bound < fuel → (rbTreeClear fuel).run heap = some ((), cleared)
  unassigned : ∀ x ∈ order, (cleared (.node x)).color = .unassigned
  empty : RepInvariant cleared []
  again : ∀ x ∈ order, ∀ key : ι → κ, ∃ bound, ∀ fuel, bound < fuel →
    ∃ heap', (rbTreeAdd fuel (compareKey cmp key) (.node x) (key x)).run cleared = some (true, heap') ∧ RepInvariant heap' [x]

/-- After any history of additions and prunings, the tree can be cleared if and only if it is empty. -/
theorem tree_clear_iff (cmp : κ → κ → ℤ) (preorder : TotalPreorder cmp) (memory : Heap ι)
    (sentinel : memory .sentinel = ⟨.sentinel, .sentinel, .sentinel, .black⟩)
    (fresh : ∀ x, (memory (.node x)).color = .unassigned) (key : ι → κ) (ops : List (TreeOp ι κ))
    (proper : Along (sequenceStep cmp) Proper ⟨[], key⟩ ops) (fuel : ℕ) (enough : ops.length + 1 < fuel) :
    let final := exec (sequenceStep cmp) ⟨[], key⟩ ops
    ∃ s, treeRun fuel cmp ⟨rbTreeInit memory, key⟩ ops = some s ∧
      ((∃ cleared, Clears cmp s.heap final.order cleared) ↔ final.order = []) := by
  intro final
  obtain ⟨s, run, same⟩ := treeRun_init preorder sentinel fresh proper enough
  have redBlack : RedBlack s.heap final.order := same.redBlack
  refine ⟨s, run, ?_⟩
  generalize final.order = order at redBlack
  constructor
  · rintro ⟨cleared, clears⟩
    by_contra nonempty
    obtain ⟨bound, ends⟩ := clears.ends
    exact redBlack.clear_nonempty nonempty _ _ (ends (bound + 1) (Nat.lt_succ_self _))
  · rintro rfl
    refine ⟨s.heap, ⟨0, fun fuel positive => ?_⟩, by rintro x ⟨⟩, repInvariant_of_redBlack redBlack, by rintro x ⟨⟩⟩
    obtain ⟨_, _, cleared, rfl⟩ := redBlack.clear_empty positive
    exact cleared

/-- An object is added and pruned, and the empty tree is cleared. -/
theorem tree_clear_iff_empty :
    ∃ s, treeRun 4 (fun a b : ℤ => a - b) ⟨rbTreeInit zeroMemory, fun _ => 0⟩ [.add 1 50, .prune 1] = some s ∧
      ((∃ cleared, Clears (fun a b : ℤ => a - b) s.heap [] cleared) ↔ ([] : List ℕ) = []) :=
  tree_clear_iff (fun a b : ℤ => a - b) ⟨fun a b => by omega, fun a b c first second => by omega⟩ zeroMemory rfl (fun _ => rfl)
    (fun _ => 0) [.add 1 50, .prune 1] (by decide) 4 (by decide)

/-- With one object in the tree, the loop goes on from the last node to null. -/
theorem tree_clear_null :
    ∃ s, treeRun 3 (fun a b : ℤ => a - b) ⟨rbTreeInit zeroMemory, fun _ => 0⟩ [.add 1 50] = some s ∧
      (∀ fuel, (rbTreeClear fuel).run s.heap = none) ∧ ¬∃ cleared, Clears (fun a b : ℤ => a - b) s.heap [1] cleared := by
  have history : ∃ s, treeRun 3 (fun a b : ℤ => a - b) ⟨rbTreeInit zeroMemory, fun _ => 0⟩ [.add 1 50] = some s ∧
      Matches (fun a b : ℤ => a - b) s (exec (sequenceStep fun a b : ℤ => a - b) ⟨[], fun _ => 0⟩ [.add 1 50]) :=
    treeRun_init ⟨fun a b => by omega, fun a b c first second => by omega⟩ rfl (fun _ => rfl) (by decide) (by decide)
  obtain ⟨s, run, same⟩ := history
  have redBlack : RedBlack s.heap [1] := same.redBlack
  have never (fuel : ℕ) : (rbTreeClear fuel).run s.heap = none := by
    rw [Option.eq_none_iff_forall_ne_some]
    intro result cleared
    exact redBlack.clear_nonempty (List.cons_ne_nil _ _) _ _ cleared
  refine ⟨s, run, never, ?_⟩
  rintro ⟨cleared, clears⟩
  obtain ⟨bound, ends⟩ := clears.ends
  have ended := ends (bound + 1) (Nat.lt_succ_self _)
  rw [never] at ended
  cases ended

end Histories

end DaemonProxy.Soundness
