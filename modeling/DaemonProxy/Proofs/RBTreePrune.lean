import DaemonProxy.Proofs.RBTreeDelete
import Mathlib.Data.List.Basic

/-! # `RBTreeNode_Prune`

A node with two children is replaced by a neighbour in the order, which is taken out of its own
place first: the successor, or the predecessor if the successor is a black node without children.
Either way the labels lose the pruned node and nothing else.
-/

namespace DaemonProxy.Proofs

open Lib Model ColorTree

variable {ι : Type} [DecidableEq ι] {h : Heap ι} {rest : ι → Cell ι} {ctx : List (Frame ι)}

variable {t : ColorTree ι}

omit [DecidableEq ι] in
/-- The records outside the tree are all that `rest` is asked for. -/
theorem Shape.of_rest {rest' : ι → Cell ι} (shape : Shape h rest' t)
    (same : ∀ z, z ∉ t.labels → rest' z = rest z) : Shape h rest t :=
  ⟨shape.nodup, shape.sentinel, shape.root, shape.tree, fun z absent => (shape.others z absent).trans (same z absent)⟩

omit [DecidableEq ι] in
theorem labels_plug_node (ctx : List (Frame ι)) (c : Color) (l : ColorTree ι) (x : ι) (r : ColorTree ι) :
    (plug ctx (node c l x r)).labels = (leftOf ctx ++ l.labels) ++ x :: (r.labels ++ rightOf ctx) := by
  rw [labels_plug, labels]
  simp only [List.append_assoc, List.cons_append]

variable {x : ι}

theorem erase_middle {before after : List ι} (nodup : (before ++ x :: after).Nodup) :
    (before ++ x :: after).erase x = before ++ after := by
  have absent : x ∉ before := fun member => (List.nodup_append'.mp nodup).2.2 member List.mem_cons_self
  rw [List.erase_append_right _ absent, List.erase_cons_head]

variable {c : Color} {l r : ColorTree ι}

theorem labels_erase (nodup : (plug ctx (node c l x r)).labels.Nodup) :
    (plug ctx (node c l x r)).labels.erase x = leftOf ctx ++ (l.labels ++ r.labels) ++ rightOf ctx := by
  rw [labels_plug_node] at nodup ⊢
  rw [erase_middle nodup]
  simp only [List.append_assoc]

/-! ## Neighbours -/

/-- The outermost node of a subtree on one side, with the path to it. -/
structure Outermost (s : Side) (t : ColorTree ι) (y : ι) (inner : List (Frame ι)) (c : Color) (b : ColorTree ι) :
    Prop where
  split : t = plug inner (link s c y nil b)
  sides : ∀ f ∈ inner, f.side = s

variable {inner : List (Frame ι)}

omit [DecidableEq ι] in
theorem leftOf_eq_nil (sides : ∀ f ∈ inner, f.side = .left) : leftOf inner = [] := by
  induction inner with
  | nil => rfl
  | cons f inner ih =>
    rw [leftOf, sides f List.mem_cons_self]
    exact ih fun g member => sides g (List.mem_cons_of_mem _ member)

omit [DecidableEq ι] in
theorem rightOf_eq_nil (sides : ∀ f ∈ inner, f.side = .right) : rightOf inner = [] := by
  induction inner with
  | nil => rfl
  | cons f inner ih =>
    rw [rightOf, sides f List.mem_cons_self]
    exact ih fun g member => sides g (List.mem_cons_of_mem _ member)

variable {b : ColorTree ι} {y : ι}

omit [DecidableEq ι] in
theorem Outermost.labels_left
    (outermost : Outermost .left t y inner c b) : ∃ after, t.labels = y :: after := by
  rw [outermost.split, labels_plug, leftOf_eq_nil outermost.sides]
  exact ⟨b.labels ++ rightOf inner, rfl⟩

omit [DecidableEq ι] in
theorem Outermost.labels_right
    (outermost : Outermost .right t y inner c b) : ∃ before, t.labels = before ++ [y] := by
  rw [outermost.split, labels_plug, rightOf_eq_nil outermost.sides]
  exact ⟨leftOf inner ++ b.labels, by simp [link, labels]⟩

variable {fuel : ℕ}

/-- Walking down one side ends at its outermost node. -/
theorem descend_spec {s : Side} (shape : Shape h rest (plug ctx t)) (nonempty : t ≠ nil)
    (enough : t.labels.length < fuel) :
    Ends (descend fuel s (ptr t)) h fun p h' =>
      h' = h ∧ ∃ y inner c b, p = .node y ∧ Outermost s t y inner c b := by
  let Inv : ℕ → Ref ι → Heap ι → Prop := fun n p h' => h' = h ∧ ∃ inner u, u ≠ nil ∧ p = ptr u ∧
    t = plug inner u ∧ (∀ f ∈ inner, f.side = s) ∧ n = u.labels.length
  have round : ∀ n p h', Inv n p h' → Ends (descendRound s p) h' (Round Inv (fun p h' =>
      h' = h ∧ ∃ y inner c b, p = .node y ∧ Outermost s t y inner c b) n) := by
    rintro n p h' ⟨rfl, inner, u, proper, rfl, rfl, sides, rfl⟩
    cases u with
    | nil => exact absurd rfl proper
    | node c l y r =>
      obtain ⟨a, b, same⟩ := exists_link s c l y r
      rw [same, ← plug_append] at shape
      rw [same, ptr_link]
      simp only [descendRound, ends_bind, ends_getChild, shape.record, cell_child, ends_ite, ends_pure, ne_eq,
        reduceCtorEq, not_false_eq_true, true_and]
      cases a with
      | nil =>
        rw [if_pos ptr_nil]
        exact ⟨rfl, y, inner, c, b, rfl, rfl, sides⟩
      | node d l' z r' =>
        rw [if_neg (by simp [ptr])]
        refine ⟨(node d l' z r').labels.length, ?_, rfl, ⟨s, c, y, b⟩ :: inner, node d l' z r', nofun, rfl,
          congrArg (plug inner) same, ?_, rfl⟩
        · rw [(labels_link_perm ..).length_eq, List.length_cons, List.length_append]
          omega
        · intro f member
          rcases List.mem_cons.mp member with rfl | rest
          · rfl
          · exact sides f rest
  exact Ends.loop round ⟨rfl, [], t, nonempty, rfl, rfl, nofun, rfl⟩ enough

/-! ## The function -/

/-- What `RBTreeNode_Prune` leaves behind. -/
def Removed (rest : ι → Cell ι) (gone : ι) (old : List ι) (h : Heap ι) : Prop :=
  ∃ cell t k, cell.color = .unassigned ∧ Shape h (Function.update rest gone cell) t ∧ t.Balanced .black k ∧
    t.labels = old.erase gone

/-- Marking the pruned node as unassigned ends the function. -/
theorem Pruned.removed {old : List ι} (nodup : old.Nodup) (pruned : Pruned rest x (old.erase x) h) :
    Ends (do setColor (.node x) .unassigned; return true) h fun removed h' =>
      removed = true ∧ Removed rest x old h' := by
  obtain ⟨rest', t, k, same, shape, balanced, order⟩ := pruned
  have absent : x ∉ t.labels := by
    rw [order]
    exact fun member => (nodup.mem_erase_iff.mp member).1 rfl
  simp only [ends_bind, ends_setColor, ends_pure, ne_eq, reduceCtorEq, not_false_eq_true, true_and]
  refine ⟨(rest' x).setColor .unassigned, t, k, rfl, (shape.modify_other absent _).of_rest ?_, balanced, order⟩
  intro z _
  by_cases here : z = x
  · rw [here, Function.update_self, Function.update_self]
  · rw [Function.update_of_ne here, Function.update_of_ne here, same z here]

variable {m : ℕ}

/-- A neighbour `y` of `x` is taken out of its place and put in that of `x`. -/
theorem exchange_neighbour {before after : List ι}
    (shape : Shape h rest (plug ctx (node c l y r))) (balanced : (plug ctx (node c l y r)).Balanced .black m)
    (lacks : l = nil ∨ r = nil) (enough : (plug ctx (node c l y r)).labels.length + 1 < fuel)
    (without : (plug ctx (node c l y r)).labels.erase y = before ++ x :: after)
    (replaced : (plug ctx (node c l y r)).labels.erase x = before ++ y :: after) :
    Ends (do rbTreeNodePruneLeaf fuel (.node y); exchange (.node x) (.node y)) h fun _ =>
      Pruned rest x ((plug ctx (node c l y r)).labels.erase x) := by
  have nodup := shape.nodup
  rw [ends_bind]
  refine (rbTreeNodePruneLeaf_spec shape balanced lacks enough).mono fun _ h₁ pruned => ?_
  rw [← labels_erase nodup, without] at pruned
  obtain ⟨rest₁, t₁, k, same, shape₁, balanced₁, order⟩ := pruned
  obtain ⟨ctx₁, c₁, l₁, r₁, rfl⟩ := exists_plug_of_mem (t := t₁) (x := x) (by rw [order]; simp)
  have absent : y ∉ (plug ctx₁ (node c₁ l₁ x r₁)).labels := by
    rw [order, ← without]
    exact fun member => (nodup.mem_erase_iff.mp member).1 rfl
  refine (exchange_spec shape₁ absent).mono fun _ h₂ shape₂ => ?_
  obtain ⟨d, n, sub, hole⟩ := balanced₁.focus
  obtain ⟨k', balanced₂⟩ := hole.plug (sub.relabel y)
  refine ⟨Function.update rest x (h₁ (.node x)), _, k', ?_, shape₂.of_rest ?_, balanced₂, ?_⟩
  · exact fun z away => Function.update_of_ne away _ _
  · intro z outside
    by_cases here : z = x
    · rw [here, Function.update_self, Function.update_self]
    · have notY : z ≠ y := by
        rintro rfl
        exact outside (by rw [labels_plug_node]; simp)
      rw [Function.update_of_ne here, Function.update_of_ne here, same z notY]
  · -- In the order, `y` now stands where `x` stood.
    have nodup₁ := shape₁.nodup
    rw [labels_plug_node] at order nodup₁ ⊢
    have notBefore : x ∉ leftOf ctx₁ ++ l₁.labels :=
      fun member => (List.nodup_append'.mp nodup₁).2.2 member List.mem_cons_self
    have notAfter : x ∉ r₁.labels ++ rightOf ctx₁ := (List.nodup_cons.mp (List.nodup_append'.mp nodup₁).2.1).1
    obtain ⟨front, -, back⟩ := (List.append_cons_inj_of_notMem notBefore notAfter).mp order
    rw [front, back, replaced]

theorem lacksChild_spec (shape : Shape h rest (plug ctx (node c l x r))) :
    Ends (lacksChild (.node x)) h fun result h' => h' = h ∧ (result = true ↔ l = nil ∨ r = nil) := by
  have record : h (.node x) = ⟨ptr l, ptr r, above ctx, nodeColor c⟩ := Shape.record (s := .left) shape
  simp only [lacksChild, ends_bind, ends_getChild, ends_ite, ends_pure, ne_eq, reduceCtorEq, not_false_eq_true, true_and]
  rw [record, mk_child_left, mk_child_right]
  cases l with
  | nil =>
    rw [if_pos ptr_nil]
    exact ⟨fun _ => .inl rfl, fun _ => trivial⟩
  | node d l' y r' =>
    rw [if_neg (by simp [ptr]), decide_eq_true_eq, ptr_eq_sentinel]
    exact ⟨.inr, fun either => either.resolve_left nofun⟩

/-- The test of the successor only reads. -/
theorem isBlackLeaf_spec (y : ι) : Ends (isBlackLeaf (.node y)) h fun _ h' => h' = h := by
  simp only [isBlackLeaf, ends_bind, ends_getColor, ends_getChild, ends_ite, ends_pure, ne_eq, reduceCtorEq,
    not_false_eq_true, true_and, ite_self]

/-- The successor of a node with a right child, reached by `RBTreeNode_GetNext`. -/
theorem getNext_spec (shape : Shape h rest (plug ctx (node c l x r)))
    (proper : r ≠ nil) (enough : r.labels.length < fuel) :
    Ends (rbTreeNodeGetNext fuel (.node x)) h fun p h' =>
      h' = h ∧ ∃ y inner d b, p = .node y ∧ Outermost .left r y inner d b := by
  have record : h (.node x) = ⟨ptr l, ptr r, above ctx, nodeColor c⟩ := Shape.record (s := .left) shape
  simp only [rbTreeNodeGetNext, ends_bind, ends_getChild, record, mk_child_right, ends_ite, ptr_eq_sentinel, proper,
    not_false_eq_true, if_true, ne_eq, reduceCtorEq, true_and]
  exact descend_spec (Shape.focus_far (s := .left) shape) proper enough

/-- The predecessor of a node with a left child, reached by `RBTreeNode_GetPrev`. -/
theorem getPrev_spec (shape : Shape h rest (plug ctx (node c l x r)))
    (proper : l ≠ nil) (enough : l.labels.length < fuel) :
    Ends (rbTreeNodeGetPrev fuel (.node x)) h fun p h' =>
      h' = h ∧ ∃ y inner d b, p = .node y ∧ Outermost .right l y inner d b := by
  have record : h (.node x) = ⟨ptr l, ptr r, above ctx, nodeColor c⟩ := Shape.record (s := .left) shape
  simp only [rbTreeNodeGetPrev, ends_bind, ends_getChild, record, mk_child_left, ends_ite, ptr_eq_sentinel, proper,
    not_false_eq_true, if_true, ne_eq, reduceCtorEq, true_and]
  exact descend_spec (Shape.focus_near (s := .left) shape) proper enough

theorem exchange_successor {d : Color}
    (shape : Shape h rest (plug ctx (node c l x r))) (balanced : (plug ctx (node c l x r)).Balanced .black m)
    (enough : (plug ctx (node c l x r)).labels.length + 1 < fuel) (outermost : Outermost .left r y inner d b) :
    Ends (do rbTreeNodePruneLeaf fuel (.node y); exchange (.node x) (.node y)) h fun _ =>
      Pruned rest x ((plug ctx (node c l x r)).labels.erase x) := by
  have split : plug ctx (node c l x r) = plug (inner ++ ⟨.right, c, x, l⟩ :: ctx) (node d nil y b) := by
    rw [plug_append, plug_cons, show plug inner (node d nil y b) = r from outermost.split.symm]
    rfl
  have nodup := shape.nodup
  have order := labels_plug_node ctx c l x r
  obtain ⟨after, next⟩ := outermost.labels_left
  rw [next, List.cons_append] at order
  rw [order] at nodup
  have without : (plug ctx (node c l x r)).labels.erase y = leftOf ctx ++ l.labels ++ x :: (after ++ rightOf ctx) := by
    rw [order, List.append_cons] at *
    rw [erase_middle nodup, List.append_assoc, List.singleton_append]
  have replaced : (plug ctx (node c l x r)).labels.erase x = leftOf ctx ++ l.labels ++ y :: (after ++ rightOf ctx) := by
    rw [order, erase_middle nodup]
  rw [split] at shape balanced enough without replaced ⊢
  exact exchange_neighbour shape balanced (.inl rfl) enough without replaced

theorem exchange_predecessor {d : Color}
    (shape : Shape h rest (plug ctx (node c l x r))) (balanced : (plug ctx (node c l x r)).Balanced .black m)
    (enough : (plug ctx (node c l x r)).labels.length + 1 < fuel) (outermost : Outermost .right l y inner d b) :
    Ends (do rbTreeNodePruneLeaf fuel (.node y); exchange (.node x) (.node y)) h fun _ =>
      Pruned rest x ((plug ctx (node c l x r)).labels.erase x) := by
  have split : plug ctx (node c l x r) = plug (inner ++ ⟨.left, c, x, r⟩ :: ctx) (node d b y nil) := by
    rw [plug_append, plug_cons, show plug inner (node d b y nil) = l from outermost.split.symm]
    rfl
  have nodup := shape.nodup
  have order := labels_plug_node ctx c l x r
  obtain ⟨before, previous⟩ := outermost.labels_right
  rw [previous, ← List.append_assoc, List.append_assoc _ [y], List.singleton_append] at order
  rw [order] at nodup
  have without : (plug ctx (node c l x r)).labels.erase y = leftOf ctx ++ before ++ x :: (r.labels ++ rightOf ctx) := by
    rw [order, erase_middle nodup]
  have replaced : (plug ctx (node c l x r)).labels.erase x = leftOf ctx ++ before ++ y :: (r.labels ++ rightOf ctx) := by
    rw [order, List.append_cons] at *
    rw [erase_middle nodup, List.append_assoc, List.singleton_append]
  rw [split] at shape balanced enough without replaced ⊢
  exact exchange_neighbour shape balanced (.inr rfl) enough without replaced

/-- `RBTreeNode_Prune` of a node of the tree: the labels lose it, and the tree stays balanced. -/
theorem rbTreeNodePrune_spec (shape : Shape h rest t)
    (balanced : t.Balanced .black m) (member : x ∈ t.labels) (enough : t.labels.length + 1 < fuel) :
    Ends (rbTreeNodePrune fuel (.node x)) h fun removed h' => removed = true ∧ Removed rest x t.labels h' := by
  have nodup := shape.nodup
  obtain ⟨ctx, c, l, r, rfl⟩ := exists_plug_of_mem member
  have color := Shape.record (s := .left) shape
  have finish := fun (_ : Unit) h' (pruned : Pruned rest x ((plug ctx (node c l x r)).labels.erase x) h') =>
    pruned.removed nodup
  have sizes := congrArg List.length (labels_plug_node ctx c l x r)
  simp only [List.length_append, List.length_cons] at sizes
  simp only [rbTreeNodePrune, ends_bind, ends_getColor, color, cell_color, nodeColor_ne_unassigned, if_false, ne_eq,
    reduceCtorEq, not_false_eq_true, true_and] at finish ⊢
  refine (lacksChild_spec shape).mono fun lacks h' after => ?_
  obtain ⟨rfl, lacks_iff⟩ := after
  rw [ends_ite]
  split
  · next true =>
    rw [ends_bind]
    refine (rbTreeNodePruneLeaf_spec shape balanced (lacks_iff.mp true) enough).mono fun _ h₁ pruned => ?_
    rw [← labels_erase nodup] at pruned
    simpa only [ends_bind] using finish () h₁ pruned
  · next false =>
    obtain ⟨properL, properR⟩ := not_or.mp fun either => false (lacks_iff.mpr either)
    rw [ends_bind]
    refine (getNext_spec shape properR (by omega)).mono fun p h₁ after => ?_
    obtain ⟨rfl, y, inner, d, b, rfl, outermost⟩ := after
    rw [ends_bind]
    refine (isBlackLeaf_spec y).mono fun unliked h₂ unchanged => ?_
    subst unchanged
    rw [ends_ite]
    split
    · rw [ends_bind]
      refine (getPrev_spec shape properL (by omega)).mono fun p h₃ after => ?_
      obtain ⟨rfl, y', inner', d', b', rfl, outermost'⟩ := after
      have exchanged := exchange_predecessor shape balanced enough outermost'
      simp only [ends_bind] at exchanged ⊢
      exact exchanged.mono fun _ h₄ exchange => exchange.mono finish
    · have exchanged := exchange_successor shape balanced enough outermost
      simp only [pure_bind, ends_bind] at exchanged ⊢
      exact exchanged.mono fun _ h₃ exchange => exchange.mono finish

end DaemonProxy.Proofs
