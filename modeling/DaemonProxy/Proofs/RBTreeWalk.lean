import DaemonProxy.Model.System
import DaemonProxy.Proofs.ObjectIndex

/-! # Walking through an index

`RBTreeNode_GetNext` goes to the next label of the list that the tree stands for, and a search that finds nothing ends beside
the place where the key would be. So the iterators of the daemon, which have no more than the name of an object to start from,
go on with what follows that name, whatever has happened to the tree in between.
-/

namespace DaemonProxy.Proofs

open Lib Model ColorTree

variable {ι κ : Type} [DecidableEq ι] {h : Heap ι} {rest : ι → Cell ι} {ctx : List (Frame ι)} {fuel : ℕ}

/-- The node with the first of the labels to the right of a hole, or the root sentinel. -/
def nextAbove (ctx : List (Frame ι)) : Ref ι := ((rightOf ctx).head?.map Ref.node).getD .root

/-- The walk up stops at the first node whose left subtree it comes from. -/
theorem nextLoop_spec {t : ColorTree ι} (shape : Shape h rest (plug ctx t)) (proper : t ≠ nil) (enough : ctx.length < fuel) :
    Ends (loop nextRound fuel (ptr t, above ctx)) h fun p h' => h' = h ∧ p = nextAbove ctx := by
  let Inv : ℕ → Ref ι × Ref ι → Heap ι → Prop := fun n pair h' => h' = h ∧ ∃ outer u, u ≠ nil ∧ pair = (ptr u, above outer) ∧
    Shape h rest (plug outer u) ∧ nextAbove outer = nextAbove ctx ∧ n = outer.length
  have round : ∀ n pair h', Inv n pair h' → Ends (nextRound pair) h' (Round Inv (fun p h' => h' = h ∧ p = nextAbove ctx) n) := by
    rintro n pair h' ⟨rfl, outer, u, proper, rfl, shape, same, rfl⟩
    simp only [nextRound, ends_bind, ends_getChild, ends_ite, ends_pure, ends_getParent, above_ne_null, ne_eq, not_false_eq_true,
      true_and]
    cases outer with
    | nil =>
      have root : h' .root = ⟨ptr u, .sentinel, .null, .black⟩ := shape.root
      rw [above, root, mk_child_right, if_neg (fun none => proper (ptr_eq_sentinel.mp none.symm))]
      exact ⟨rfl, same⟩
    | cons f outer =>
      obtain ⟨side, color, label, sibling⟩ := f
      have record : h' (.node label) = cell side (ptr u) (ptr sibling) (above outer) color := Shape.record shape
      rw [above, record]
      cases side with
      | left =>
        have apart : ptr sibling ≠ ptr u := by
          intro equal
          have nodup := (shape_plug.mp (Shape.unfocus_near shape)).nodup
          obtain ⟨-, -, -, disjoint⟩ := nodup_link.mp nodup
          cases u with
          | nil => exact proper rfl
          | node c l y r =>
            cases sibling with
            | nil => cases equal
            | node c' l' y' r' =>
              obtain rfl := Ref.node.inj equal
              exact disjoint y' (by simp [labels]) (by simp [labels])
        rw [show (cell .left (ptr u) (ptr sibling) (above outer) color).child .right = ptr sibling from rfl, if_neg apart]
        exact ⟨rfl, same⟩
      | right =>
        rw [show (cell .right (ptr u) (ptr sibling) (above outer) color).child .right = ptr u from rfl, if_pos rfl, cell_parent]
        refine ⟨outer.length, Nat.lt_succ_self _, rfl, outer, link .right color label u sibling, ?_, ?_, shape, same, rfl⟩
        · exact fun none => by cases none
        · rw [ptr_link]
  exact Ends.loop round ⟨rfl, ctx, t, proper, rfl, shape, rfl, rfl⟩ enough

variable {before after : List ι}

/-- `RBTreeNode_GetNext` goes to the label that follows. -/
theorem RedBlack.next {order : List ι} {x : ι} (redBlack : RedBlack h order) (split : order = before ++ x :: after)
    (enough : order.length < fuel) :
    Ends (rbTreeNodeGetNext fuel (.node x)) h fun p h' => h' = h ∧ p.object? = after.head? := by
  have nodup := redBlack.nodup
  obtain ⟨t, k, shape, -, rfl, -⟩ := redBlack
  obtain ⟨ctx, c, l, r, rfl⟩ := exists_plug_of_mem (t := t) (x := x) (by rw [split]; simp)
  have following : after = r.labels ++ rightOf ctx := by
    rw [labels_plug, labels, List.append_assoc, List.append_assoc, List.cons_append, ← List.append_assoc] at split
    rw [labels_plug, labels, List.append_assoc, List.append_assoc, List.cons_append, ← List.append_assoc] at nodup
    obtain ⟨-, behind, apart⟩ := List.nodup_append.mp nodup
    have absent : x ∉ leftOf ctx ++ l.labels := fun member => apart x member x List.mem_cons_self rfl
    exact ((List.append_cons_inj_of_notMem absent (List.nodup_cons.mp behind).1).mp split).2.2.symm
  have record : h (.node x) = ⟨ptr l, ptr r, above ctx, nodeColor c⟩ := Shape.record (s := .left) shape
  have short := length_le_labels ctx (node c l x r)
  by_cases proper : r = nil
  · subst proper
    have up := nextLoop_spec shape (by simp : node c l x nil ≠ nil) (Nat.lt_of_le_of_lt short enough)
    simp only [rbTreeNodeGetNext, ends_bind, ends_getChild, record, mk_child_right, ends_ite, ptr_nil, not_true_eq_false, if_false,
      ne_eq, reduceCtorEq, not_false_eq_true, true_and, ends_getParent]
    refine up.mono ?_
    rintro p h' ⟨rfl, rfl⟩
    rw [following, labels_nil, List.nil_append, nextAbove]
    cases first : rightOf ctx with
    | nil =>
      simp only [List.head?_nil, Option.map_none, Option.getD_none, shape.root, ends_pure, if_true, ne_eq, reduceCtorEq,
        not_false_eq_true, true_and]
      rfl
    | cons y ys =>
      have member : y ∈ (plug ctx (node c l x nil)).labels := by
        rw [labels_plug, first]
        simp
      obtain ⟨ctx', c', l', r', same⟩ := exists_plug_of_mem member
      have parent : (h' (.node y)).parent = above ctx' := by
        rw [same] at shape
        rw [Shape.record (s := .left) shape, cell_parent]
      simp only [List.head?_cons, Option.map_some, Option.getD_some, parent, above_ne_null, if_false, ends_pure, ne_eq, reduceCtorEq,
        not_false_eq_true, true_and]
      rfl
  · have room : r.labels.length < fuel := by
      rw [labels_plug, labels] at enough
      simp only [List.length_append, List.length_cons] at enough
      omega
    refine (getNext_spec shape proper room).mono ?_
    rintro p h' ⟨rfl, y, inner, d, b, rfl, outermost⟩
    obtain ⟨rest, labels⟩ := outermost.labels_left
    rw [following, labels]
    exact ⟨rfl, rfl⟩

/-! ## The iterators -/

section Names

variable {key : ι → Bytes} {order : List ι} {name : Bytes}

/-- The names of the objects are distinct, and in this order. -/
def Increasing (key : ι → Bytes) (order : List ι) : Prop := order.Pairwise fun a b => strsegCmp (key a) (key b) < 0

/-- The objects with greater names. -/
def aboveName (key : ι → Bytes) (order : List ι) (name : Bytes) : List ι := order.filter fun z => strsegCmp name (key z) < 0

section

omit [DecidableEq ι]

theorem Increasing.sortedBy (increasing : Increasing key order) : SortedBy strsegCmp key order := increasing.imp fun less => less.le

theorem aboveName_split (split : order = before ++ after)
    (notAbove : ∀ z ∈ before, 0 ≤ strsegCmp name (key z)) (above : ∀ z ∈ after, strsegCmp name (key z) < 0) :
    aboveName key order name = after := by
  have first : before.filter (fun z => decide (strsegCmp name (key z) < 0)) = [] :=
    List.filter_eq_nil_iff.mpr fun z member => by simpa using notAbove z member
  have last : after.filter (fun z => decide (strsegCmp name (key z) < 0)) = after :=
    List.filter_eq_self.mpr fun z member => by simpa using above z member
  rw [aboveName, split, List.filter_append, first, last, List.nil_append]

/-- Above the name of an object are those that follow it. -/
theorem Increasing.aboveName_eq {x : ι} (increasing : Increasing key order)
    (split : order = before ++ x :: after) : aboveName key order (key x) = after := by
  have parts := increasing
  rw [Increasing, split, List.pairwise_append, List.pairwise_cons] at parts
  obtain ⟨-, ⟨behind, -⟩, across⟩ := parts
  have whole : order = (before ++ [x]) ++ after := by rw [split, List.append_assoc, List.singleton_append]
  refine aboveName_split whole (fun z member => ?_) behind
  rw [List.mem_append, List.mem_singleton] at member
  rcases member with inFront | rfl
  · have less := across z inFront x List.mem_cons_self
    exact ((strsegCmp_preorder.sign _ _).mp less).le
  · exact (strsegCmp_eq_zero.mpr rfl).ge

theorem Increasing.suffix (increasing : Increasing key order) (name : Bytes) : ∃ before, order = before ++ aboveName key order name := by
  induction order with
  | nil => exact ⟨[], rfl⟩
  | cons y rest ih =>
    obtain ⟨first, later⟩ := List.pairwise_cons.mp increasing
    by_cases above : strsegCmp name (key y) < 0
    · refine ⟨[], (aboveName_split (List.nil_append _).symm (List.forall_mem_nil _) ?_).symm⟩
      rintro z (_ | ⟨_, member⟩)
      · exact above
      · exact strsegCmp_preorder.lt_of_lt_of_le above (first z member).le
    · obtain ⟨before, split⟩ := ih later
      refine ⟨y :: before, ?_⟩
      rw [aboveName, List.filter_cons_of_neg (by simpa using above), List.cons_append, ← aboveName, ← split]

end

/-- Without an object, an iterator comes to the first of the objects with a greater name. -/
theorem iterNext_none (redBlack : RedBlack h order) (increasing : Increasing key order) (name : Bytes) (enough : order.length < fuel) :
    Ends (iterNext fuel (compareKey strsegCmp key) none name) h fun next h' => h' = h ∧ next = (aboveName key order name).head? := by
  simp only [iterNext, ends_bind, ends_ite, ends_pure]
  refine (redBlack.find strsegCmp_preorder increasing.sortedBy name enough).mono ?_
  rintro ⟨nearest, relation⟩ h' ⟨rfl, ⟨rfl, x, member, rfl, equal⟩ | ⟨before, after, split, gap, beside⟩⟩
  · obtain ⟨before, after, split⟩ := List.append_of_mem member
    obtain rfl := strsegCmp_eq_zero.mp equal
    rw [if_neg (by rintro ⟨⟩), if_neg (lt_irrefl _), increasing.aboveName_eq split]
    exact redBlack.next split enough
  · rw [aboveName_split split (fun z inside => (gap.before z inside).le) gap.after]
    cases beside with
    | empty _ last =>
      rw [if_pos rfl, last]
      exact ⟨rfl, rfl⟩
    | greater next less =>
      rw [if_neg (by rintro ⟨⟩), if_pos less, next]
      exact ⟨rfl, rfl⟩
    | @smaller y front last relation more =>
      rw [if_neg (by rintro ⟨⟩), if_neg (not_lt.mpr more.le)]
      have around : order = front ++ y :: after := by rw [split, last, List.append_assoc, List.singleton_append]
      exact redBlack.next around enough

theorem iterNext_some {x : ι} (redBlack : RedBlack h order) (split : order = before ++ x :: after)
    (name : Bytes) (enough : order.length < fuel) :
    Ends (iterNext fuel (compareKey strsegCmp key) (some x) name) h fun next h' => h' = h ∧ next = after.head? := by
  simp only [iterNext, ends_bind, ends_pure]
  exact redBlack.next split enough

end Names

end DaemonProxy.Proofs
