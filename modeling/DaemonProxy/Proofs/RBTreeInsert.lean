import DaemonProxy.Proofs.RBTreeLocal

/-! # Insertion

The loop of `RBTreeNode_Balance` carries a red subtree, balanced in itself, in a hole that wants a
black one of the same height. Each round either moves two levels up or repairs the tree with one or
two rotations. The descent of `RBTree_Add` keeps the new data between the labels to the left of the
hole and those to its right.
-/

namespace DaemonProxy.Proofs

open Lib Model ColorTree

variable {ι κ : Type} [DecidableEq ι] {h : Heap ι} {rest : ι → Cell ι} {ctx : List (Frame ι)}

/-- What the loop of `RBTreeNode_Balance` maintains. -/
def BalanceInv (rest : ι → Cell ι) (order : List ι) (n : ℕ) (current : Ref ι) (h : Heap ι) : Prop :=
  ∃ ctx t k, n = ctx.length ∧ current = above ctx ∧ Shape h rest (plug ctx t) ∧ t.Balanced .red k ∧
    Hole ctx .black k ∧ (plug ctx t).labels = order

/-- What it leaves behind: a balanced tree, whose root may be red. -/
def BalanceDone (rest : ι → Cell ι) (order : List ι) (h : Heap ι) : Prop :=
  ∃ t c k, Shape h rest t ∧ t.Balanced c k ∧ t.labels = order

variable {s : Side} {x y : ι} {t a b : ColorTree ι}

/-- The uncle is red: the black of the grandparent moves down to both its children. -/
theorem balanceSide_red {d : Side} {u : ι} {sibling : ColorTree ι}
    (shape : Shape h rest (plug ctx (link s .black y (link d .red x t sibling) (link s .red u a b)))) :
    Ends (balanceSide s (.node x) (.node y)) h fun result h' => result = .inl (above ctx) ∧
      Shape h' rest (plug ctx (link s .red y (link d .black x t sibling) (link s .black u a b))) := by
  have record := shape.record
  have uncleColor := shape.focus_far.color
  simp only [ptr_link, color_link, nodeColor_red] at record uncleColor
  simp only [balanceSide, ends_bind, ends_getChild, ends_getColor, ends_getParent, record, cell_child_other, uncleColor,
    if_true, ends_pure, ne_eq, reduceCtorEq, not_false_eq_true, true_and]
  refine (setColor_spec shape.focus_far .black).mono fun _ h₁ shape₁ => ?_
  refine (setColor_spec shape₁.unfocus_far.focus_near .black).mono fun _ h₂ shape₂ => ?_
  refine (setColor_spec shape₂.unfocus_near .red).mono fun _ h₃ shape₃ => ?_
  rw [shape₃.record, cell_parent]
  exact ⟨rfl, shape₃⟩

variable {outer uncle : ColorTree ι}

/-- The last rotation: `x`, with its red child on the outside, rises above its black parent. -/
theorem balance_rotate {inner : ColorTree ι}
    (shape : Shape h rest (plug ctx (link s .black y (link s .red x outer inner) uncle))) :
    Ends (do
      rotateHere s.other (.node y)
      setColor (.node y) .red
      setColor (← getParent (.node y)) .black
      return (.inr () : Ref ι ⊕ Unit)) h fun result h' => result = .inr () ∧
      Shape h' rest (plug ctx (link s.other .black x (link s.other .red y uncle inner) outer)) := by
  have turned : Shape h rest (plug ctx (link s.other .black y uncle (link s.other .red x inner outer))) := by
    rwa [link_other, link_other]
  simp only [ends_bind, ends_getParent, ends_pure]
  refine (rotateHere_spec turned).mono fun _ h₁ shape₁ => ?_
  refine (setColor_spec shape₁.focus_near .red).mono fun _ h₂ shape₂ => ?_
  rw [shape₂.record, cell_parent]
  refine ⟨by rintro ⟨⟩, (setColor_spec shape₂.unfocus_near .black).mono fun _ h₃ shape₃ => ?_⟩
  exact ⟨trivial, shape₃⟩

/-- The uncle is black and the red child of `x` hangs on the outside: one rotation. -/
theorem balanceSide_outer {inner : ColorTree ι}
    (shape : Shape h rest (plug ctx (link s .black y (link s .red x outer inner) uncle)))
    (uncleBlack : uncle.color = .black) (innerBlack : inner.color = .black) :
    Ends (balanceSide s (.node x) (.node y)) h fun result h' => result = .inr () ∧
      Shape h' rest (plug ctx (link s.other .black x (link s.other .red y uncle inner) outer)) := by
  have rotated := balance_rotate shape
  have uncleColor := shape.focus_far.color
  have innerColor := shape.focus_near.focus_far.color
  rw [uncleBlack, nodeColor_black] at uncleColor
  rw [innerBlack, nodeColor_black] at innerColor
  simp only [balanceSide, ends_bind, ends_getChild, ends_getColor, shape.record, shape.focus_near.record,
    cell_child_other, uncleColor, innerColor, ptr_ne_null, ends_ite, if_false, ne_eq, reduceCtorEq, not_false_eq_true,
    true_and] at rotated ⊢
  exact rotated

/-- The uncle is black and the red child of `x` hangs on the inside: it rises twice. -/
theorem balanceSide_inner {z : ι}
    (shape : Shape h rest (plug ctx (link s .black y (link s .red x outer (link s .red z a b)) uncle)))
    (uncleBlack : uncle.color = .black) :
    Ends (balanceSide s (.node x) (.node y)) h fun result h' => result = .inr () ∧
      Shape h' rest (plug ctx (link s.other .black z (link s.other .red y uncle b) (link s .red x outer a))) := by
  have uncleColor := shape.focus_far.color
  have innerColor := shape.focus_near.focus_far.color
  rw [uncleBlack, nodeColor_black] at uncleColor
  simp only [color_link, nodeColor_red, ptr_link] at innerColor
  simp only [balanceSide, ends_bind, ends_getChild, ends_getColor, shape.record, shape.focus_near.record,
    cell_child_other, uncleColor, innerColor, ptr_link, ptr_ne_null, ends_ite, if_false, if_true, ne_eq, reduceCtorEq,
    not_false_eq_true, true_and]
  refine (rotate_spec shape.focus_near).mono fun _ h₁ shape₁ => ?_
  have rotated := balance_rotate shape₁.unfocus_near
  simpa only [ends_bind] using rotated

variable {c : Color} {k : ℕ}

/-- Either branch of the loop, from a red node below a black one, with a red child. -/
theorem balanceSide_spec {d : Side} {sibling : ColorTree ι}
    (shape : Shape h rest (plug ctx (link s .black y (link d .red x t sibling) uncle)))
    (red : t.Balanced .red k) (black : sibling.Balanced .black k) (beside : uncle.Balanced c k)
    (hole : Hole ctx .black (k + 1)) :
    Ends (balanceSide s (.node x) (.node y)) h
      (Round (BalanceInv rest (plug ctx (link s .black y (link d .red x t sibling) uncle)).labels)
        (fun _ => BalanceDone rest (plug ctx (link s .black y (link d .red x t sibling) uncle)).labels)
        (ctx.length + 2)) := by
  cases c with
  | red =>
    obtain ⟨u, a, b, rfl, near, far⟩ := beside.exists_red s
    refine (balanceSide_red shape).mono fun result h' after => ?_
    obtain ⟨rfl, shape'⟩ := after
    refine ⟨ctx.length, by omega, ctx, _, k + 1, rfl, rfl, shape', ?_, hole, ?_⟩
    · exact (red.link_black black).link_red (near.link_black far)
    · exact labels_plug_congr ctx (by cases s <;> cases d <;> simp [link, labels])
  | black =>
    by_cases same : d = s
    · subst same
      refine (balanceSide_outer shape beside.color_eq black.color_eq).mono fun result h' after => ?_
      obtain ⟨rfl, shape'⟩ := after
      obtain ⟨m, balanced⟩ := hole.plug ((beside.link_red black).link_black red)
      exact ⟨_, _, m, shape', balanced, labels_plug_congr ctx (by cases d <;> simp [link, labels, Side.other])⟩
    · -- The red child is on the inside; it has a red node's two black subtrees itself.
      obtain ⟨z, a, b, rfl, near, far⟩ := red.exists_red s
      have away : d = s.other := by cases s <;> cases d <;> simp_all [Side.other]
      subst away
      rw [link_other] at shape ⊢
      refine (balanceSide_inner shape beside.color_eq).mono fun result h' after => ?_
      obtain ⟨rfl, shape'⟩ := after
      obtain ⟨m, balanced⟩ := hole.plug ((beside.link_red far).link_black (black.link_red near))
      exact ⟨_, _, m, shape', balanced, labels_plug_congr ctx (by cases s <;> simp [link, labels, Side.other])⟩

theorem balanceRound_spec {order : List ι} (n : ℕ) (current : Ref ι) (h : Heap ι)
    (inv : BalanceInv rest order n current h) :
    Ends (balanceRound current) h (Round (BalanceInv rest order) (fun _ => BalanceDone rest order) n) := by
  obtain ⟨ctx, t, k, rfl, rfl, shape, red, hole, rfl⟩ := inv
  cases hole with
  | top =>
    have root := (shape_plug.mp shape).path
    simp only [balanceRound, ends_bind, ends_getColor, above, show h .root = _ from root, if_true, ends_pure, ne_eq,
      reduceCtorEq, not_false_eq_true, true_and]
    exact ⟨t, .red, k, shape, red, rfl⟩
  | @black s x sibling ctx _ _ d outer beside =>
    simp only [balanceRound, ends_bind, ends_getColor, above, shape.unfocus_near.record, cell_color, nodeColor_black,
      if_true, ends_pure, ne_eq, reduceCtorEq, not_false_eq_true, true_and]
    obtain ⟨m, balanced⟩ := (Hole.black outer beside : Hole (⟨s, .black, x, sibling⟩ :: ctx) .red k).plug red
    exact ⟨_, .black, m, shape, balanced, rfl⟩
  | @red s x sibling ctx _ outer beside =>
    cases outer with
    | @black s' y uncle ctx _ _ d outer uncleBalanced =>
      have whole : Shape h rest (plug ctx (link s' .black y (link s .red x t sibling) uncle)) := shape
      have record := whole.record
      rw [ptr_link] at record
      simp only [balanceRound, ends_bind, ends_getColor, ends_getParent, ends_getChild, above,
        shape.unfocus_near.record, cell_color, cell_parent, nodeColor_red, ends_ite, if_false, ne_eq, reduceCtorEq,
        not_false_eq_true, true_and]
      have child : (h (.node y)).child .right = .node x ↔ .right = s' := whole.focus_near.child_above .right
      have branch := balanceSide_spec whole red beside uncleBalanced outer
      cases s' with
      | left =>
        rw [if_neg fun here => by cases child.mp here]
        exact branch
      | right =>
        rw [if_pos (child.mpr rfl)]
        exact branch

/-- `RBTreeNode_Balance` restores the balance, up to the colour of the root. -/
theorem rbTreeNodeBalance_spec {fuel : ℕ} (shape : Shape h rest (plug ctx t))
    (red : t.Balanced .red k) (hole : Hole ctx .black k) (enough : ctx.length < fuel) :
    Ends (rbTreeNodeBalance fuel (above ctx)) h fun _ => BalanceDone rest (plug ctx t).labels :=
  Ends.loop balanceRound_spec ⟨ctx, t, k, rfl, rfl, shape, red, hole, rfl⟩ enough

/-! ## The descent -/

section Descent

variable {compare : κ → ι → ℤ} {data : κ}

/-- Labels in an order in which the data, once it comes before a label, comes before all later ones. -/
def Ascending (compare : κ → ι → ℤ) (data : κ) (labels : List ι) : Prop :=
  labels.Pairwise fun a b => compare data a < 0 → compare data b < 0

/-- The data belongs into the hole. -/
structure Between (compare : κ → ι → ℤ) (data : κ) (ctx : List (Frame ι)) : Prop where
  left : ∀ z ∈ leftOf ctx, ¬compare data z < 0
  right : ∀ z ∈ rightOf ctx, compare data z < 0

omit [DecidableEq ι] in
theorem Ascending.subtree (ascending : Ascending compare data (plug ctx t).labels) :
    Ascending compare data t.labels := by
  rw [labels_plug] at ascending
  exact (List.pairwise_append.mp (List.pairwise_append.mp ascending).1).2.1

omit [DecidableEq ι] in
/-- Going left of a node after which the data does not come. -/
theorem Between.goLeft {l r : ColorTree ι} (between : Between compare data ctx)
    (ascending : Ascending compare data (node c l y r).labels) (before : compare data y < 0) :
    Between compare data (⟨.left, c, y, r⟩ :: ctx) := by
  refine ⟨between.left, ?_⟩
  have later := (List.pairwise_cons.mp (List.pairwise_append.mp ascending).2.1).1
  intro z member
  simp only [rightOf, List.cons_append, List.mem_cons, List.mem_append] at member
  rcases member with rfl | inside | outside
  · exact before
  · exact later z inside before
  · exact between.right z outside

omit [DecidableEq ι] in
/-- Going right of a node before which the data does not come. -/
theorem Between.goRight {l r : ColorTree ι} (between : Between compare data ctx)
    (ascending : Ascending compare data (node c l y r).labels) (after : ¬compare data y < 0) :
    Between compare data (⟨.right, c, y, l⟩ :: ctx) := by
  refine ⟨?_, between.right⟩
  have earlier := (List.pairwise_append.mp ascending).2.2
  intro z member
  simp only [leftOf, List.mem_append, List.mem_singleton] at member
  rcases member with (outside | inside) | rfl
  · exact between.left z outside
  · exact fun before => after (earlier z inside y List.mem_cons_self before)
  · exact after

/-- What the descent of `RBTree_Add` maintains; it writes nothing before it ends. -/
def AttachInv (compare : κ → ι → ℤ) (data : κ) (whole : ColorTree ι) (h₀ : Heap ι) (n : ℕ) (current : Ref ι)
    (h : Heap ι) : Prop :=
  h = h₀ ∧ ∃ ctx c l y r, whole = plug ctx (node c l y r) ∧ current = .node y ∧ Between compare data ctx ∧
    n = (node c l y r).labels.length

/-- What it leaves behind: the new node in the hole where the data belongs. -/
def Attached (compare : κ → ι → ℤ) (data : κ) (rest : ι → Cell ι) (whole : ColorTree ι) (x : ι) (current : Ref ι)
    (h : Heap ι) : Prop :=
  ∃ ctx, whole = plug ctx nil ∧ current = above ctx ∧ Between compare data ctx ∧
    Shape h rest (plug ctx (node .red nil x nil))

theorem attachSide_spec {whole : ColorTree ι} (shape : Shape h rest whole) (absent : x ∉ whole.labels)
    {p : Ref ι} (fresh : rest x = ⟨.sentinel, .sentinel, p, .red⟩)
    (here : whole = plug ctx (link s c y a b)) (between : Between compare data (⟨s, c, y, b⟩ :: ctx)) :
    Ends (attachSide s (.node x) (.node y)) h
      (Round (AttachInv compare data whole h) (Attached compare data rest whole x)
        (link s c y a b).labels.length) := by
  subst here
  simp only [attachSide, ends_bind, ends_getChild, shape.record, cell_child, ends_ite, ne_eq, reduceCtorEq,
    not_false_eq_true, true_and]
  cases a with
  | nil =>
    simp only [ptr_nil, if_true, ends_setChild, ends_setParent, ends_pure, ne_eq, reduceCtorEq, not_false_eq_true,
      true_and]
    refine ⟨⟨s, c, y, b⟩ :: ctx, rfl, rfl, between, shape.focus_near.attach ?_ fresh⟩
    intro member
    exact absent ((labels_plug_perm (⟨s, c, y, b⟩ :: ctx) nil).mem_iff.mpr (List.mem_append_right _ member))
  | node d l z r =>
    rw [if_neg (by simp [ptr]), ends_pure]
    have shorter : (node d l z r).labels.length < (link s c y (node d l z r) b).labels.length := by
      rw [(labels_link_perm ..).length_eq, List.length_cons, List.length_append]
      omega
    exact ⟨_, shorter, rfl, _, d, l, z, r, rfl, rfl, between, rfl⟩

theorem attachRound_spec {whole : ColorTree ι} (shape : Shape h rest whole) (absent : x ∉ whole.labels)
    {p : Ref ι} (fresh : rest x = ⟨.sentinel, .sentinel, p, .red⟩) (ascending : Ascending compare data whole.labels)
    (n : ℕ) (current : Ref ι) (h' : Heap ι) (inv : AttachInv compare data whole h n current h') :
    Ends (attachRound compare (.node x) data current) h'
      (Round (AttachInv compare data whole h) (Attached compare data rest whole x) n) := by
  obtain ⟨rfl, ctx, c, l, y, r, here, rfl, between, rfl⟩ := inv
  have ordered := Ascending.subtree (here ▸ ascending)
  simp only [attachRound, compareWith, ends_bind, ends_pure, ends_ite]
  split
  · next before =>
    exact attachSide_spec shape absent fresh (s := .left) here (between.goLeft ordered before)
  · next after =>
    exact attachSide_spec shape absent fresh (s := .right) here (between.goRight ordered after)

/-- The new label stands after those the data does not come before, and before the others. -/
def InsertedAt (compare : κ → ι → ℤ) (data : κ) (x : ι) (old new : List ι) : Prop :=
  ∃ before after, old = before ++ after ∧ new = before ++ x :: after ∧
    (∀ z ∈ before, ¬compare data z < 0) ∧ ∀ z ∈ after, compare data z < 0

omit [DecidableEq ι] in
theorem Between.insertedAt (between : Between compare data ctx) (x : ι) (c : Color) :
    InsertedAt compare data x (plug ctx nil).labels (plug ctx (node c nil x nil)).labels := by
  refine ⟨leftOf ctx, rightOf ctx, ?_, ?_, between.left, between.right⟩
  · rw [labels_plug, labels_nil, List.append_nil]
  · rw [labels_plug, labels, labels_nil, List.nil_append, List.append_assoc, List.singleton_append]

/-- What `RBTree_Add` leaves behind: a balanced tree with the new label in its place. -/
def Added (compare : κ → ι → ℤ) (data : κ) (rest : ι → Cell ι) (x : ι) (old : List ι) (h : Heap ι) : Prop :=
  ∃ rest' t k, (∀ z, z ≠ x → rest' z = rest z) ∧ Shape h rest' t ∧ t.Balanced .black k ∧
    InsertedAt compare data x old t.labels

/-- The root is painted black at the end, whatever the rotations left there. -/
theorem blackenRoot_spec {old order : List ι} {rest' : ι → Cell ι} (same : ∀ z, z ≠ x → rest' z = rest z)
    (inserted : InsertedAt compare data x old order) (done : BalanceDone rest' order h) :
    Ends (do setColor (← getChild .left .root) .black; return true) h fun added h' =>
      added = true ∧ Added compare data rest x old h' := by
  obtain ⟨t, c, k, shape, balanced, rfl⟩ := done
  cases t with
  | nil =>
    obtain ⟨before, after, -, new, -⟩ := inserted
    simp at new
  | node d l y r =>
    have painted : Shape h rest' (plug [] (link .left d y l r)) := shape
    obtain ⟨m, black⟩ := ColorTree.Balanced.blacken (s := .left) balanced
    simp only [ends_bind, ends_getChild, shape.root, mk_child_left, ptr, ends_pure, ne_eq, reduceCtorEq,
      not_false_eq_true, true_and]
    refine (setColor_spec painted .black).mono fun _ h' shape' => ?_
    exact ⟨rest', _, m, same, shape', black, inserted⟩

/-- `RBTree_Add` of an unassigned node: the labels get it in its place, and the tree stays balanced. -/
theorem rbTreeAdd_spec (shape : Shape h rest t) (balanced : t.Balanced .black k)
    (absent : x ∉ t.labels) (unassigned : (rest x).color = .unassigned)
    (ascending : Ascending compare data t.labels) {fuel : ℕ} (enough : t.labels.length < fuel) :
    Ends (rbTreeAdd fuel compare (.node x) data) h fun added h' =>
      added = true ∧ Added compare data rest x t.labels h' := by
  have color : (h (.node x)).color = .unassigned := by rw [shape.others x absent, unassigned]
  -- The new node's record is written while it is still outside the tree.
  have shape₁ := ((shape.modify_other absent (·.setColor .red)).modify_other absent
    (·.setChild .left .sentinel)).modify_other absent (·.setChild .right .sentinel)
  simp only [Function.update_idem, Function.update_self] at shape₁
  generalize freshRest : Function.update rest x _ = rest₁ at shape₁
  have fresh : rest₁ x = ⟨.sentinel, .sentinel, (rest x).parent, .red⟩ := by
    rw [← freshRest, Function.update_self]
    rfl
  have same : ∀ z, z ≠ x → rest₁ z = rest z := fun z other => by rw [← freshRest, Function.update_of_ne other]
  simp only [rbTreeAdd, ends_bind, ends_getColor, color, not_true, if_false, ends_setColor, ends_setChild, ends_getChild,
    ne_eq, reduceCtorEq, not_false_eq_true, true_and, ends_ite]
  generalize ((h.modify _ _).modify _ _).modify _ _ = h₁ at shape₁ ⊢
  have finish := fun order h' (inserted : InsertedAt compare data x t.labels order) (done : BalanceDone rest₁ order h') =>
    blackenRoot_spec same inserted done
  simp only [ends_bind, ends_getChild, ends_setColor, ne_eq, reduceCtorEq, not_false_eq_true, true_and] at finish
  rw [shape₁.root, mk_child_left]
  have between : Between compare data ([] : List (Frame ι)) := ⟨by rintro _ ⟨⟩, by rintro _ ⟨⟩⟩
  cases t with
  | nil =>
    have hole : Shape h₁ rest₁ (plug [] nil) := shape₁
    simp only [ptr_nil, if_true, ends_setParent, ne_eq, reduceCtorEq, not_false_eq_true, true_and]
    exact finish _ _ (between.insertedAt x .red) ⟨_, .red, 0, hole.attach List.not_mem_nil fresh, .red .nil .nil, rfl⟩
  | node c l y r =>
    rw [if_neg (by simp [ptr])]
    refine (Ends.loop (attachRound_spec shape₁ absent fresh ascending)
      ⟨rfl, [], c, l, y, r, rfl, rfl, between, rfl⟩ enough).mono fun current h₂ attached => ?_
    obtain ⟨ctx, whole, rfl, place, shape₂⟩ := attached
    obtain ⟨c', n, empty, hole⟩ := ColorTree.Balanced.focus (whole ▸ balanced)
    cases empty
    have deep : ctx.length < fuel := by
      have := length_le_labels ctx nil
      rw [← whole] at this
      omega
    refine (rbTreeNodeBalance_spec shape₂ (.red .nil .nil) hole deep).mono fun _ h₃ done => ?_
    exact finish _ _ (whole ▸ place.insertedAt x .red) done

end Descent

end DaemonProxy.Proofs
