import Mathlib.Algebra.Group.Nat.Defs
import Mathlib.Data.List.Nodup
import Mathlib.Data.List.Perm.Basic

/-! # Red-black trees and their contexts

A tree is taken apart at any of its nodes into the subtree there and the path above it, a list of
frames with the nearest ancestor first. A rotation or a change of colour rewrites the subtree and
leaves the path alone. `Balanced` is the red-black condition of a subtree, with the colour of its
root and its black height; `Hole` says of a path which subtrees complete it to a balanced tree with
a black root. Mirror images are one case: `link` puts its first subtree on the given side.
-/

namespace DaemonProxy.Lib

inductive Side where
  | left
  | right
deriving DecidableEq, Repr

namespace Side

/-- The opposite side. -/
def other : Side → Side
  | left => right
  | right => left

@[simp] theorem other_ne (s : Side) : s.other ≠ s := by cases s <;> decide

end Side

inductive Color where
  | red
  | black
deriving DecidableEq, Repr

inductive ColorTree (ι : Type*) where
  | nil
  | node (color : Color) (left : ColorTree ι) (label : ι) (right : ColorTree ι)

namespace ColorTree

variable {ι : Type*}

/-- The node with the subtree `near` on side `s` and `far` on the other one. -/
def link (s : Side) (c : Color) (x : ι) (near far : ColorTree ι) : ColorTree ι :=
  match s with
  | .left => node c near x far
  | .right => node c far x near

theorem link_other (s : Side) (c : Color) (x : ι) (a b : ColorTree ι) :
    link s.other c x a b = link s c x b a := by cases s <;> rfl

theorem exists_link (s : Side) (c : Color) (l : ColorTree ι) (x : ι) (r : ColorTree ι) :
    ∃ a b, node c l x r = link s c x a b := by
  cases s with
  | left => exact ⟨l, r, rfl⟩
  | right => exact ⟨r, l, rfl⟩

/-- The labels from left to right. -/
def labels : ColorTree ι → List ι
  | nil => []
  | node _ l x r => l.labels ++ x :: r.labels

@[simp] theorem labels_nil : (nil : ColorTree ι).labels = [] := rfl

theorem labels_link_perm (s : Side) (c : Color) (x : ι) (a b : ColorTree ι) :
    (link s c x a b).labels.Perm (x :: (a.labels ++ b.labels)) := by
  cases s with
  | left => exact List.perm_middle
  | right => exact List.perm_middle.trans (List.perm_append_comm.cons x)

@[simp] theorem mem_labels_link {s : Side} {c : Color} {x y : ι} {a b : ColorTree ι} :
    y ∈ (link s c x a b).labels ↔ y = x ∨ y ∈ a.labels ∨ y ∈ b.labels := by
  rw [(labels_link_perm s c x a b).mem_iff, List.mem_cons, List.mem_append]

/-- The labels of a node and of its two subtrees are apart. -/
theorem nodup_link {s : Side} {c : Color} {x : ι} {a b : ColorTree ι} :
    (link s c x a b).labels.Nodup ↔
      (x ∉ a.labels ∧ x ∉ b.labels) ∧ a.labels.Nodup ∧ b.labels.Nodup ∧ ∀ y ∈ a.labels, y ∉ b.labels := by
  rw [(labels_link_perm s c x a b).nodup_iff, List.nodup_cons, List.nodup_append', List.mem_append, not_or]
  rfl

theorem labels_link_color (s : Side) (c c' : Color) (x : ι) (a b : ColorTree ι) :
    (link s c x a b).labels = (link s c' x a b).labels := by cases s <;> rfl

/-- A rotation keeps the order of the labels. -/
theorem labels_rotate (s : Side) (c c' : Color) (x y : ι) (a b d : ColorTree ι) :
    (link s c' y (link s c x a b) d).labels = (link s c x a (link s c' y b d)).labels := by
  cases s <;> simp [link, labels]

/-- The colour of the root; the empty tree counts as black. -/
def color : ColorTree ι → Color
  | nil => .black
  | node c _ _ _ => c

@[simp] theorem color_link (s : Side) (c : Color) (x : ι) (a b : ColorTree ι) : (link s c x a b).color = c := by
  cases s <;> rfl

/-- No red node has a red child, and every path to an empty subtree has `n` black nodes. -/
inductive Balanced : ColorTree ι → Color → ℕ → Prop
  | nil : Balanced nil .black 0
  | red {l r : ColorTree ι} {x : ι} {n : ℕ} :
      Balanced l .black n → Balanced r .black n → Balanced (node .red l x r) .red n
  | black {l r : ColorTree ι} {x : ι} {n : ℕ} {c d : Color} :
      Balanced l c n → Balanced r d n → Balanced (node .black l x r) .black (n + 1)

namespace Balanced

variable {t a b : ColorTree ι} {c d : Color} {n : ℕ} {s : Side} {x : ι}

theorem color_eq (balanced : t.Balanced c n) : t.color = c := by cases balanced <;> rfl

theorem link_red (near : a.Balanced .black n) (far : b.Balanced .black n) : (link s .red x a b).Balanced .red n := by
  cases s with
  | left => exact red near far
  | right => exact red far near

theorem link_black (near : a.Balanced c n) (far : b.Balanced d n) :
    (link s .black x a b).Balanced .black (n + 1) := by
  cases s with
  | left => exact black near far
  | right => exact black far near

theorem of_link_red (balanced : (link s .red x a b).Balanced c n) :
    c = .red ∧ a.Balanced .black n ∧ b.Balanced .black n := by
  cases s with
  | left => cases balanced with | red near far => exact ⟨rfl, near, far⟩
  | right => cases balanced with | red far near => exact ⟨rfl, near, far⟩

theorem of_link_black (balanced : (link s .black x a b).Balanced c n) :
    ∃ m c₁ c₂, n = m + 1 ∧ c = .black ∧ a.Balanced c₁ m ∧ b.Balanced c₂ m := by
  cases s with
  | left => cases balanced with | black near far => exact ⟨_, _, _, rfl, rfl, near, far⟩
  | right => cases balanced with | black far near => exact ⟨_, _, _, rfl, rfl, near, far⟩

/-- A balanced tree with a red root is a red node above black ones. -/
theorem exists_red (s : Side) (balanced : t.Balanced .red n) :
    ∃ x a b, t = link s .red x a b ∧ a.Balanced .black n ∧ b.Balanced .black n := by
  cases balanced with
  | @red l r x _ left right =>
    obtain ⟨a, b, same⟩ := exists_link s .red l x r
    obtain ⟨-, near, far⟩ := (same ▸ red left right : (link s .red x a b).Balanced .red n).of_link_red
    exact ⟨x, a, b, same, near, far⟩

/-- A balanced tree of positive black height with a black root is a black node. -/
theorem exists_black (s : Side) (balanced : t.Balanced .black (n + 1)) :
    ∃ x a b c₁ c₂, t = link s .black x a b ∧ a.Balanced c₁ n ∧ b.Balanced c₂ n := by
  cases balanced with
  | @black l r x _ _ _ left right =>
    obtain ⟨a, b, same⟩ := exists_link s .black l x r
    obtain ⟨m, c₁, c₂, height, -, near, far⟩ :=
      (same ▸ black left right : (link s .black x a b).Balanced .black (n + 1)).of_link_black
    obtain rfl := Nat.succ.inj height
    exact ⟨x, a, b, c₁, c₂, same, near, far⟩

/-- A balanced tree stays balanced when its root is painted black. -/
theorem blacken (balanced : (link s c x a b).Balanced d n) : ∃ m, (link s .black x a b).Balanced .black m := by
  cases c with
  | red =>
    obtain ⟨-, near, far⟩ := balanced.of_link_red
    exact ⟨_, near.link_black far⟩
  | black =>
    obtain ⟨m, c₁, c₂, -, -, near, far⟩ := balanced.of_link_black
    exact ⟨_, near.link_black far⟩

theorem relabel {l r : ColorTree ι} (balanced : (node c l x r).Balanced d n) (y : ι) :
    (node c l y r).Balanced d n := by
  cases balanced with
  | red left right => exact red left right
  | black left right => exact black left right

theorem eq_nil (balanced : t.Balanced .black 0) : t = ColorTree.nil := by
  cases balanced
  rfl

/-- A tree without black nodes has at most one node. -/
theorem height_zero (balanced : t.Balanced c 0) :
    t = ColorTree.nil ∨ ∃ x, t = node .red ColorTree.nil x ColorTree.nil := by
  cases balanced with
  | nil => exact .inl rfl
  | red left right =>
    obtain rfl := left.eq_nil
    obtain rfl := right.eq_nil
    exact .inr ⟨_, rfl⟩

/-- Beside an empty subtree there are no black nodes. -/
theorem height_eq_zero (near : a.Balanced c n) (far : b.Balanced d n)
    (empty : a = ColorTree.nil ∨ b = ColorTree.nil) : n = 0 := by
  rcases empty with rfl | rfl
  · cases near
    rfl
  · cases far
    rfl

end Balanced

/-- The number of nodes on the longest way down. -/
def depth : ColorTree ι → ℕ
  | nil => 0
  | node _ l _ r => max l.depth r.depth + 1

theorem depth_link (s : Side) (c : Color) (x : ι) (a b : ColorTree ι) : (link s c x a b).depth = max a.depth b.depth + 1 := by
  cases s with
  | left => rfl
  | right => exact congrArg (· + 1) (Nat.max_comm ..)

theorem depth_le_length (t : ColorTree ι) : t.depth ≤ t.labels.length := by
  induction t with
  | nil => exact Nat.le_refl 0
  | node c l x r left right =>
    simp only [depth, labels, List.length_append, List.length_cons]
    omega

/-- Red nodes at most double the way, and there are at least as many nodes as in a full tree of black ones. -/
theorem Balanced.depth_le {t : ColorTree ι} {c : Color} {n : ℕ} (balanced : t.Balanced c n) :
    t.depth ≤ 2 * n + (if c = .red then 1 else 0) ∧ 2 ^ n ≤ t.labels.length + 1 := by
  induction balanced with
  | nil => exact ⟨Nat.le_refl 0, Nat.le_refl 1⟩
  | red _ _ left right =>
    simp only [depth, labels, List.length_append, List.length_cons, reduceCtorEq, if_true, if_false] at left right ⊢
    omega
  | black _ _ left right =>
    simp only [depth, labels, List.length_append, List.length_cons, reduceCtorEq, if_false, Nat.pow_succ]
    split_ifs at left right <;> omega

end ColorTree

/-! ## Contexts -/

/-- One step of the path to a subtree: the subtree hangs on `side` of `label`. -/
structure Frame (ι : Type*) where
  side : Side
  color : Color
  label : ι
  sibling : ColorTree ι

section Contexts

open ColorTree

variable {ι : Type*}

/-- The tree with the subtree `t` at the end of a path. -/
def plug : List (Frame ι) → ColorTree ι → ColorTree ι
  | [], t => t
  | f :: ctx, t => plug ctx (link f.side f.color f.label t f.sibling)

@[simp] theorem plug_nil (t : ColorTree ι) : plug [] t = t := rfl

@[simp] theorem plug_cons (f : Frame ι) (ctx : List (Frame ι)) (t : ColorTree ι) :
    plug (f :: ctx) t = plug ctx (link f.side f.color f.label t f.sibling) := rfl

theorem plug_append (inner outer : List (Frame ι)) (t : ColorTree ι) :
    plug (inner ++ outer) t = plug outer (plug inner t) := by
  induction inner generalizing t with
  | nil => rfl
  | cons f inner ih => exact ih _

/-- The labels to the left of the hole. -/
def leftOf : List (Frame ι) → List ι
  | [] => []
  | f :: ctx =>
      match f.side with
      | .left => leftOf ctx
      | .right => leftOf ctx ++ f.sibling.labels ++ [f.label]

/-- The labels to the right of the hole. -/
def rightOf : List (Frame ι) → List ι
  | [] => []
  | f :: ctx =>
      match f.side with
      | .left => f.label :: f.sibling.labels ++ rightOf ctx
      | .right => rightOf ctx

theorem labels_plug (ctx : List (Frame ι)) (t : ColorTree ι) :
    (plug ctx t).labels = leftOf ctx ++ t.labels ++ rightOf ctx := by
  induction ctx generalizing t with
  | nil => simp [leftOf, rightOf]
  | cons f ctx ih =>
    rw [plug_cons, ih]
    obtain ⟨side, color, label, sibling⟩ := f
    cases side <;> simp [link, leftOf, rightOf, labels]

variable {t : ColorTree ι}

theorem labels_plug_congr (ctx : List (Frame ι)) {u : ColorTree ι} (same : t.labels = u.labels) :
    (plug ctx t).labels = (plug ctx u).labels := by rw [labels_plug, labels_plug, same]

/-- The labels on a path and in the subtrees beside it. -/
def pathLabels : List (Frame ι) → List ι
  | [] => []
  | f :: ctx => f.label :: (f.sibling.labels ++ pathLabels ctx)

theorem labels_plug_perm (ctx : List (Frame ι)) (t : ColorTree ι) :
    (plug ctx t).labels.Perm (t.labels ++ pathLabels ctx) := by
  induction ctx generalizing t with
  | nil => rw [plug_nil, pathLabels, List.append_nil]
  | cons f ctx ih =>
    rw [plug_cons, pathLabels]
    refine (ih _).trans (((labels_link_perm ..).append_right _).trans ?_)
    have moved : (f.label :: (t.labels ++ (f.sibling.labels ++ pathLabels ctx))).Perm
        (t.labels ++ f.label :: (f.sibling.labels ++ pathLabels ctx)) := List.perm_middle.symm
    simpa only [List.cons_append, List.append_assoc] using moved

theorem length_le_labels (ctx : List (Frame ι)) (t : ColorTree ι) : ctx.length ≤ (plug ctx t).labels.length := by
  rw [(labels_plug_perm ctx t).length_eq, List.length_append]
  refine Nat.le_trans ?_ (Nat.le_add_left _ _)
  induction ctx with
  | nil => exact Nat.le_refl 0
  | cons f ctx ih =>
    simp only [pathLabels, List.length_cons, List.length_append]
    omega

/-- Every label of a tree is the root of some subtree. -/
theorem exists_plug_of_mem {x : ι} (member : x ∈ t.labels) :
    ∃ ctx c l r, t = plug ctx (node c l x r) := by
  induction t with
  | nil => cases member
  | node c l y r leftIh rightIh =>
    rcases List.mem_append.mp member with inLeft | inRest
    · obtain ⟨ctx, d, l', r', rfl⟩ := leftIh inLeft
      exact ⟨ctx ++ [⟨.left, c, y, r⟩], d, l', r', by rw [plug_append]; rfl⟩
    · rcases List.mem_cons.mp inRest with rfl | inRight
      · exact ⟨[], c, l, r, rfl⟩
      · obtain ⟨ctx, d, l', r', rfl⟩ := rightIh inRight
        exact ⟨ctx ++ [⟨.right, c, y, l⟩], d, l', r', by rw [plug_append]; rfl⟩

/-- The paths that a balanced subtree with root colour `c` and black height `n` completes to a
balanced tree with a black root. -/
inductive Hole : List (Frame ι) → Color → ℕ → Prop
  | top {n : ℕ} : Hole [] .black n
  | red {s : Side} {x : ι} {sibling : ColorTree ι} {ctx : List (Frame ι)} {n : ℕ} :
      Hole ctx .red n → sibling.Balanced .black n → Hole (⟨s, .red, x, sibling⟩ :: ctx) .black n
  | black {s : Side} {x : ι} {sibling : ColorTree ι} {ctx : List (Frame ι)} {n : ℕ} {c d : Color} :
      Hole ctx .black (n + 1) → sibling.Balanced d n → Hole (⟨s, .black, x, sibling⟩ :: ctx) c n

variable {ctx : List (Frame ι)} {n : ℕ}

theorem Hole.plug {c : Color} (hole : Hole ctx c n)
    (balanced : t.Balanced c n) : ∃ m, (plug ctx t).Balanced .black m := by
  induction hole generalizing t with
  | top => exact ⟨_, balanced⟩
  | red outer sibling ih => exact ih (balanced.link_red sibling)
  | black outer sibling ih => exact ih (balanced.link_black sibling)

/-- Where a red subtree fits, a black one does. -/
theorem Hole.of_red (hole : Hole ctx .red n) : Hole ctx .black n := by
  cases hole with
  | black outer sibling => exact .black outer sibling

/-- Under a path that ends in a node, any two black subtrees of the right height may hang below a node
of the same colour. -/
theorem Hole.relink {s s' : Side} {c : Color} {x y : ι} {sibling a b : ColorTree ι}
    (hole : Hole (⟨s, c, x, sibling⟩ :: ctx) .black n) (near : a.Balanced .black n) (far : b.Balanced .black n) :
    ∃ m, (Lib.plug ctx (link s' c y a b)).Balanced .black m := by
  cases hole with
  | red outer _ => exact outer.plug (near.link_red far)
  | black outer _ => exact outer.plug (near.link_black far)

/-- Each subtree of a balanced tree is balanced and fits its path. -/
theorem ColorTree.Balanced.focus {m : ℕ}
    (balanced : (plug ctx t).Balanced .black m) : ∃ c n, t.Balanced c n ∧ Hole ctx c n := by
  induction ctx generalizing t with
  | nil => exact ⟨_, _, balanced, .top⟩
  | cons f ctx ih =>
    obtain ⟨c, n, whole, hole⟩ := ih balanced
    obtain ⟨side, color, label, sibling⟩ := f
    cases color with
    | red =>
      obtain ⟨rfl, near, far⟩ := whole.of_link_red
      exact ⟨_, _, near, .red hole far⟩
    | black =>
      obtain ⟨k, c₁, c₂, rfl, rfl, near, far⟩ := whole.of_link_black
      exact ⟨_, _, near, .black hole far⟩

end Contexts

end DaemonProxy.Lib
