import DaemonProxy.Lib.RedBlack
import DaemonProxy.Lib.Total
import Mathlib.Data.Int.Notation

/-! # `Contained_RBTree.c`

Tree nodes live inside the objects they index and are linked by pointers. A pointer is null, the
shared `Sentinel`, the `RootSentinel` of the one tree considered, or the node of an object `ι`; the
heap gives each of them its fields, and following a null pointer fails. `Object` is left out: here a
node is named by its object. Functions that the source writes out once for each side are one
definition with the side as a parameter, and every loop runs on fuel.
-/

namespace DaemonProxy.Model

open Lib

/-- The values of `Color`. -/
inductive NodeColor where
  | unassigned
  | black
  | red
deriving DecidableEq, Repr

inductive Ref (ι : Type) where
  | null
  | sentinel
  | root
  | node (x : ι)
deriving DecidableEq, Repr

/-- `struct RBTreeNode_s`. -/
structure Cell (ι : Type) where
  left : Ref ι
  right : Ref ι
  parent : Ref ι
  color : NodeColor
deriving DecidableEq, Repr

namespace Cell

variable {ι : Type}

def child (c : Cell ι) : Side → Ref ι
  | .left => c.left
  | .right => c.right

def setChild (s : Side) (p : Ref ι) (c : Cell ι) : Cell ι :=
  match s with
  | .left => { c with left := p }
  | .right => { c with right := p }

def setParent (p : Ref ι) (c : Cell ι) : Cell ι := { c with parent := p }

def setColor (color : NodeColor) (c : Cell ι) : Cell ι := { c with color }

end Cell

abbrev Heap (ι : Type) := Ref ι → Cell ι

abbrev TreeM (ι : Type) := StateT (Heap ι) Option

section Pointers

variable {ι : Type} [DecidableEq ι]

/-- The heap with one record changed. -/
def Heap.modify (h : Heap ι) (p : Ref ι) (f : Cell ι → Cell ι) : Heap ι :=
  fun q => if q = p then f (h p) else h q

/-- The record behind a pointer. -/
def load (p : Ref ι) : TreeM ι (Cell ι) := fun h => if p = .null then none else some (h p, h)

def store (p : Ref ι) (f : Cell ι → Cell ι) : TreeM ι Unit :=
  fun h => if p = .null then none else some ((), h.modify p f)

def getChild (s : Side) (p : Ref ι) : TreeM ι (Ref ι) := return (← load p).child s

def getParent (p : Ref ι) : TreeM ι (Ref ι) := return (← load p).parent

def getColor (p : Ref ι) : TreeM ι NodeColor := return (← load p).color

def setChild (s : Side) (p q : Ref ι) : TreeM ι Unit := store p (·.setChild s q)

def setParent (p q : Ref ι) : TreeM ι Unit := store p (·.setParent q)

def setColor (p : Ref ι) (c : NodeColor) : TreeM ι Unit := store p (·.setColor c)

/-- `LeftSide= (Parent->Left == Node)`, as a side. -/
def sideOf (parent node : Ref ι) : TreeM ι Side := return if (← getChild .left parent) = node then .left else .right

end Pointers

section Rotations

variable {ι : Type} [DecidableEq ι]

/-- The body that the four rotations share: `node` hangs on `side` and moves down to side `dir`. -/
def rotate (side dir : Side) (node : Ref ι) : TreeM ι Unit := do
  let parent ← getParent node
  let child ← getChild dir.other node
  setChild side parent child
  setParent child parent
  let grandchild ← getChild dir child
  setChild dir.other node grandchild
  setParent grandchild node
  setChild dir child node
  setParent node child

def rbTreeNodeRightSideRightRotate (node : Ref ι) : TreeM ι Unit := rotate .right .right node

def rbTreeNodeLeftSideLeftRotate (node : Ref ι) : TreeM ι Unit := rotate .left .left node

def rbTreeNodeLeftSideRightRotate (node : Ref ι) : TreeM ι Unit := rotate .left .right node

def rbTreeNodeRightSideLeftRotate (node : Ref ι) : TreeM ι Unit := rotate .right .left node

/-- A rotation on the side where `node` hangs. -/
def rotateHere (dir : Side) (node : Ref ι) : TreeM ι Unit := do
  if (← getChild .left (← getParent node)) = node then rotate .left dir node else rotate .right dir node

def rbTreeNodeRightRotate (node : Ref ι) : TreeM ι Unit := rotateHere .right node

def rbTreeNodeLeftRotate (node : Ref ι) : TreeM ι Unit := rotateHere .left node

end Rotations

section Walks

variable {ι : Type} [DecidableEq ι]

/-- `while (Node->side != &Sentinel) Node= Node->side`. -/
def descendRound (s : Side) (node : Ref ι) : TreeM ι (Ref ι ⊕ Ref ι) := do
  let next ← getChild s node
  if next = .sentinel then return .inr node else return .inl next

def descend (fuel : ℕ) (s : Side) (node : Ref ι) : TreeM ι (Ref ι) := loop (descendRound s) fuel node

def rbTreeNodeGetLeftmost (fuel : ℕ) (node : Ref ι) : TreeM ι (Ref ι) := descend fuel .left node

def rbTreeNodeGetRightmost (fuel : ℕ) (node : Ref ι) : TreeM ι (Ref ι) := descend fuel .right node

/-- One round of the walk up in `RBTreeNode_GetPrev`, on `(Node, Parent)`. -/
def prevRound : Ref ι × Ref ι → TreeM ι ((Ref ι × Ref ι) ⊕ Ref ι)
  | (node, parent) => do
      if (← getChild .left parent) = node then
        let above ← getParent parent
        if above = .null then return .inr .null else return .inl (parent, above)
      else return .inr parent

def rbTreeNodeGetPrev (fuel : ℕ) (node : Ref ι) : TreeM ι (Ref ι) := do
  let left ← getChild .left node
  if left ≠ .sentinel then descend fuel .right left
  else loop prevRound fuel (node, ← getParent node)

/-- One round of the walk up in `RBTreeNode_GetNext`, on `(Node, Parent)`. -/
def nextRound : Ref ι × Ref ι → TreeM ι ((Ref ι × Ref ι) ⊕ Ref ι)
  | (node, parent) => do
      if (← getChild .right parent) = node then return .inl (parent, ← getParent parent)
      else return .inr parent

def rbTreeNodeGetNext (fuel : ℕ) (node : Ref ι) : TreeM ι (Ref ι) := do
  let right ← getChild .right node
  if right ≠ .sentinel then descend fuel .left right
  else
    let parent ← loop nextRound fuel (node, ← getParent node)
    if (← getParent parent) = .null then return .null else return parent

/-- One round of the loop of `RBTree_Clear`. -/
def clearRound (fuel : ℕ) (temp : Ref ι) : TreeM ι (Ref ι ⊕ Unit) := do
  if temp = .sentinel then return .inr ()
  else
    setColor temp .unassigned
    return .inl (← rbTreeNodeGetNext fuel temp)

def rbTreeClear (fuel : ℕ) : TreeM ι Unit := do
  let temp ← rbTreeNodeGetLeftmost fuel (← getChild .left .root)
  loop (clearRound fuel) fuel temp
  setChild .left .root .sentinel

end Walks

section Insertion

variable {ι κ : Type} [DecidableEq ι]

def rbTreeNodeInit (node : Ref ι) : TreeM ι Unit := setColor node .unassigned

/-- `RBTree_Init`, in memory `h`. -/
def rbTreeInit (h : Heap ι) : Heap ι :=
  h.modify .root fun _ => ⟨.sentinel, .sentinel, .null, .black⟩

/-- The branches of `RBTreeNode_Balance` for `current` on side `s` of its parent. -/
def balanceSide (s : Side) (current parent : Ref ι) : TreeM ι (Ref ι ⊕ Unit) := do
  let sibling ← getChild s.other parent
  if (← getColor sibling) = .red then
    setColor sibling .black
    setColor current .black
    setColor parent .red
    return .inl (← getParent parent)
  else
    if (← getColor (← getChild s.other current)) = .red then rotate s s current
    rotateHere s.other parent
    setColor parent .red
    setColor (← getParent parent) .black
    return .inr ()

/-- One round of the loop of `RBTreeNode_Balance`. -/
def balanceRound (current : Ref ι) : TreeM ι (Ref ι ⊕ Unit) := do
  if (← getColor current) = .black then return .inr ()
  else
    let parent ← getParent current
    if (← getChild .right parent) = current then balanceSide .right current parent
    else balanceSide .left current parent

def rbTreeNodeBalance (fuel : ℕ) (current : Ref ι) : TreeM ι Unit := loop balanceRound fuel current

/-- `Tree->Compare`, which reads the object of the node. -/
def compareWith (compare : κ → ι → ℤ) (data : κ) : Ref ι → TreeM ι ℤ
  | .node x => pure (compare data x)
  | _ => failure

/-- Going to side `s` of `current`, where the new node is attached if nothing hangs there. -/
def attachSide (s : Side) (newNode current : Ref ι) : TreeM ι (Ref ι ⊕ Ref ι) := do
  let next ← getChild s current
  if next = .sentinel then
    setChild s current newNode
    setParent newNode current
    return .inr current
  else return .inl next

def attachRound (compare : κ → ι → ℤ) (newNode : Ref ι) (data : κ) (current : Ref ι) : TreeM ι (Ref ι ⊕ Ref ι) := do
  if (← compareWith compare data current) < 0 then attachSide .left newNode current
  else attachSide .right newNode current

def rbTreeAdd (fuel : ℕ) (compare : κ → ι → ℤ) (newNode : Ref ι) (data : κ) : TreeM ι Bool := do
  if (← getColor newNode) ≠ .unassigned then return false
  else
    setColor newNode .red
    setChild .left newNode .sentinel
    setChild .right newNode .sentinel
    let current ← getChild .left .root
    if current = .sentinel then
      setChild .left .root newNode
      setParent newNode .root
    else
      let current ← loop (attachRound compare newNode data) fuel current
      rbTreeNodeBalance fuel current
    setColor (← getChild .left .root) .black
    return true

/-- `RBTreeSearch`: the nearest node and how the data compares with it. -/
structure RBTreeSearch (ι : Type) where
  nearest : Ref ι
  relation : ℤ
deriving DecidableEq, Repr

def findSide (s : Side) (current : Ref ι) (i : ℤ) : TreeM ι (Ref ι ⊕ RBTreeSearch ι) := do
  let next ← getChild s current
  if next = .sentinel then return .inr ⟨current, i⟩ else return .inl next

def findRound (compare : κ → ι → ℤ) (data : κ) (current : Ref ι) : TreeM ι (Ref ι ⊕ RBTreeSearch ι) := do
  let i ← compareWith compare data current
  if i < 0 then findSide .left current i
  else if i > 0 then findSide .right current i
  else return .inr ⟨current, 0⟩

def rbTreeFind (fuel : ℕ) (compare : κ → ι → ℤ) (data : κ) : TreeM ι (RBTreeSearch ι) := do
  let current ← getChild .left .root
  if current = .sentinel then return ⟨.null, -1⟩ else loop (findRound compare data) fuel current

end Insertion

section Deletion

variable {ι : Type} [DecidableEq ι]

/-- The variables of the loop of `RBTreeNode_PruneLeaf`. -/
structure PruneVars (ι : Type) where
  current : Ref ι
  parent : Ref ι
  sibling : Ref ι
  leftSide : Side

/-- `Sibling->Right` and then `Sibling->Left` are black. -/
def blackNephews (sibling : Ref ι) : TreeM ι Bool := do
  if (← getColor (← getChild .right sibling)) = .black then
    return decide ((← getColor (← getChild .left sibling)) = .black)
  else return false

/-- Case 1: a red sibling is rotated above the parent. -/
def pruneRedSibling (v : PruneVars ι) : TreeM ι (PruneVars ι) := do
  setColor v.parent .red
  setColor v.sibling .black
  rotateHere v.leftSide v.parent
  return { v with sibling := ← getChild v.leftSide.other v.parent }

/-- Case 2a: a black sibling with black children turns red, and the loop goes on one level up. -/
def pruneBlackSibling (v : PruneVars ι) : TreeM ι (PruneVars ι) := do
  setColor v.sibling .red
  let parent ← getParent v.parent
  let leftSide ← sideOf parent v.parent
  return ⟨v.parent, parent, ← getChild leftSide.other parent, leftSide⟩

/-- Cases 3 and 4: a black sibling with a red child is rotated above the parent. -/
def pruneRedNephew (v : PruneVars ι) : TreeM ι Unit := do
  let sibling ←
    if (← getColor (← getChild v.leftSide.other v.sibling)) = .black then do
      rotate v.leftSide.other v.leftSide.other v.sibling
      getChild v.leftSide.other v.parent
    else pure v.sibling
  setColor (← getChild v.leftSide.other sibling) .black
  setColor sibling (← getColor v.parent)
  setColor v.parent .black
  rotateHere v.leftSide v.parent

/-- One round of the loop of `RBTreeNode_PruneLeaf`: it goes on, returns from the function with
`none`, or ends with the current node in `some`. -/
def pruneRound (v : PruneVars ι) : TreeM ι (PruneVars ι ⊕ Option (Ref ι)) := do
  if (← getColor v.current) ≠ .black then return .inr (some v.current)
  else if (← getParent v.parent) = .null then return .inr (some v.current)
  else if (← getColor v.sibling) = .red then return .inl (← pruneRedSibling v)
  else if ← blackNephews v.sibling then return .inl (← pruneBlackSibling v)
  else
    pruneRedNephew v
    return .inr none

/-- The swap of a black node with its only child. -/
def replaceByChild (side : Side) (parent child : Ref ι) : TreeM ι Unit := do
  setColor child .black
  setParent child parent
  setChild side parent child

def rbTreeNodePruneLeaf (fuel : ℕ) (node : Ref ι) : TreeM ι Unit := do
  let parent ← getParent node
  let side ← sideOf parent node
  if (← getColor node) = .red then setChild side parent .sentinel
  else
    let left ← getChild .left node
    if left ≠ .sentinel then replaceByChild side parent left
    else
      let right ← getChild .right node
      if right ≠ .sentinel then replaceByChild side parent right
      else
        setChild side parent .sentinel
        let sibling ← getChild side.other parent
        match ← loop pruneRound fuel ⟨node, parent, sibling, side⟩ with
        | none => return ()
        | some current => setColor current .black

/-- `Current->Left == &Sentinel || Current->Right == &Sentinel`. -/
def lacksChild (node : Ref ι) : TreeM ι Bool := do
  if (← getChild .left node) = .sentinel then return true
  else return decide ((← getChild .right node) = .sentinel)

/-- The test for a successor that is black and has no child. -/
def isBlackLeaf (node : Ref ι) : TreeM ι Bool := do
  if (← getColor node) = .black then
    if (← getChild .left node) = .sentinel then return decide ((← getChild .right node) = .sentinel)
    else return false
  else return false

/-- The successor takes the place of `current`. -/
def exchange (current successor : Ref ι) : TreeM ι Unit := do
  let right ← getChild .right current
  setChild .right successor right
  setParent right successor
  let left ← getChild .left current
  setChild .left successor left
  setParent left successor
  let parent ← getParent current
  setParent successor parent
  setChild (← sideOf parent current) parent successor
  setColor successor (← getColor current)

def rbTreeNodePrune (fuel : ℕ) (current : Ref ι) : TreeM ι Bool := do
  if (← getColor current) = .unassigned then return false
  else
    if ← lacksChild current then rbTreeNodePruneLeaf fuel current
    else
      let next ← rbTreeNodeGetNext fuel current
      let successor ← if ← isBlackLeaf next then rbTreeNodeGetPrev fuel current else pure next
      rbTreeNodePruneLeaf fuel successor
      exchange current successor
    setColor current .unassigned
    return true

end Deletion

end DaemonProxy.Model
