import DaemonProxy.Lib.Total
import Mathlib.Data.List.Nodup
import Mathlib.Data.Option.Basic
import Mathlib.Logic.Function.Basic

/-! # Doubly linked lists threaded through their elements

Each element holds a pointer to the next one and the address of the cell that points to itself, which is the head of the
list or the `next` field of another element. `Represents` relates such pointers to a list. An element is put in front or
taken out in constant time, and a loop that reads the `next` field of an element before its body may take that element
out.
-/

namespace DaemonProxy.Lib

/-- A cell that can point to an element. -/
inductive LinkCell (ι : Type) where
  | head
  | next (x : ι)
  deriving DecidableEq, Repr

structure Links (ι : Type) where
  head : Option ι
  next : ι → Option ι
  prevPtr : ι → Option (LinkCell ι)

namespace Links

variable {ι : Type}

def empty : Links ι := ⟨none, fun _ => none, fun _ => none⟩

def read (l : Links ι) : LinkCell ι → Option ι
  | .head => l.head
  | .next x => l.next x

variable [DecidableEq ι]

/-- `*cell = value`. -/
def write (l : Links ι) (value : Option ι) : LinkCell ι → Links ι
  | .head => { l with head := value }
  | .next x => { l with next := Function.update l.next x value }

def setPrev (l : Links ι) (x : ι) (cell : Option (LinkCell ι)) : Links ι :=
  { l with prevPtr := Function.update l.prevPtr x cell }

/-- Puts an element in front. -/
def insert (l : Links ι) (x : ι) : Links ι :=
  let l' := l.write l.head (.next x)
  let l' := match l.head with
    | some first => l'.setPrev first (some (.next x))
    | none => l'
  (l'.write (some x) .head).setPrev x (some .head)

/-- Takes an element out. Its own `next` stays as it was. -/
def unlink (l : Links ι) (x : ι) : Links ι :=
  let l' := match l.next x with
    | some after => l.setPrev after (l.prevPtr x)
    | none => l
  let l' := match l.prevPtr x with
    | some cell => l'.write (l.next x) cell
    | none => l'
  l'.setPrev x none

/-- Puts an element in front unless it is on the list, or takes it out if it is. -/
def set (l : Links ι) (x : ι) (listed : Bool) : Links ι :=
  if listed ∧ (l.prevPtr x).isNone then l.insert x
  else if ¬ listed ∧ (l.prevPtr x).isSome then l.unlink x
  else l

/-- The fields of an element are filled with zeros. -/
def clear (l : Links ι) (x : ι) : Links ι := (l.write none (.next x)).setPrev x none

section Fields

variable (l : Links ι) (x y : ι)

theorem insert_head : (l.insert x).head = some x := by
  cases first : l.head <;> simp [insert, write, setPrev, first]

theorem insert_next : (l.insert x).next y = if y = x then l.head else l.next y := by
  cases first : l.head <;> simp [insert, write, setPrev, first, Function.update_apply]

theorem insert_prevPtr :
    (l.insert x).prevPtr y = if y = x then some .head else if l.head = some y then some (.next x) else l.prevPtr y := by
  cases first : l.head with
  | none => simp [insert, write, setPrev, first, Function.update_apply]
  | some z => simp [insert, write, setPrev, first, Function.update_apply, eq_comm]

theorem unlink_read (cell : LinkCell ι) : (l.unlink x).read cell = if l.prevPtr x = some cell then l.next x else l.read cell := by
  cases after : l.next x <;> cases back : l.prevPtr x with
  | none => cases cell <;> simp [unlink, read, setPrev, after, back]
  | some from_ => cases from_ <;> cases cell <;> simp [unlink, read, write, setPrev, after, back, Function.update_apply, eq_comm]

theorem unlink_prevPtr : (l.unlink x).prevPtr y =
    if y = x then none else if l.next x = some y then l.prevPtr x else l.prevPtr y := by
  cases after : l.next x <;> cases back : l.prevPtr x with
  | none => simp [unlink, setPrev, after, back, Function.update_apply, eq_comm]
  | some from_ => cases from_ <;> simp [unlink, write, setPrev, after, back, Function.update_apply, eq_comm]

end Fields

/-! ## The list behind the pointers -/

/-- A list after an element is put in front, unless it is there already, or taken out. -/
def setListed (x : ι) (listed : Bool) (list : List ι) : List ι :=
  if listed then (if x ∈ list then list else x :: list) else list.filter (· ≠ x)

/-- The elements that are reached from a cell, each with the address of the cell it is reached from. -/
def Chain (l : Links ι) : LinkCell ι → List ι → Prop
  | cell, [] => l.read cell = none
  | cell, x :: rest => l.read cell = some x ∧ l.prevPtr x = some cell ∧ Chain l (.next x) rest

structure Represents (l : Links ι) (list : List ι) : Prop where
  chain : Chain l .head list
  nodup : list.Nodup
  outside : ∀ x, x ∉ list → l.prevPtr x = none

variable {l l' : Links ι} {cell : LinkCell ι} {list : List ι} {x y : ι}

section

omit [DecidableEq ι]

theorem Chain.congr (chain : Chain l cell list) (first : l'.read cell = l.read cell)
    (same : ∀ y ∈ list, l'.next y = l.next y ∧ l'.prevPtr y = l.prevPtr y) : Chain l' cell list := by
  induction list generalizing cell with
  | nil => exact first.trans chain
  | cons x rest ih =>
    obtain ⟨here, back, tail⟩ := chain
    obtain ⟨next, prev⟩ := same x List.mem_cons_self
    exact ⟨first.trans here, prev.trans back, ih tail next fun y member => same y (List.mem_cons_of_mem x member)⟩

/-- The back pointer of an element leads to a cell that points to the element. -/
theorem Chain.back (chain : Chain l cell list) (member : x ∈ list) : ∃ from_, l.prevPtr x = some from_ ∧ l.read from_ = some x := by
  induction list generalizing cell with
  | nil => cases member
  | cons y rest ih =>
    obtain ⟨here, back, tail⟩ := chain
    rcases List.mem_cons.mp member with rfl | later
    · exact ⟨cell, back, here⟩
    · exact ih tail later

/-- The `next` field of an element points to the element after it. -/
theorem Chain.next_eq {front back : List ι} (chain : Chain l cell (front ++ x :: back)) : Chain l (.next x) back := by
  induction front generalizing cell with
  | nil => exact chain.2.2
  | cons y rest ih => exact ih chain.2.2

theorem Chain.read_eq (chain : Chain l cell list) : l.read cell = list.head? := by
  cases list with
  | nil => exact chain
  | cons y rest => exact chain.1

theorem represents_empty : Represents (empty : Links ι) [] := ⟨rfl, List.nodup_nil, fun _ _ => rfl⟩

end

/-- Taking out an element of a chain that is reached from a cell outside the chain. -/
theorem Chain.unlink {front back : List ι} (chain : Chain l cell (front ++ x :: back))
    (nodup : (front ++ x :: back).Nodup) (fresh : ∀ y, cell = .next y → y ∉ front ++ x :: back) :
    Chain (l.unlink x) cell (front ++ back) := by
  induction front generalizing cell with
  | nil =>
    obtain ⟨here, prev, tail⟩ := chain
    rw [List.nil_append] at fresh ⊢
    obtain ⟨absent, distinct⟩ := List.nodup_cons.mp nodup
    have next : l.next x = back.head? := tail.read_eq
    cases back with
    | nil =>
      rw [Chain, unlink_read, if_pos prev]
      exact next
    | cons y rest =>
      obtain ⟨after, -, tail⟩ := tail
      have elsewhere : ∀ z ∈ y :: rest, l.prevPtr x ≠ some (.next z) := by
        intro z member points
        rw [prev] at points
        exact fresh z (Option.some.inj points) (List.mem_cons_of_mem x member)
      refine ⟨?_, ?_, tail.congr ?_ fun z member => ⟨?_, ?_⟩⟩
      · rw [unlink_read, if_pos prev]
        exact after
      · rw [unlink_prevPtr, if_neg (ne_of_mem_of_not_mem List.mem_cons_self absent), next, List.head?_cons, if_pos rfl, prev]
      · rw [unlink_read, if_neg (elsewhere y List.mem_cons_self)]
      · have := unlink_read l x (.next z)
        rwa [if_neg (elsewhere z (List.mem_cons_of_mem y member))] at this
      · have other : y ≠ z := (ne_of_mem_of_not_mem member (List.nodup_cons.mp distinct).1).symm
        rw [unlink_prevPtr, if_neg (ne_of_mem_of_not_mem (List.mem_cons_of_mem y member) absent), next, List.head?_cons,
          if_neg fun same => other (Option.some.inj same)]
  | cons z rest ih =>
    obtain ⟨here, prev, tail⟩ := chain
    obtain ⟨absent, distinct⟩ := List.nodup_cons.mp nodup
    have later : x ∈ rest ++ x :: back := List.mem_append_right _ List.mem_cons_self
    have other : z ≠ x := (ne_of_mem_of_not_mem later absent).symm
    have next : l.next x = back.head? := tail.next_eq.read_eq
    refine ⟨?_, ?_, ih tail distinct ?_⟩
    · rw [unlink_read, if_neg, here]
      intro points
      obtain ⟨from_, points', found⟩ := tail.back later
      rw [points] at points'
      rw [← Option.some.inj points', here] at found
      exact other (Option.some.inj found)
    · rw [unlink_prevPtr, if_neg other, if_neg, prev]
      rw [next]
      intro found
      exact absent (List.mem_append_right _ (List.mem_cons_of_mem x (List.mem_of_mem_head? found)))
    · rintro y ⟨⟩
      exact absent

namespace Represents

omit [DecidableEq ι] in
theorem mem_iff (represents : Represents l list) : (l.prevPtr x).isSome ↔ x ∈ list := by
  constructor
  · intro linked
    by_contra absent
    rw [represents.outside x absent] at linked
    cases linked
  · intro member
    obtain ⟨_, back, -⟩ := represents.chain.back member
    rw [back]
    rfl

theorem insert (represents : Represents l list) (absent : x ∉ list) : Represents (l.insert x) (x :: list) := by
  obtain ⟨chain, nodup, outside⟩ := represents
  have first : l.head = list.head? := chain.read_eq
  refine ⟨⟨insert_head l x, ?_, ?_⟩, List.nodup_cons.mpr ⟨absent, nodup⟩, fun y missing => ?_⟩
  · rw [insert_prevPtr, if_pos rfl]
  · -- The old first element now follows `x`; the others keep their pointers.
    cases list with
    | nil =>
      rw [Chain, read, insert_next, if_pos rfl]
      exact first
    | cons z rest =>
      obtain ⟨here, -, tail⟩ := chain
      rw [List.nodup_cons] at nodup
      rw [List.mem_cons, not_or] at absent
      refine ⟨?_, ?_, tail.congr ?_ fun y member => ⟨?_, ?_⟩⟩
      · rw [read, insert_next, if_pos rfl]
        exact here
      · rw [insert_prevPtr, if_neg (Ne.symm absent.1), first, List.head?_cons, if_pos rfl]
      · rw [read, read, insert_next, if_neg (Ne.symm absent.1)]
      · rw [insert_next, if_neg (ne_of_mem_of_not_mem member absent.2)]
      · have other : z ≠ y := (ne_of_mem_of_not_mem member nodup.1).symm
        rw [insert_prevPtr, if_neg (ne_of_mem_of_not_mem member absent.2), first, List.head?_cons,
          if_neg fun same => other (Option.some.inj same)]
  · rw [List.mem_cons, not_or] at missing
    rw [insert_prevPtr, if_neg missing.1, if_neg, outside y missing.2]
    rw [first]
    exact fun found => missing.2 (List.mem_of_mem_head? found)

theorem unlink (represents : Represents l list) (member : x ∈ list) : Represents (l.unlink x) (list.filter (· ≠ x)) := by
  obtain ⟨chain, nodup, outside⟩ := represents
  obtain ⟨front, back, rfl⟩ := List.append_of_mem member
  have apart : x ∉ front ∧ x ∉ back := by
    rw [List.nodup_append, List.nodup_cons] at nodup
    exact ⟨fun inside => nodup.2.2 x inside x List.mem_cons_self rfl, nodup.2.1.1⟩
  have rest : (front ++ x :: back).filter (· ≠ x) = front ++ back := by
    rw [List.filter_append, List.filter_cons_of_neg (by simp)]
    congr 1
    · exact List.filter_eq_self.mpr fun y inside => decide_eq_true (ne_of_mem_of_not_mem inside apart.1)
    · exact List.filter_eq_self.mpr fun y inside => decide_eq_true (ne_of_mem_of_not_mem inside apart.2)
  have next : l.next x = back.head? := chain.next_eq.read_eq
  rw [rest]
  refine ⟨chain.unlink nodup nofun, ?_, fun y missing => ?_⟩
  · rw [← rest]
    exact nodup.filter _
  · rw [unlink_prevPtr]
    split
    · rfl
    rename_i other
    rw [List.mem_append, not_or] at missing
    rw [if_neg, outside y]
    · rw [List.mem_append, List.mem_cons]
      exact fun inside => inside.elim missing.1 (Or.rec other missing.2)
    · rw [next]
      exact fun found => missing.2 (List.mem_of_mem_head? found)

theorem set (represents : Represents l list) (x : ι) (listed : Bool) :
    Represents (l.set x listed) (setListed x listed list) := by
  have linked : (l.prevPtr x).isSome ↔ x ∈ list := represents.mem_iff
  by_cases member : x ∈ list
  · have isSome := linked.mpr member
    cases listed with
    | true => simpa [Links.set, setListed, member, Option.isSome_iff_ne_none.mp isSome] using represents
    | false => simpa [Links.set, setListed, isSome] using represents.unlink member
  · have isNone : l.prevPtr x = none := represents.outside x member
    cases listed with
    | true => simpa [Links.set, setListed, member, isNone] using represents.insert member
    | false =>
      have same : list.filter (· ≠ x) = list :=
        List.filter_eq_self.mpr fun y inside => decide_eq_true (ne_of_mem_of_not_mem inside member)
      rw [setListed, if_neg Bool.false_ne_true, same]
      simpa [Links.set, isNone] using represents

theorem clear (represents : Represents l list) (absent : x ∉ list) : Represents (l.clear x) list := by
  refine ⟨represents.chain.congr rfl fun y member => ?_, represents.nodup, fun y missing => ?_⟩
  · have other : y ≠ x := ne_of_mem_of_not_mem member absent
    exact ⟨Function.update_of_ne other .., Function.update_of_ne other ..⟩
  · simp only [Links.clear, setPrev, write, Function.update_apply]
    split
    · rfl
    · exact represents.outside y missing

omit [DecidableEq ι] in
theorem head_eq (represents : Represents l list) : l.head = list.head? := represents.chain.read_eq

omit [DecidableEq ι] in
theorem next_eq {rest : List ι} (represents : Represents l list) (tail : x :: rest <:+ list) : l.next x = rest.head? := by
  obtain ⟨front, rfl⟩ := tail
  exact represents.chain.next_eq.read_eq

end Represents

/-! ## Loops over the list -/

variable {σ : Type}

/-- `while (x) { next = x->next; body(x); x = next; }`, with the elements that were visited. -/
def each (links : σ → Links ι) (body : ι → StateT σ Option Unit) : ℕ → Option ι → StateT σ Option (List ι)
  | _, none => pure []
  | 0, some _ => failure
  | fuel + 1, some x => do
      let next := (links (← get)).next x
      body x
      let visited ← each links body fuel next
      return x :: visited

omit [DecidableEq ι] in
/-- The loop visits the elements that are left, if the body keeps the invariant for those after its own. -/
theorem each_spec {links : σ → Links ι} {body : ι → StateT σ Option Unit} {P : List ι → σ → Prop}
    (step : ∀ x rest s, P (x :: rest) s → (links s).next x = rest.head? ∧ Ends (body x) s fun _ s' => P rest s')
    {fuel : ℕ} {todo : List ι} {s : σ} (holds : P todo s) (enough : todo.length ≤ fuel) :
    Ends (each links body fuel todo.head?) s fun visited s' => visited = todo ∧ P [] s' := by
  induction todo generalizing fuel s with
  | nil =>
    cases fuel <;> exact (ends_pure _).mpr ⟨rfl, holds⟩
  | cons x rest ih =>
    cases fuel with
    | zero => cases enough
    | succ fuel =>
      obtain ⟨next, body⟩ := step x rest s holds
      simp only [List.head?_cons, each, ends_bind, ends_get, ends_pure, next]
      refine body.mono fun _ s' holds' => ?_
      refine (ih holds' (Nat.le_of_succ_le_succ enough)).mono ?_
      rintro visited s'' ⟨rfl, final⟩
      exact ⟨rfl, final⟩

omit [DecidableEq ι] in
theorem each_covers {links : σ → Links ι} {body body' : ι → StateT σ Option Unit} (covers : ∀ x, Covers (body x) (body' x))
    (fuel : ℕ) (start : Option ι) : Covers (each links body fuel start) (each links body' fuel start) := by
  induction fuel generalizing start with
  | zero => cases start <;> exact .refl _
  | succ fuel ih =>
    cases start with
    | none => exact .refl _
    | some x => exact (Covers.refl get).bind fun s => (covers x).bind fun _ => (ih _).bind fun _ => .refl _

end Links

end DaemonProxy.Lib
