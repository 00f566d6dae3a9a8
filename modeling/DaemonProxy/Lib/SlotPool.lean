import Mathlib.Data.List.Nodup
import Mathlib.Data.List.TakeDrop

/-! # Pools of slots in one array

The array holds every slot of the pool. The first `count` of them are in use and the others are free; a slot is taken at the
border, and a slot that is given back changes places with the last one in use.
-/

namespace DaemonProxy.Lib

structure SlotPool (ι : Type) where
  slots : List ι
  count : ℕ

namespace SlotPool

variable {ι : Type} (p : SlotPool ι)

/-- The slots in use. -/
def live : List ι := p.slots.take p.count

def free : List ι := p.slots.drop p.count

/-- The slot that is taken next. -/
def next? : Option ι := p.slots[p.count]?

def advance : SlotPool ι := { p with count := p.count + 1 }

/-- Gives a slot back, if it is in use. -/
def release [DecidableEq ι] (x : ι) : SlotPool ι :=
  if x ∈ p.live then
    match p.slots[p.count - 1]? with
    | some last => ⟨(p.slots.set (p.live.idxOf x) last).set (p.count - 1) x, p.count - 1⟩
    | none => p
  else p

variable {p} {x : ι}

theorem live_append_free : p.live ++ p.free = p.slots := List.take_append_drop ..

theorem next?_isSome : p.next?.isSome ↔ p.count < p.slots.length := by
  rw [next?, ← not_iff_not, Option.not_isSome_iff_eq_none, List.getElem?_eq_none_iff, Nat.not_lt]

theorem live_advance (next : p.next? = some x) : p.advance.live = p.live ++ [x] := by
  rw [live, advance, live, List.take_add_one]
  exact congrArg (p.slots.take p.count ++ ·) (congrArg Option.toList next)

/-- A slot that is taken was not in use. -/
theorem next?_not_live (nodup : p.slots.Nodup) (next : p.next? = some x) : x ∉ p.live := by
  rw [← live_append_free (p := p)] at nodup
  have inFree : x ∈ p.free := List.mem_of_getElem? (i := 0) (by rwa [free, List.getElem?_drop])
  exact fun inLive => (List.disjoint_of_nodup_append nodup) inLive inFree

/-- A slot that is given back is the first free one afterwards, and the last one in use has its place. -/
theorem release_eq [DecidableEq ι] (bound : p.count ≤ p.slots.length) {front : List ι} {last : ι} (live : p.live = front ++ [last])
    (member : x ∈ p.live) :
    p.release x = ⟨(p.live.set (p.live.idxOf x) last).dropLast ++ x :: p.free, front.length⟩ := by
  have length : p.live.length = p.count := List.length_take_of_le bound
  have count : p.count = front.length + 1 := by
    rw [← length, live, List.length_append, List.length_singleton]
  have atLast : p.slots[p.count - 1]? = some last := by
    rw [← live_append_free (p := p), live, count, Nat.add_sub_cancel, List.append_assoc, List.getElem?_append_right (Nat.le_refl _)]
    simp
  have index : p.live.idxOf x < p.live.length := List.idxOf_lt_length_iff.mpr member
  have swapped : (p.slots.set (p.live.idxOf x) last).set front.length x =
      (p.live.set (p.live.idxOf x) last).dropLast ++ x :: p.free := by
    have size : (p.live.set (p.live.idxOf x) last).length = front.length + 1 := by
      rw [List.length_set, length, count]
    generalize changed : p.live.set (p.live.idxOf x) last = list at size ⊢
    obtain ⟨init, final, rfl⟩ : ∃ init final, list = init ++ [final] := by
      rcases List.eq_nil_or_concat list with rfl | ⟨init, final, rfl⟩
      · exact nomatch size
      · exact ⟨init, final, List.concat_eq_append⟩
    have same : front.length = init.length := by simpa using size.symm
    rw [← live_append_free (p := p), List.set_append_left _ _ index, changed, same]
    simp
  rw [release, if_pos member, atLast]
  dsimp only
  rw [count, Nat.add_sub_cancel, swapped]

end SlotPool

end DaemonProxy.Lib
