import DaemonProxy.Proofs.RBTreeIndex
import DaemonProxy.Model.Service

/-! # An index as a set of objects

The tables of the daemon use a tree to find one of their objects by a key. `IndexHolds` says which
objects the tree holds, without the order in which it holds them; the bound on the number of objects
that the loops need comes from a list that contains them all. The comparison of names is here too.
-/

namespace DaemonProxy.Proofs

open Lib Model

variable {ι κ : Type}

/-- The tree holds exactly the objects in `members`, sorted by their keys. -/
def IndexHolds (cmp : κ → κ → ℤ) (key : ι → κ) (h : Heap ι) (members : ι → Prop) : Prop :=
  ∃ order, RedBlack h order ∧ SortedBy cmp key order ∧ ∀ x, x ∈ order ↔ members x

namespace IndexHolds

variable {cmp : κ → κ → ℤ} {key : ι → κ} {h : Heap ι} {members : ι → Prop} {x : ι} {fuel : ℕ} {list : List ι}

/-- Only the keys of the members matter. -/
theorem congr {key' : ι → κ} {members' : ι → Prop} (holds : IndexHolds cmp key h members)
    (same : ∀ x, members x ↔ members' x) (keys : ∀ x, members x → key' x = key x) : IndexHolds cmp key' h members' := by
  obtain ⟨order, redBlack, sorted, mem⟩ := holds
  refine ⟨order, redBlack, ?_, fun x => (mem x).trans (same x)⟩
  refine List.Pairwise.imp_of_mem (fun {a b} inA inB le => ?_) sorted
  rwa [keys a ((mem a).mp inA), keys b ((mem b).mp inB)]

theorem length_le {order : List ι} (nodup : order.Nodup) (within : ∀ x ∈ order, x ∈ list) :
    order.length ≤ list.length := (List.subperm_of_subset nodup within).length_le

variable [DecidableEq ι]

theorem init (sentinel : SentinelOk h) (unassigned : ∀ x, (h (.node x)).color = .unassigned) :
    IndexHolds cmp key (rbTreeInit h) fun _ => False :=
  ⟨[], rbTreeInit_redBlack sentinel unassigned, .nil, fun _ => by simp⟩

/-- An object that is not in the tree may have its node written, if it stays unassigned. -/
theorem write (holds : IndexHolds cmp key h members) (absent : ¬members x) {f : Cell ι → Cell ι}
    (unassigned : ∀ cell, (f cell).color = .unassigned) :
    IndexHolds cmp key (h.modify (.node x) f) members := by
  obtain ⟨order, ⟨t, k, shape, balanced, rfl, outside⟩, sorted, mem⟩ := holds
  have notIn : x ∉ t.labels := fun inside => absent ((mem x).mp inside)
  have other : ∀ z, z ≠ x → h.modify (.node x) f (.node z) = h (.node z) :=
    fun z different => modify_of_ne fun same => different (Ref.node.inj same)
  refine ⟨t.labels, ⟨t, k, (shape.modify_other notIn f).of_rest ?_, balanced, rfl, ?_⟩, sorted, mem⟩
  · intro z _
    by_cases here : z = x
    · rw [here, Function.update_self, modify_self]
    · rw [Function.update_of_ne here, other z here]
  · intro z notLabel
    by_cases here : z = x
    · rw [here, modify_self, unassigned]
    · rw [other z here, outside z notLabel]

theorem add (preorder : TotalPreorder cmp) (holds : IndexHolds cmp key h members) (absent : ¬members x)
    (within : ∀ y, members y → y ∈ list) (enough : list.length < fuel) {data : κ} (isKey : data = key x) :
    Ends (rbTreeAdd fuel (compareKey cmp key) (.node x) data) h fun _ h' =>
      IndexHolds cmp key h' fun y => y = x ∨ members y := by
  subst isKey
  obtain ⟨order, redBlack, sorted, mem⟩ := holds
  have short := length_le redBlack.nodup fun y inside => within y ((mem y).mp inside)
  refine (redBlack.add preorder sorted (fun inside => absent ((mem x).mp inside)) (by omega)).mono ?_
  rintro _ h' ⟨-, redBlack', sorted'⟩
  refine ⟨_, redBlack', sorted', fun y => ?_⟩
  rw [insertByKey, List.mem_orderedInsert, mem]

theorem prune (holds : IndexHolds cmp key h members) (present : members x)
    (within : ∀ y, members y → y ∈ list) (enough : list.length + 1 < fuel) :
    Ends (rbTreeNodePrune fuel (.node x)) h fun _ h' => IndexHolds cmp key h' fun y => y ≠ x ∧ members y := by
  obtain ⟨order, redBlack, sorted, mem⟩ := holds
  have short := length_le redBlack.nodup fun y inside => within y ((mem y).mp inside)
  refine (redBlack.prune ((mem x).mpr present) (by omega)).mono ?_
  rintro _ h' ⟨-, redBlack'⟩
  refine ⟨_, redBlack', List.Pairwise.sublist List.erase_sublist sorted, fun y => ?_⟩
  rw [redBlack.nodup.mem_erase_iff, mem]

theorem find (preorder : TotalPreorder cmp) (holds : IndexHolds cmp key h members)
    (within : ∀ y, members y → y ∈ list) (enough : list.length < fuel) (data : κ) :
    Ends (rbTreeFind fuel (compareKey cmp key) data) h fun found h' => h' = h ∧
      (∀ y, found.object? = some y → members y ∧ cmp data (key y) = 0) ∧
      (found.object? = none → ∀ y, members y → cmp data (key y) ≠ 0) := by
  obtain ⟨order, redBlack, sorted, mem⟩ := holds
  have short := length_le redBlack.nodup fun y inside => within y ((mem y).mp inside)
  refine (redBlack.find preorder sorted data (by omega)).mono ?_
  rintro ⟨nearest, relation⟩ h' ⟨rfl, found⟩
  refine ⟨rfl, ?_⟩
  rcases found with ⟨rfl, z, inside, rfl, equal⟩ | ⟨before, after, rfl, gap, beside⟩
  · refine ⟨?_, nofun⟩
    rintro y ⟨⟩
    exact ⟨(mem _).mp inside, equal⟩
  · have missing : (⟨nearest, relation⟩ : RBTreeSearch ι).object? = Option.none := by
      unfold RBTreeSearch.object?
      split
      · exact absurd (by assumption) beside.relation_ne
      · rfl
    refine ⟨fun y same => ?_, fun _ y member => gap.none y ((mem y).mpr member)⟩
    rw [missing] at same
    exact nomatch same

end IndexHolds

/-! ## Names -/

theorem charVal_injective {a b : UInt8} (same : charVal a = charVal b) : a = b := by
  have boundA := a.toNat_lt
  have boundB := b.toNat_lt
  apply UInt8.toNat_inj.mp
  simp only [charVal] at same
  split at same <;> split at same <;> omega

theorem strsegCmp_eq_zero {a b : Bytes} : strsegCmp a b = 0 ↔ a = b := by
  induction a generalizing b with
  | nil => cases b <;> simp [strsegCmp]
  | cons c a ih =>
    cases b with
    | nil => simp [strsegCmp]
    | cons d b =>
      by_cases same : c = d
      · simp [strsegCmp, same, ih]
      · simp only [strsegCmp, ne_eq, same, not_false_eq_true, if_true, List.cons.injEq, false_and, iff_false]
        split <;> decide

theorem strsegCmp_preorder : TotalPreorder strsegCmp where
  sign a b := by
    induction a generalizing b with
    | nil => cases b <;> simp [strsegCmp]
    | cons c a ih =>
      cases b with
      | nil => simp [strsegCmp]
      | cons d b =>
        by_cases same : c = d
        · simp [strsegCmp, same, ih]
        · have different : charVal c ≠ charVal d := fun equal => same (charVal_injective equal)
          simp only [strsegCmp, ne_eq, same, Ne.symm same, not_false_eq_true, if_true]
          split <;> split <;> omega
  trans a b c := by
    induction a generalizing b c with
    | nil => cases c <;> simp [strsegCmp]
    | cons i a ih =>
      cases b with
      | nil => simp [strsegCmp]
      | cons j b =>
        cases c with
        | nil => simp [strsegCmp]
        | cons k c =>
          intro first second
          have order : ∀ {p q : UInt8} {u v : Bytes}, strsegCmp (p :: u) (q :: v) ≤ 0 →
              charVal p < charVal q ∨ (p = q ∧ strsegCmp u v ≤ 0) := by
            intro p q u v le
            by_cases same : p = q
            · exact .inr ⟨same, by simpa [strsegCmp, same] using le⟩
            · by_cases less : charVal p < charVal q
              · exact .inl less
              · simp [strsegCmp, same, less] at le
          have less : charVal i < charVal k → strsegCmp (i :: a) (k :: c) ≤ 0 := by
            intro smaller
            have different : i ≠ k := fun same => (same ▸ smaller).false
            simp [strsegCmp, different, smaller]
          rcases order first with smaller | ⟨rfl, le⟩
          · rcases order second with smaller' | ⟨rfl, -⟩
            · exact less (smaller.trans smaller')
            · exact less smaller
          · rcases order second with smaller' | ⟨rfl, le'⟩
            · exact less smaller'
            · simpa [strsegCmp] using ih b c le le'

theorem comparePid_eq_zero {a b : ℤ} : comparePid a b = 0 ↔ a = b := by
  simp only [comparePid]
  split
  · omega
  · split <;> omega

theorem comparePid_preorder : TotalPreorder comparePid where
  sign a b := by
    simp only [comparePid]
    split_ifs <;> omega
  trans a b c := by
    simp only [comparePid]
    split_ifs <;> omega

end DaemonProxy.Proofs
