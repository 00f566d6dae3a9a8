import DaemonProxy.Proofs.FdSound
import DaemonProxy.Proofs.RBTreeWalk
import DaemonProxy.Soundness.RBTree

/-! # Finding and iterating by name

What `RBTree_Find` returns for a name that is in the index or not, and which objects `svc_iter_next` and `fd_iter_next` come to.
-/

namespace DaemonProxy.Soundness

open Lib Model Proofs

variable {ι : Type}

/-- `RBTree_Find` returns the node with the name, or one beside its place. -/
structure FindsName (key : ι → Bytes) (order : List ι) (name : Bytes) (found : RBTreeSearch ι) : Prop where
  present : ∀ x ∈ order, key x = name → found = ⟨.node x, 0⟩
  zero : found.relation = 0 → ∃ x ∈ order, key x = name
  empty : order = [] → found = ⟨.null, -1⟩
  /-- The node has the least of the greater names, or the greatest of the smaller ones. -/
  beside : found.relation ≠ 0 → order ≠ [] → ∃ y ∈ order, found.nearest = .node y ∧
    ((found.relation < 0 ∧ strsegCmp name (key y) < 0 ∧ ∀ z ∈ order, strsegCmp name (key z) < 0 → strsegCmp (key y) (key z) ≤ 0) ∨
      (0 < found.relation ∧ 0 < strsegCmp name (key y) ∧ ∀ z ∈ order, 0 < strsegCmp name (key z) → strsegCmp (key z) (key y) ≤ 0))

/-- The object with the least name above the given one, if there is one. -/
def LeastAbove (key : ι → Bytes) (order : List ι) (name : Bytes) : Option ι → Prop
  | none => ∀ z ∈ order, ¬strsegCmp name (key z) < 0
  | some x => x ∈ order ∧ strsegCmp name (key x) < 0 ∧ ∀ z ∈ order, strsegCmp name (key z) < 0 → strsegCmp (key x) (key z) ≤ 0

/-- The objects that are visited from `current` on, until there is no next one. -/
def visited (next : Option ι → Option (Option ι)) : ℕ → Option ι → Option (List ι)
  | 0, _ => none
  | fuel + 1, current =>
      match next current with
      | none => none
      | some none => some []
      | some (some x) => (visited next fuel (some x)).map (x :: ·)

/-- An iterator that starts from a name comes to the next greater one, and from the empty name to each object that has another
name, in order. -/
structure Iterates (key : ι → Bytes) (order : List ι) (next : Option ι → Bytes → Option (Option ι)) : Prop where
  least : ∀ name, ∃ found, next none name = some found ∧ LeastAbove key order name found
  visits : ∀ fuel, order.length < fuel → visited (next · []) fuel none = some (order.filter (key · ≠ []))

section Proofs

variable {key : ι → Bytes} {order : List ι} {name : Bytes} {next : Option ι → Bytes → Option (Option ι)}

theorem leastAbove_head (increasing : Increasing key order) (name : Bytes) :
    LeastAbove key order name (aboveName key order name).head? := by
  have member {z : ι} : z ∈ aboveName key order name ↔ z ∈ order ∧ strsegCmp name (key z) < 0 := by
    rw [aboveName, List.mem_filter, decide_eq_true_iff]
  cases first : aboveName key order name with
  | nil =>
    intro z inside above
    have listed := member.mpr ⟨inside, above⟩
    rw [first] at listed
    cases listed
  | cons x rest =>
    have sorted : Increasing key (x :: rest) := first ▸ List.Pairwise.filter _ increasing
    obtain ⟨inside, above⟩ := member.mp (first ▸ List.mem_cons_self)
    refine ⟨inside, above, fun z inside' above' => ?_⟩
    have listed := member.mpr ⟨inside', above'⟩
    rw [first] at listed
    rcases List.mem_cons.mp listed with rfl | later
    · exact (strsegCmp_eq_zero.mpr rfl).le
    · exact (List.rel_of_pairwise_cons sorted later).le

theorem visited_rest {next : Option ι → Option (Option ι)}
    (follows : ∀ before x after, order = before ++ x :: after → next (some x) = some after.head?) {before after : List ι} {x : ι}
    (split : order = before ++ x :: after) {fuel : ℕ} (enough : after.length < fuel) : visited next fuel (some x) = some after := by
  induction after generalizing before x fuel with
  | nil =>
    obtain ⟨fuel, rfl⟩ : ∃ less, fuel = less + 1 := ⟨fuel - 1, by omega⟩
    rw [visited, follows before x [] split]
    rfl
  | cons y rest ih =>
    obtain ⟨fuel, rfl⟩ : ∃ less, fuel = less + 1 := ⟨fuel - 1, by omega⟩
    have further : order = (before ++ [x]) ++ y :: rest := by rw [split, List.append_assoc, List.singleton_append]
    rw [List.length_cons] at enough
    rw [visited, follows before x (y :: rest) split]
    change (visited next fuel (some y)).map _ = _
    rw [ih further (by omega), Option.map_some]

theorem aboveName_nil : aboveName key order [] = order.filter (key · ≠ []) := by
  apply List.filter_congr
  intro z _
  cases key z with
  | nil => rfl
  | cons c text => rfl

/-- An iterator that goes from each object to the one that follows, and from a name to the first object above it. -/
theorem iterates_of_follows (increasing : Increasing key order)
    (starts : ∀ name, next none name = some (aboveName key order name).head?)
    (follows : ∀ name before x after, order = before ++ x :: after → next (some x) name = some after.head?) :
    Iterates key order next := by
  refine ⟨fun name => ⟨_, starts name, leastAbove_head increasing name⟩, fun fuel enough => ?_⟩
  obtain ⟨before, split⟩ := increasing.suffix []
  obtain ⟨fuel, rfl⟩ : ∃ less, fuel = less + 1 := ⟨fuel - 1, by omega⟩
  rw [visited, starts, ← aboveName_nil]
  generalize aboveName key order [] = rest at split
  cases rest with
  | nil => rfl
  | cons x rest =>
    have shorter : rest.length < fuel := by
      rw [split, List.length_append, List.length_cons] at enough
      omega
    change (visited (next · []) fuel (some x)).map _ = _
    rw [visited_rest (follows []) split shorter, Option.map_some]

variable [DecidableEq ι] {h : Heap ι}

theorem findsName_of_foundBy (increasing : Increasing key order) {found : RBTreeSearch ι}
    (result : FoundBy strsegCmp key name order found) : FindsName key order name found := by
  obtain ⟨nearest, relation⟩ := found
  rcases result with ⟨zero, x, member, here, equal⟩ | ⟨before, after, split, gap, beside⟩
  · obtain rfl : name = key x := strsegCmp_eq_zero.mp equal
    have apart : (order.map key).Nodup := List.pairwise_map.mpr (increasing.imp fun less same =>
      less.ne (strsegCmp_eq_zero.mpr same))
    refine ⟨fun y inside same => ?_, fun _ => ⟨x, member, rfl⟩, fun none => ?_, fun other => absurd zero other⟩
    · obtain rfl := List.inj_on_of_nodup_map apart inside member same
      rw [show nearest = .node y from here, show relation = 0 from zero]
    · rw [none] at member
      cases member
  · have absent : ∀ y ∈ order, key y ≠ name := by
      rintro y inside rfl
      exact gap.none y (split ▸ inside) (strsegCmp_eq_zero.mpr rfl)
    refine ⟨fun y inside same => absurd same (absent y inside), fun zero => absurd zero beside.relation_ne, fun none => ?_,
      fun _ some => ?_⟩
    · obtain ⟨rfl, rfl⟩ := List.append_eq_nil_iff.mp (split.symm.trans none)
      cases beside with
      | empty => rfl
      | greater next => cases next
      | smaller last => exact absurd last (by simp)
    · rw [Increasing, split, List.pairwise_append] at increasing
      cases beside with
      | empty first last => exact absurd (by rw [split, first, last]; rfl) some
      | @greater y rest next _ less =>
        subst next
        refine ⟨y, by simp [split], rfl, .inl ⟨less, gap.after y List.mem_cons_self, fun z inside above => ?_⟩⟩
        rcases List.mem_append.mp (split ▸ inside) with inFront | behind
        · exact absurd above (gap.before z inFront).le.not_gt
        · rcases List.mem_cons.mp behind with rfl | later
          · exact (strsegCmp_eq_zero.mpr rfl).le
          · exact (List.rel_of_pairwise_cons increasing.2.1 later).le
      | @smaller y rest last _ more =>
        subst last
        refine ⟨y, by simp [split], rfl, .inr ⟨more, gap.before y (by simp), fun z inside below => ?_⟩⟩
        rcases List.mem_append.mp (split ▸ inside) with inFront | behind
        · rcases List.mem_append.mp inFront with earlier | last
          · exact ((List.pairwise_append.mp increasing.1).2.2 z earlier y List.mem_cons_self).le
          · obtain rfl := List.mem_singleton.mp last
            exact (strsegCmp_eq_zero.mpr rfl).le
        · exact absurd below (gap.after z behind).le.not_gt

/-- An iterator that is `iterNext` on the index of a table. -/
theorem iterates_of_iterNext (redBlack : RedBlack h order) (increasing : Increasing key order) {fuel : ℕ} (enough : order.length < fuel)
    (runs : ∀ current name, next current name = ((iterNext fuel (compareKey strsegCmp key) current name).run h).map Prod.fst) :
    Iterates key order next := by
  refine iterates_of_follows increasing (fun name => ?_) fun name before x after split => ?_
  · obtain ⟨found, h', run, -, rfl⟩ := iterNext_none redBlack increasing name enough
    rw [runs, run]
    rfl
  · have ends : Ends (iterNext fuel (compareKey strsegCmp key) (some x) name) h fun next h' => h' = h ∧ next = after.head? :=
      iterNext_some redBlack split name enough
    obtain ⟨found, h', run, -, rfl⟩ := ends
    rw [runs, run]
    rfl

/-- In every tree with distinct names: a name is found if it is there, and otherwise its place is; and the iterators of the
tables come to the objects with greater names. -/
theorem iterate_by_name (redBlack : RedBlack h order) (increasing : Increasing key order) :
    (∀ name fuel, order.length < fuel →
      ∃ found, (rbTreeFind fuel (compareKey strsegCmp key) name).run h = some (found, h) ∧ FindsName key order name found) ∧
    (∀ s : Daemon ι, s.byName = h → (∀ x, (s.objects x).name = key x) → order ⊆ s.svcList →
      Iterates key order fun svc name => ((svcIterNext svc name).run s).map Prod.fst) ∧
    ∀ s : FdTable ι, s.byName = h → (∀ x, (s.objects x).name = key x) → order ⊆ s.fdList →
      Iterates key order fun fd name => ((fdIterNext fd name).run s).map Prod.fst := by
  have short : ∀ {list : List ι}, order ⊆ list → order.length < list.length + 2 := fun listed =>
    Nat.lt_add_right 1 (Nat.lt_succ_of_le (List.subperm_of_subset redBlack.nodup listed).length_le)
  refine ⟨fun name fuel enough => ?_, ?_, ?_⟩
  · obtain ⟨found, h', run, rfl, result⟩ := redBlack.find strsegCmp_preorder increasing.sortedBy name enough
    exact ⟨found, run, findsName_of_foundBy increasing result⟩
  · rintro s rfl named listed
    obtain rfl : (fun x => (s.objects x).name) = key := funext named
    exact iterates_of_iterNext redBlack increasing (short listed) fun current name => Option.map_map ..
  · rintro s rfl named listed
    obtain rfl : (fun x => (s.objects x).name) = key := funext named
    exact iterates_of_iterNext redBlack increasing (short listed) fun current name => Option.map_map ..

/-- Two objects, added in the other order. -/
theorem iterate_by_name_two :
    ∃ s, treeRun 4 strsegCmp ⟨rbTreeInit zeroMemory, fun _ => []⟩ [.add 1 (bytesOf "b"), .add 2 (bytesOf "a")] = some s ∧
      ∃ found, (rbTreeFind 3 (compareKey strsegCmp s.key) (bytesOf "c")).run s.heap = some (found, s.heap) ∧
        FindsName s.key [2, 1] (bytesOf "c") found := by
  have history : ∃ s, treeRun 4 strsegCmp ⟨rbTreeInit zeroMemory, fun _ => []⟩ [.add 1 (bytesOf "b"), .add 2 (bytesOf "a")] = some s ∧
      Matches strsegCmp s (exec (sequenceStep strsegCmp) ⟨[], fun _ => []⟩ [.add 1 (bytesOf "b"), .add 2 (bytesOf "a")]) :=
    treeRun_init strsegCmp_preorder rfl (fun _ => rfl) (by decide) (by decide)
  obtain ⟨s, run, same⟩ := history
  have redBlack : RedBlack s.heap [2, 1] := same.redBlack
  have increasing : Increasing s.key [2, 1] := by
    rw [same.key, Increasing]
    decide
  exact ⟨s, run, (iterate_by_name redBlack increasing).1 (bytesOf "c") 3 (by decide)⟩

/-- An object whose name is empty is not above the empty name, and so is not visited. -/
theorem iterate_misses_empty : ∃ s : FdTable ℕ, RedBlack s.byName [1] ∧ s.fdList = [1] ∧ (s.objects 1).name = [] ∧
    visited (fun fd => ((fdIterNext fd []).run s).map Prod.fst) 2 none = some [] := by
  have history : ∃ s, treeRun 3 strsegCmp ⟨rbTreeInit zeroMemory, fun _ => []⟩ [.add 1 []] = some s ∧
      Matches strsegCmp s (exec (sequenceStep strsegCmp) ⟨[], fun _ => []⟩ [.add 1 []]) :=
    treeRun_init strsegCmp_preorder rfl (fun _ => rfl) (by decide) (by decide)
  obtain ⟨s, -, same⟩ := history
  have redBlack : RedBlack s.heap [1] := same.redBlack
  let table : FdTable ℕ := { (FdTable.empty none : FdTable ℕ) with
    objects := fun _ => ⟨sizeofFd, {}, -1, .null, [], 0⟩, fdList := [1], byName := s.heap }
  have iterates : Iterates (fun _ : ℕ => []) [1] fun fd name => ((fdIterNext fd name).run table).map Prod.fst :=
    iterates_of_iterNext redBlack (List.pairwise_singleton _ _) (by decide : _ < 3) fun current name => Option.map_map ..
  exact ⟨table, redBlack, rfl, rfl, iterates.visits 2 (by decide)⟩

end Proofs

end DaemonProxy.Soundness
