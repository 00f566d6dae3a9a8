import DaemonProxy.Proofs.ObjectIndex

/-! # Services and their children

Which services and children can exist together: a service that is up has a child that has not been
reaped, every child forked for a service is the one that service waits for, and no two services
carry one pid. `Alive` says so on the objects and the kernel's table alone. Each lemma is one way
these may change.
-/

namespace DaemonProxy.Proofs

open Lib Model

variable {ι : Type}

/-- What holds of each service. -/
structure SvcOk (children : ℤ → Option (Child ι)) (x : ι) (svc : Service) : Prop where
  known : svc.state ≠ .undef
  started : svc.state = .start → svc.pid = 0
  up : svc.state = .up → ∃ child ∈ children svc.pid, child.owner = some x
  nonneg : 0 ≤ svc.pid

/-- The services on `list` and the children agree. -/
structure Alive (list : List ι) (objects : ι → Service) (children : ℤ → Option (Child ι)) : Prop where
  services : ∀ x ∈ list, SvcOk children x (objects x)
  owned : ∀ pid, ∀ child ∈ children pid, ∀ x ∈ child.owner,
    x ∈ list ∧ (objects x).state = .up ∧ (objects x).pid = pid
  positive : ∀ pid, ∀ child ∈ children pid, 0 < pid
  distinct : ∀ x ∈ list, ∀ y ∈ list, (objects x).pid = (objects y).pid → (objects x).pid ≠ 0 → x = y

variable {list : List ι} {objects : ι → Service} {children : ℤ → Option (Child ι)} {x : ι} {svc : Service} {pid : ℤ}

/-- A service that is not up does not depend on the children. -/
theorem SvcOk.of_settled (state : svc.state = .down ∨ svc.state = .reaped ∨ svc.state = .start ∧ svc.pid = 0)
    (nonneg : 0 ≤ svc.pid) : SvcOk children x svc := by
  rcases state with down | reaped | ⟨start, zero⟩
  · exact ⟨by simp [down], by simp [down], by simp [down], nonneg⟩
  · exact ⟨by simp [reaped], by simp [reaped], by simp [reaped], nonneg⟩
  · exact ⟨by simp [start], fun _ => zero, by simp [start], nonneg⟩

/-- The entries of the kernel's table that are not the changed one. -/
theorem mem_update_children {entry : Option (Child ι)} {p : ℤ} {child : Child ι}
    (inTable : child ∈ Function.update children pid entry p) :
    (p = pid ∧ child ∈ entry) ∨ (p ≠ pid ∧ child ∈ children p) := by
  by_cases here : p = pid
  · rw [here, Function.update_self] at inTable
    exact .inl ⟨here, inTable⟩
  · rw [Function.update_of_ne here] at inTable
    exact .inr ⟨here, inTable⟩

namespace Alive

/-- A service that is not up has no child. -/
theorem not_owned (alive : Alive list objects children) (notUp : (objects x).state ≠ .up) {child : Child ι}
    (inTable : child ∈ children pid) : child.owner ≠ some x :=
  fun owner => notUp (alive.owned pid child inTable x owner).2.1

/-- An entry of the kernel's table changes that is not the child of this service. -/
theorem services_update {entry : Option (Child ι)} (alive : Alive list objects children) {y : ι} (member : y ∈ list)
    (foreign : ∀ child ∈ children pid, child.owner ≠ some y) :
    SvcOk (Function.update children pid entry) y (objects y) := by
  obtain ⟨known, started, up, nonneg⟩ := alive.services y member
  refine ⟨known, started, fun isUp => ?_, nonneg⟩
  obtain ⟨child, inTable, owner⟩ := up isUp
  have other : (objects y).pid ≠ pid := fun same => foreign child (same ▸ inTable) owner
  rw [Function.update_of_ne other]
  exact ⟨child, inTable, owner⟩

section Objects

variable [DecidableEq ι]

theorem keep (alive : Alive list objects children) (state : svc.state = (objects x).state)
    (samePid : svc.pid = (objects x).pid) : Alive list (Function.update objects x svc) children := by
  have same : ∀ y, (Function.update objects x svc y).state = (objects y).state ∧
      (Function.update objects x svc y).pid = (objects y).pid := by
    intro y
    by_cases here : y = x
    · rw [here, Function.update_self]
      exact ⟨state, samePid⟩
    · rw [Function.update_of_ne here]
      exact ⟨rfl, rfl⟩
  refine ⟨?_, ?_, alive.positive, ?_⟩
  · intro y member
    obtain ⟨known, started, up, nonneg⟩ := alive.services y member
    constructor
    · rwa [(same y).1]
    · rwa [(same y).1, (same y).2]
    · rwa [(same y).1, (same y).2]
    · rwa [(same y).2]
  · simp only [same]
    exact alive.owned
  · simp only [same]
    exact alive.distinct

/-- A service without a child goes down or waits for its start. -/
theorem settle (alive : Alive list objects children) (member : x ∈ list) (notUp : (objects x).state ≠ .up)
    (state : svc.state = .down ∨ svc.state = .reaped ∨ svc.state = .start ∧ svc.pid = 0)
    (newPid : svc.pid = 0 ∨ svc.pid = (objects x).pid) : Alive list (Function.update objects x svc) children := by
  have old : ∀ z, (Function.update objects x svc z).pid ≠ 0 →
      (Function.update objects x svc z).pid = (objects z).pid := by
    intro z nonzero
    by_cases here : z = x
    · rw [here, Function.update_self] at nonzero ⊢
      exact newPid.resolve_left nonzero
    · rw [Function.update_of_ne here]
  refine ⟨?_, ?_, alive.positive, ?_⟩
  · intro y inList
    by_cases here : y = x
    · rw [here, Function.update_self]
      refine SvcOk.of_settled state ?_
      rcases newPid with zero | same
      · exact zero.ge
      · exact same ▸ (alive.services x member).nonneg
    · rw [Function.update_of_ne here]
      exact alive.services y inList
  · intro p child inTable y owner
    have here : y ≠ x := fun same => alive.not_owned notUp inTable (same ▸ owner)
    rw [Function.update_of_ne here]
    exact alive.owned p child inTable y owner
  · intro y inY z inZ same nonzero
    have nonzeroZ := same ▸ nonzero
    rw [old y nonzero] at same nonzero
    rw [old z nonzeroZ] at same
    exact alive.distinct y inY z inZ same nonzero

/-- A service without a child gets one, with a pid that no other service carries. -/
theorem fork (alive : Alive list objects children) (member : x ∈ list) (notUp : (objects x).state ≠ .up)
    (free : children pid = none) (positive : 0 < pid) (fresh : ∀ y ∈ list, y ≠ x → (objects y).pid ≠ pid)
    (state : svc.state = .up) (newPid : svc.pid = pid) :
    Alive list (Function.update objects x svc) (Function.update children pid (some (.running (some x)))) := by
  refine ⟨?_, ?_, ?_, ?_⟩
  · intro y inList
    by_cases here : y = x
    · rw [here, Function.update_self]
      refine ⟨by simp [state], by simp [state], fun _ => ?_, newPid ▸ positive.le⟩
      rw [newPid, Function.update_self]
      exact ⟨_, rfl, rfl⟩
    · rw [Function.update_of_ne here]
      exact alive.services_update inList fun child inTable => nomatch free ▸ inTable
  · intro p child inTable y owner
    rcases mem_update_children inTable with ⟨rfl, new⟩ | ⟨-, old⟩
    · cases new
      cases owner
      rw [Function.update_self]
      exact ⟨member, state, newPid⟩
    · have here : y ≠ x := fun same => alive.not_owned notUp old (same ▸ owner)
      rw [Function.update_of_ne here]
      exact alive.owned p child old y owner
  · intro p child inTable
    rcases mem_update_children inTable with ⟨rfl, -⟩ | ⟨-, old⟩
    · exact positive
    · exact alive.positive p child old
  · intro y inY z inZ same nonzero
    by_cases hereY : y = x <;> by_cases hereZ : z = x
    · rw [hereY, hereZ]
    · rw [hereY, Function.update_self, newPid, Function.update_of_ne hereZ] at same
      exact absurd same.symm (fresh z inZ hereZ)
    · rw [hereZ, Function.update_self, newPid, Function.update_of_ne hereY] at same
      exact absurd same (fresh y inY hereY)
    · rw [Function.update_of_ne hereY] at same nonzero
      rw [Function.update_of_ne hereZ] at same
      exact alive.distinct y inY z inZ same nonzero

theorem reap (alive : Alive list objects children) {child : Child ι} (inTable : child ∈ children pid)
    (owner : child.owner = some x) (state : svc.state = .reaped) (samePid : svc.pid = (objects x).pid) :
    Alive list (Function.update objects x svc) (Function.update children pid none) := by
  obtain ⟨member, isUp, carries⟩ := alive.owned pid child inTable x owner
  have same : ∀ y, (Function.update objects x svc y).pid = (objects y).pid := by
    intro y
    by_cases here : y = x
    · rw [here, Function.update_self, samePid]
    · rw [Function.update_of_ne here]
  refine ⟨?_, ?_, ?_, ?_⟩
  · intro y inList
    by_cases here : y = x
    · rw [here, Function.update_self]
      exact .of_settled (.inr (.inl state)) (samePid ▸ (alive.services x member).nonneg)
    · rw [Function.update_of_ne here]
      refine alive.services_update inList fun other inOther ownOther => here ?_
      obtain rfl : child = other := Option.some.inj (inTable.symm.trans inOther)
      exact Option.some.inj (ownOther.symm.trans owner)
  · intro p other inOther y own
    obtain ⟨-, none⟩ | ⟨different, old⟩ := mem_update_children inOther
    · exact nomatch none
    · obtain ⟨inList, upY, carriesY⟩ := alive.owned p other old y own
      have here : y ≠ x := by
        rintro rfl
        exact different (carriesY.symm.trans carries)
      rw [Function.update_of_ne here]
      exact ⟨inList, upY, carriesY⟩
  · intro p other inOther
    obtain ⟨-, none⟩ | ⟨-, old⟩ := mem_update_children inOther
    · exact nomatch none
    · exact alive.positive p other old
  · simp only [same]
    exact alive.distinct

theorem create (alive : Alive list objects children) (absent : x ∉ list) (state : svc.state = .down)
    (noPid : svc.pid = 0) : Alive (list ++ [x]) (Function.update objects x svc) children := by
  have cases : ∀ y ∈ list ++ [x], Function.update objects x svc y = svc ∨
      (y ∈ list ∧ Function.update objects x svc y = objects y) := by
    intro y inList
    rcases List.mem_append.mp inList with old | new
    · have here : y ≠ x := fun same => absent (same ▸ old)
      exact .inr ⟨old, Function.update_of_ne here ..⟩
    · obtain rfl := List.mem_singleton.mp new
      exact .inl (Function.update_self ..)
  refine ⟨?_, ?_, alive.positive, ?_⟩
  · intro y inList
    rcases cases y inList with new | ⟨old, same⟩
    · rw [new]
      exact .of_settled (.inl state) noPid.ge
    · rw [same]
      exact alive.services y old
  · intro p c inTable y own
    obtain ⟨inList, rest⟩ := alive.owned p c inTable y own
    have here : y ≠ x := fun same => absent (same ▸ inList)
    rw [Function.update_of_ne here]
    exact ⟨List.mem_append_left _ inList, rest⟩
  · intro y inY z inZ equal nonzero
    rcases cases y inY with newY | ⟨oldY, sameY⟩
    · rw [newY] at nonzero
      exact absurd noPid nonzero
    · rcases cases z inZ with newZ | ⟨oldZ, sameZ⟩
      · rw [newZ, noPid] at equal
        exact absurd equal nonzero
      · rw [sameY, sameZ] at equal
        rw [sameY] at nonzero
        exact alive.distinct y oldY z oldZ equal nonzero

end Objects

/-- A child that belongs to no service is reaped. -/
theorem reap_orphan (alive : Alive list objects children) {child : Child ι} (inTable : child ∈ children pid)
    (owner : child.owner = none) : Alive list objects (Function.update children pid none) := by
  have old : ∀ {p other}, other ∈ Function.update children pid none p → other ∈ children p := by
    intro p other inOther
    obtain ⟨-, none⟩ | ⟨-, old⟩ := mem_update_children inOther
    · exact nomatch none
    · exact old
  refine ⟨?_, fun p other inOther => alive.owned p other (old inOther),
    fun p other inOther => alive.positive p other (old inOther), alive.distinct⟩
  intro y inList
  refine alive.services_update inList fun other inOther ownOther => ?_
  obtain rfl : child = other := Option.some.inj (inTable.symm.trans inOther)
  exact nomatch owner.symm.trans ownOther

/-- An unused pid is given to a child that belongs to no service. -/
theorem adopt (alive : Alive list objects children) (free : children pid = none) (positive : 0 < pid) :
    Alive list objects (Function.update children pid (some (.running none))) := by
  refine ⟨?_, ?_, ?_, alive.distinct⟩
  · exact fun y inList => alive.services_update inList fun child inTable => nomatch free ▸ inTable
  · intro p child inTable y own
    rcases mem_update_children inTable with ⟨-, new⟩ | ⟨-, old⟩
    · cases new
      exact nomatch own
    · exact alive.owned p child old y own
  · intro p child inTable
    rcases mem_update_children inTable with ⟨rfl, -⟩ | ⟨-, old⟩
    · exact positive
    · exact alive.positive p child old

theorem exit (alive : Alive list objects children) (wstat : ℤ) :
    Alive list objects (Function.update children pid (endProcess wstat (children pid))) := by
  have owners : ∀ p, (Function.update children pid (endProcess wstat (children pid)) p).map Child.owner =
      (children p).map Child.owner := by
    intro p
    by_cases here : p = pid
    · rw [here, Function.update_self]
      rcases children pid with _ | ⟨_ | _⟩ <;> rfl
    · rw [Function.update_of_ne here]
  have back : ∀ p, ∀ c ∈ Function.update children pid (endProcess wstat (children pid)) p,
      ∃ old ∈ children p, old.owner = c.owner := by
    intro p c inTable
    exact Option.mem_map.mp (owners p ▸ Option.mem_map_of_mem Child.owner inTable)
  refine ⟨?_, ?_, ?_, alive.distinct⟩
  · intro y inList
    obtain ⟨known, started, up, nonneg⟩ := alive.services y inList
    refine ⟨known, started, fun isUp => ?_, nonneg⟩
    obtain ⟨child, inTable, owner⟩ := up isUp
    exact Option.mem_map.mp (owners _ ▸ owner ▸ Option.mem_map_of_mem Child.owner inTable)
  · intro p c inTable y own
    obtain ⟨old, inOld, ownOld⟩ := back p c inTable
    exact alive.owned p old inOld y (ownOld ▸ own)
  · intro p c inTable
    obtain ⟨old, inOld, -⟩ := back p c inTable
    exact alive.positive p old inOld

/-- A service without a pid is deleted. -/
theorem delete (alive : Alive list objects children) (noPid : (objects x).pid = 0) {list' : List ι}
    (mem : ∀ y, y ∈ list' ↔ y ≠ x ∧ y ∈ list) : Alive list' objects children := by
  have within : ∀ y ∈ list', y ∈ list := fun y inside => ((mem y).mp inside).2
  refine ⟨fun y inside => alive.services y (within y inside), ?_, alive.positive,
    fun y inY z inZ => alive.distinct y (within y inY) z (within z inZ)⟩
  intro p c inTable y own
  obtain ⟨inList, upY, carries⟩ := alive.owned p c inTable y own
  refine ⟨(mem y).mpr ⟨?_, inList⟩, upY, carries⟩
  rintro rfl
  exact (alive.positive p c inTable).ne (noPid.symm.trans carries)

end Alive

end DaemonProxy.Proofs
