import DaemonProxy.Proofs.ControllerEffects

/-! # Who holds which descriptor

The descriptors that controllers hold are those in their fields and in their queues of passed ones, each once, and every
system call of a controller is on a descriptor that it holds. The table of holders is looked at apart from the fields, as
the code closes a descriptor first and forgets its number afterwards.
-/

namespace DaemonProxy.Proofs

open Lib Model

variable {n : ℕ}

/-! ## The table of holders -/

section Table

variable {w : World n} {fd : ℤ}

theorem holder_inside (opened : w.holder fd ≠ none) : 0 ≤ fd ∧ fd.toNat < w.fds.length := by
  rw [World.holder] at opened
  split_ifs at opened with negative
  · exact absurd rfl opened
  · refine ⟨by omega, ?_⟩
    by_contra outside
    rw [List.getElem?_eq_none (by omega)] at opened
    exact opened rfl

variable {other : ℤ}

theorem holder_setHolder_of_ne (positive : 0 ≤ fd) (holder : Option (Holder n)) (apart : other ≠ fd) :
    (w.setHolder fd holder).holder other = w.holder other := by
  rw [World.holder, World.holder, World.setHolder]
  split
  · rfl
  · rw [List.getElem?_set_ne (by omega)]

theorem holder_setHolder (opened : w.holder fd ≠ none) (holder : Option (Holder n)) (other : ℤ) :
    (w.setHolder fd holder).holder other = if other = fd then holder else w.holder other := by
  obtain ⟨positive, inside⟩ := holder_inside opened
  split
  · rename_i same
    rw [same, World.holder, World.setHolder, if_neg (by omega), List.getElem?_set_self inside]
    rfl
  · exact holder_setHolder_of_ne positive holder ‹_›

theorem holder_setHolder_none (w : World n) (fd : ℕ) (other : ℤ) :
    (w.setHolder fd none).holder other = if other = fd then none else w.holder other := by
  split
  · rename_i same
    rw [same, World.holder, if_neg (by omega), World.setHolder, Int.toNat_natCast, List.getElem?_set_self']
    cases w.fds[fd]? <;> rfl
  · exact holder_setHolder_of_ne (by omega) none ‹_›

theorem lowestFree_free (w : World n) : w.holder w.lowestFree = none := by
  rw [World.holder, if_neg (by omega), Int.toNat_natCast, World.lowestFree]
  by_cases inside : w.fds.findIdx (·.isNone) < w.fds.length
  · rw [List.getElem?_eq_getElem inside]
    have free := List.findIdx_getElem (w := inside)
    simpa using free
  · rw [List.getElem?_eq_none (by omega)]
    rfl

theorem lowestFree_le {fd : ℕ} (free : w.holder fd = none) : w.lowestFree ≤ fd := by
  by_contra below
  have inside : fd < w.fds.length := (Nat.lt_of_not_le below).trans_le List.findIdx_le_length
  have taken := List.not_of_lt_findIdx (Nat.lt_of_not_le below)
  rw [World.holder, if_neg (by omega), Int.toNat_natCast, List.getElem?_eq_getElem inside] at free
  simp only [Option.join_some] at free
  simp [free] at taken

theorem holder_openFd (w : World n) (holder : Holder n) (other : ℤ) :
    (w.openFd holder).holder other = if other = w.lowestFree then some holder else w.holder other := by
  have least : w.lowestFree ≤ w.fds.length := List.findIdx_le_length
  rw [World.holder, World.holder, World.openFd]
  by_cases negative : other < 0
  · rw [if_pos negative, if_pos negative, if_neg (by omega)]
  rw [if_neg negative, if_neg negative]
  split_ifs with inside same same
  · rw [same, Int.toNat_natCast, List.getElem?_set_self inside]
    rfl
  · rw [List.getElem?_set_ne (by omega)]
  · rw [same, Int.toNat_natCast, show w.lowestFree = w.fds.length by omega, List.getElem?_concat_length]
    rfl
  · by_cases below : other.toNat < w.fds.length
    · rw [List.getElem?_append_left below]
    · rw [List.getElem?_eq_none (by simp; omega), List.getElem?_eq_none (by omega)]

theorem holder_closeFd {i : Fin n} {holder : Holder n} (held : (w.closeFd i fd).holder other = some holder) :
    w.holder other = some holder := by
  simp only [World.closeFd] at held
  split at held
  · exact held
  · rename_i opened
    rw [holder_setHolder opened] at held
    split_ifs at held
    exact held

theorem holder_closeFds {i : Fin n} {fds : List ℤ} {holder : Holder n}
    (held : (fds.foldl (fun w fd => w.closeFd i fd) w).holder other = some holder) : w.holder other = some holder := by
  induction fds generalizing w with
  | nil => exact held
  | cons fd rest ih => exact holder_closeFd (ih held)

end Table

/-! ## Ownership -/

/-- Controllers hold what `held` says, each descriptor once, and have only used descriptors that they held. -/
structure OwnedBy (held : Fin n → List ℤ) (w : World n) : Prop where
  holds : ∀ fd i, w.holder fd = some (.controller i) ↔ fd ∈ held i
  once : ∀ i, (held i).Nodup
  calls : ∀ call ∈ w.sys, call.holder = some (.controller call.client)

section Owned

variable {held : Fin n → List ℤ} {w w' : World n} {i : Fin n} {fd : ℤ}

theorem OwnedBy.congr (owned : OwnedBy held w) {held' : Fin n → List ℤ} (mem : ∀ j fd, fd ∈ held' j ↔ fd ∈ held j)
    (once : ∀ j, (held' j).Nodup) (fds : w'.fds = w.fds) (sys : w'.sys = w.sys) : OwnedBy held' w' := by
  refine ⟨fun fd j => ?_, once, sys ▸ owned.calls⟩
  rw [World.holder, fds, mem, ← owned.holds, World.holder]

theorem OwnedBy.same (owned : OwnedBy held w) (fds : w'.fds = w.fds) (sys : w'.sys = w.sys) : OwnedBy held w' :=
  owned.congr (fun _ _ => Iff.rfl) owned.once fds sys

theorem OwnedBy.opened (owned : OwnedBy held w) (mem : fd ∈ held i) : w.holder fd ≠ none := by
  rw [(owned.holds fd i).mpr mem]
  nofun

/-- A controller uses a descriptor that it holds. -/
theorem OwnedBy.call (owned : OwnedBy held w) (mem : fd ∈ held i) (op : SysOp) : OwnedBy held (w.record op i fd) := by
  refine ⟨owned.holds, owned.once, fun call member => ?_⟩
  rcases List.mem_append.mp member with old | new
  · exact owned.calls call old
  · obtain rfl := List.mem_singleton.mp new
    exact (owned.holds fd i).mpr mem

variable {holder : Option (Holder n)}

theorem OwnedBy.pass (owned : OwnedBy held w) {held' : Fin n → List ℤ}
    (table : ∀ other, w'.holder other = if other = fd then holder else w.holder other)
    (mem : ∀ j other, other ∈ held' j ↔ if other = fd then holder = some (.controller j) else other ∈ held j)
    (once : ∀ j, (held' j).Nodup) (sys : w'.sys = w.sys) : OwnedBy held' w' := by
  refine ⟨fun other j => ?_, once, sys ▸ owned.calls⟩
  rw [table, mem]
  split
  · rfl
  · exact owned.holds other j

/-- What a controller gives up. -/
def without (held : Fin n → List ℤ) (i : Fin n) (fd : ℤ) : Fin n → List ℤ := Function.update held i ((held i).erase fd)

theorem mem_without (owned : OwnedBy held w) (mem : fd ∈ held i) (j : Fin n) (other : ℤ) :
    other ∈ without held i fd j ↔ other ≠ fd ∧ other ∈ held j := by
  rcases eq_or_ne j i with rfl | apart
  · rw [without, Function.update_self, (owned.once j).mem_erase_iff]
  · rw [without, Function.update_of_ne apart]
    refine ⟨fun member => ⟨?_, member⟩, And.right⟩
    rintro rfl
    have both := ((owned.holds other i).mpr mem).symm.trans ((owned.holds other j).mpr member)
    exact apart (Holder.controller.inj (Option.some.inj both)).symm

theorem without_nodup (owned : OwnedBy held w) (i : Fin n) (fd : ℤ) (j : Fin n) : (without held i fd j).Nodup := by
  rcases eq_or_ne j i with rfl | apart
  · rw [without, Function.update_self]
    exact (owned.once j).erase fd
  · rw [without, Function.update_of_ne apart]
    exact owned.once j

/-- A descriptor that a controller held is closed, or handed to another part of the daemon. -/
theorem OwnedBy.release (owned : OwnedBy held w) (mem : fd ∈ held i)
    (leaves : ∀ j, holder ≠ some (.controller j)) : OwnedBy (without held i fd) (w.setHolder fd holder) := by
  apply owned.pass (holder_setHolder (owned.opened mem) holder) _ (without_nodup owned i fd) rfl
  intro j other
  rw [mem_without owned mem]
  split
  · rename_i same
    exact ⟨fun apart => absurd same apart.1, fun held => absurd held (leaves j)⟩
  · rename_i apart
    exact and_iff_right apart

theorem OwnedBy.close (owned : OwnedBy held w) (mem : fd ∈ held i) : OwnedBy (without held i fd) (w.closeFd i fd) := by
  have called := owned.call mem .close
  rw [World.closeFd]
  simp only [if_neg (called.opened mem)]
  exact called.release mem (by rintro _ ⟨⟩)

theorem OwnedBy.acquire (owned : OwnedBy held w) (table : ∀ other, w'.holder other =
      if other = fd then some (.controller i) else w.holder other)
    (free : ∀ j, w.holder fd ≠ some (.controller j)) (sys : w'.sys = w.sys) :
    OwnedBy (Function.update held i (held i ++ [fd])) w' := by
  have unheld : ∀ j, fd ∉ held j := fun j member => free j ((owned.holds fd j).mpr member)
  apply owned.pass table _ _ sys
  · intro j other
    rcases eq_or_ne j i with rfl | apart
    · rw [Function.update_self, List.mem_append, List.mem_singleton]
      split
      · rename_i same
        simp [same]
      · rename_i other
        simp [other]
    · rw [Function.update_of_ne apart]
      split
      · rename_i same
        subst same
        simp [unheld j, Ne.symm apart]
      · rfl
  · intro j
    rcases eq_or_ne j i with rfl | apart
    · rw [Function.update_self, List.nodup_append]
      refine ⟨owned.once j, List.nodup_singleton fd, fun a member b new => ?_⟩
      obtain rfl := List.mem_singleton.mp new
      rintro rfl
      exact unheld j member
    · rw [Function.update_of_ne apart]
      exact owned.once j

/-- What the controllers do not hold may change. -/
theorem OwnedBy.elsewhere (owned : OwnedBy held w) (table : ∀ other, w'.holder other =
      if other = fd then holder else w.holder other) (free : ∀ j, w.holder fd ≠ some (.controller j))
    (leaves : ∀ j, holder ≠ some (.controller j)) (sys : w'.sys = w.sys) : OwnedBy held w' := by
  apply owned.pass table _ owned.once sys
  intro j other
  split
  · rename_i same
    subst same
    exact ⟨fun member => absurd ((owned.holds other j).mpr member) (free j), fun held => absurd held (leaves j)⟩
  · rfl

end Owned

/-! ## The fields of controllers -/

/-- The descriptors in the fields and the queue of a controller. -/
def handles (ctl : Controller) : List ℤ :=
  (if 0 ≤ ctl.recv.fd then [ctl.recv.fd] else []) ++
    (if 0 ≤ ctl.send.fd ∧ ctl.send.fd ≠ ctl.recv.fd then [ctl.send.fd] else []) ++ ctl.recv.ancillaryFd

variable {ctl : Controller}

theorem mem_handles {fd : ℤ} : fd ∈ handles ctl ↔
    (0 ≤ ctl.recv.fd ∧ fd = ctl.recv.fd) ∨ (0 ≤ ctl.send.fd ∧ fd = ctl.send.fd) ∨ fd ∈ ctl.recv.ancillaryFd := by
  simp only [handles, List.mem_append, List.mem_ite_nil_right, List.mem_singleton]
  constructor
  · rintro ((first | second) | third)
    · exact .inl first
    · exact .inr (.inl ⟨second.1.1, second.2⟩)
    · exact .inr (.inr third)
  · rintro (first | second | third)
    · exact .inl (.inl first)
    · by_cases same : ctl.send.fd = ctl.recv.fd
      · exact .inl (.inl ⟨same ▸ second.1, second.2.trans same⟩)
      · exact .inl (.inr ⟨⟨second.1, same⟩, second.2⟩)
    · exact .inr third

theorem handles_nodup : (handles ctl).Nodup ↔ ctl.recv.ancillaryFd.Nodup ∧
    (0 ≤ ctl.recv.fd → ctl.recv.fd ∉ ctl.recv.ancillaryFd) ∧ (0 ≤ ctl.send.fd → ctl.send.fd ∉ ctl.recv.ancillaryFd) := by
  simp only [handles]
  split_ifs with first second second
  · simp [second.1, first, Ne.symm second.2, and_comm, and_left_comm]
  · by_cases used : 0 ≤ ctl.send.fd
    · have same : ctl.send.fd = ctl.recv.fd := by
        by_contra apart
        exact second ⟨used, apart⟩
      simp [first, same, and_comm]
    · simp [first, used, and_comm]
  · simp [first, second.1, and_comm]
  · have unused : ¬ 0 ≤ ctl.send.fd := fun used => second ⟨used, by omega⟩
    simp [first, unused]

/-- The controller is free, or has been destroyed. -/
def Gone (ctl : Controller) : Prop := ctl.stateFn = none ∨ ctl.stateFn = some .free

instance (ctl : Controller) : Decidable (Gone ctl) := inferInstanceAs (Decidable (_ ∨ _))

/-- What a controller holds, as its fields say; one that is gone holds nothing. -/
def handlesIn (w : World n) (i : Fin n) : List ℤ := if Gone (w.client i) then [] else handles (w.client i)

/-- The fields agree with the state: a controller that closes does not read, one that was destroyed does nothing. -/
structure InOrder (ctl : Controller) : Prop where
  range : -1 ≤ ctl.send.fd
  closing : ctl.stateFn = some .close → ctl.recv.fd < 0
  freed : ctl.stateFn = some .free → ctl.recv.fd < 0 ∧ ctl.send.fd < 0

/-- The descriptors of the controllers are in order. -/
structure Owned (w : World n) : Prop where
  owned : OwnedBy (handlesIn w) w
  fields : ∀ i, InOrder (w.client i)

/-- The controller reads from and writes to the same descriptor. -/
def Shared (ctl : Controller) : Prop := 0 ≤ ctl.recv.fd ∧ ctl.send.fd = ctl.recv.fd

instance (ctl : Controller) : Decidable (Shared ctl) := inferInstanceAs (Decidable (_ ∧ _))

/-- No write to a shared descriptor fails for good. -/
def Calm (w : World n) : Prop := ∀ i, Shared (w.client i) → WriteReply.fatal ∉ w.replies i

section Fields

variable {w w' : World n} {i : Fin n}

theorem Owned.present (owned : Owned w) (allocated : (w.client i).stateFn ≠ none)
    (used : 0 ≤ (w.client i).recv.fd ∨ 0 ≤ (w.client i).send.fd) : ¬ Gone (w.client i) := by
  rintro (free | destroyed)
  · exact allocated free
  · have := (owned.fields i).freed destroyed
    omega

theorem handlesIn_of_present (present : ¬ Gone (w.client i)) : handlesIn w i = handles (w.client i) := if_neg present

/-- The fields of all controllers stay as they are. -/
theorem Owned.congr (owned : Owned w) (stateFn : ∀ j, (w'.client j).stateFn = (w.client j).stateFn)
    (recvFd : ∀ j, (w'.client j).recv.fd = (w.client j).recv.fd)
    (sendFd : ∀ j, (w'.client j).send.fd = (w.client j).send.fd)
    (queue : ∀ j, (w'.client j).recv.ancillaryFd = (w.client j).recv.ancillaryFd) (table : OwnedBy (handlesIn w) w') :
    Owned w' := by
  have same : handlesIn w' = handlesIn w := by
    funext j
    have gone : Gone (w'.client j) ↔ Gone (w.client j) := by rw [Gone, Gone, stateFn]
    exact if_congr gone rfl (by rw [handles, handles, recvFd, sendFd, queue])
  refine ⟨same ▸ table, fun j => ⟨sendFd j ▸ (owned.fields j).range, ?_, ?_⟩⟩
  · rw [stateFn, recvFd]
    exact (owned.fields j).closing
  · rw [stateFn, recvFd, sendFd]
    exact (owned.fields j).freed

theorem Owned.aside (owned : Owned w) (client : w'.client = w.client) (fds : w'.fds = w.fds) (sys : w'.sys = w.sys) :
    Owned w' := by
  apply owned.congr _ _ _ _ (owned.owned.same fds sys)
  all_goals
    intro j
    rw [client]

/-- One controller's fields change together with the table. -/
theorem owned_of_change (fields : ∀ j, j ≠ i → InOrder (w.client j)) {held : List ℤ}
    (others : ∀ j, j ≠ i → w'.client j = w.client j) (table : OwnedBy (Function.update (handlesIn w) i held) w')
    (here : InOrder (w'.client i)) (mem : ∀ fd, fd ∈ handlesIn w' i ↔ fd ∈ held) (once : (handlesIn w' i).Nodup) :
    Owned w' := by
  have elsewhere : ∀ j, j ≠ i → handlesIn w' j = Function.update (handlesIn w) i held j := fun j other => by
    rw [Function.update_of_ne other, handlesIn, handlesIn, others j other]
  refine ⟨table.congr (fun j fd => ?_) (fun j => ?_) rfl rfl, fun j => ?_⟩
  all_goals rcases eq_or_ne j i with rfl | other
  · rw [mem, Function.update_self]
  · rw [elsewhere j other]
  · exact once
  · rw [elsewhere j other]
    exact table.once j
  · exact here
  · rw [others j other]
    exact fields j other

/-- One controller changes, but not in its descriptors. -/
theorem Owned.setClient (owned : Owned w) (client : w'.client = (w.setClient i ctl).client)
    (held : handles ctl = handles (w.client i)) (gone : Gone ctl ↔ Gone (w.client i)) (here : InOrder ctl) (fds : w'.fds = w.fds) (sys : w'.sys = w.sys) : Owned w' := by
  have changed : w'.client i = ctl := by rw [client, setClient_client]
  have same : handlesIn w' i = handlesIn w i := by
    rw [handlesIn, handlesIn, changed]
    exact if_congr gone rfl held
  have table : OwnedBy (Function.update (handlesIn w) i (handlesIn w i)) w' := by
    rw [Function.update_eq_self]
    exact owned.owned.same fds sys
  apply owned_of_change (fun j _ => owned.fields j) _ table
  · rw [changed]
    exact here
  · intro fd
    rw [same]
  · rw [same]
    exact owned.owned.once i
  · intro j other
    rw [client]
    exact Function.update_of_ne other ..

theorem Owned.setRecv (owned : Owned w) {recv : RecvSide} (client : w'.client = (w.setRecv i recv).client)
    (fd : recv.fd = (w.client i).recv.fd) (queue : recv.ancillaryFd = (w.client i).recv.ancillaryFd)
    (fds : w'.fds = w.fds) (sys : w'.sys = w.sys) : Owned w' := by
  have fields := owned.fields i
  apply owned.setClient client (by simp [handles, fd, queue]) Iff.rfl _ fds sys
  exact ⟨fields.range, fun closing => fd ▸ fields.closing closing, fun freed => fd ▸ fields.freed freed⟩

/-- A controller that is present goes to another state. -/
theorem Owned.setState (owned : Owned w) (present : ¬ Gone (w.client i)) {state : CtlState} {recv : RecvSide}
    (client : w'.client = (w.setClient i { w.client i with stateFn := some state, recv }).client)
    (fd : recv.fd = (w.client i).recv.fd) (queue : recv.ancillaryFd = (w.client i).recv.ancillaryFd)
    (stays : state ≠ .free) (closing : state = .close → recv.fd < 0) (fds : w'.fds = w.fds) (sys : w'.sys = w.sys) :
    Owned w' := by
  apply owned.setClient client (by simp [handles, fd, queue]) _ _ fds sys
  · simp [Gone] at present
    simp [Gone, present, stays]
  · exact ⟨(owned.fields i).range, fun here => closing (Option.some.inj here),
      fun here => absurd (Option.some.inj here) stays⟩

/-- A controller gives up a descriptor. -/
theorem Owned.released (owned : Owned w) {fd : ℤ} (mem : fd ∈ handlesIn w i)
    (table : OwnedBy (without (handlesIn w) i fd) w') (others : ∀ j, j ≠ i → w'.client j = w.client j)
    (here : InOrder (w'.client i)) (present : ¬ Gone (w'.client i))
    (kept : ∀ other, other ∈ handles (w'.client i) ↔ other ≠ fd ∧ other ∈ handlesIn w i)
    (once : (handles (w'.client i)).Nodup) : Owned w' := by
  have handles := handlesIn_of_present present
  refine owned_of_change (fun j _ => owned.fields j) others table here (fun other => ?_) ?_
  · have erased := mem_without owned.owned mem i other
    rw [without, Function.update_self] at erased
    rw [handles, kept, erased]
  · rw [handles]
    exact once

/-! ### Output -/

theorem Owned.send_mem (owned : Owned w) (allocated : (w.client i).stateFn ≠ none) (used : (w.client i).send.fd ≠ -1) :
    0 ≤ (w.client i).send.fd ∧ (w.client i).send.fd ∈ handlesIn w i := by
  have positive : 0 ≤ (w.client i).send.fd := by
    have := (owned.fields i).range
    omega
  rw [handlesIn_of_present (owned.present allocated (.inr positive)), mem_handles]
  exact ⟨positive, .inr (.inl ⟨positive, rfl⟩)⟩

theorem Owned.callWrite (owned : Owned w) (allocated : (w.client i).stateFn ≠ none) (used : (w.client i).send.fd ≠ -1) :
    OwnedBy (handlesIn w) (w.callWrite i) :=
  (owned.owned.call (owned.send_mem allocated used).2 .write).same rfl rfl

theorem Owned.failWrite (owned : Owned w) (allocated : (w.client i).stateFn ≠ none) (used : (w.client i).send.fd ≠ -1)
    (apart : ¬ Shared (w.client i)) : Owned (w.failWrite i) := by
  obtain ⟨positive, mem⟩ := owned.send_mem allocated used
  have present := owned.present allocated (.inr positive)
  have table : OwnedBy (without (handlesIn w) i (w.client i).send.fd) (w.failWrite i) :=
    ((owned.callWrite allocated used).close mem).same rfl rfl
  obtain ⟨queued, recv, send⟩ := handles_nodup.mp (handlesIn_of_present present ▸ owned.owned.once i)
  have client : (w.failWrite i).client i = { w.client i with send := { (w.client i).send with fd := -1 } } := by
    simp [World.failWrite, World.setSend]
  apply owned.released mem table
  · intro j other
    simp [World.failWrite, World.setSend, World.setClient, other]
  · rw [client]
    refine ⟨le_rfl, (owned.fields i).closing, fun destroyed => absurd (.inr destroyed) present⟩
  · rw [client]
    exact present
  · intro other
    rw [client, handlesIn_of_present present, mem_handles, mem_handles]
    constructor
    · rintro (⟨used, rfl⟩ | ⟨used, -⟩ | queued)
      · exact ⟨fun same => apart ⟨used, same.symm⟩, .inl ⟨used, rfl⟩⟩
      · exact absurd used (show ¬ (0 : ℤ) ≤ -1 by decide)
      · exact ⟨fun same => send positive (same ▸ queued), .inr (.inr queued)⟩
    · rintro ⟨other, recv | ⟨-, same⟩ | queued⟩
      · exact .inl recv
      · exact absurd same other
      · exact .inr (.inr queued)
  · rw [client, handles_nodup]
    exact ⟨queued, recv, fun used => absurd used (show ¬ (0 : ℤ) ≤ -1 by decide)⟩

theorem Owned.setSend (owned : Owned w) {send : SendSide} (client : w'.client = (w.setSend i send).client)
    (fd : send.fd = (w.client i).send.fd) (table : OwnedBy (handlesIn w) w') : Owned w' := by
  apply owned.congr _ _ _ _ table
  all_goals
    intro j
    rw [client]
    rcases eq_or_ne j i with rfl | other
    · simp [World.setSend, fd]
    · simp [World.setSend, World.setClient, other]

theorem Owned.sendStep (owned : Owned w) (calm : Calm w) (step : SendStep i w w') : Owned w' := by
  cases step with
  | accepted count _ _ used allocated | blocked used allocated =>
    exact owned.setSend rfl rfl ((owned.callWrite allocated used).same rfl rfl)
  | failed used allocated fatal =>
    apply owned.failWrite allocated used
    intro shared
    -- the descriptor is open, so that the failure is one of the replies
    have opened := owned.owned.opened (owned.send_mem allocated used).2
    rw [World.writeReply, if_neg opened] at fatal
    cases replies : w.replies i with
    | nil => simp [replies] at fatal
    | cons reply rest =>
      rw [replies, List.headD_cons] at fatal
      exact calm i shared (by rw [replies, fatal]; exact List.mem_cons_self)
  | discarded | cut | marked | queued | refused => exact owned.setSend rfl rfl (owned.owned.same rfl rfl)

theorem SendStep.fd (step : SendStep i w w') (j : Fin n) :
    (w'.client j).send.fd = (w.client j).send.fd ∨ (w'.client j).send.fd = -1 := by
  rcases eq_or_ne j i with rfl | other
  · cases step with
    | accepted => exact .inl (by simp [World.acceptBytes])
    | blocked => exact .inl (by simp [World.blockWrite])
    | failed => exact .inr (by simp [World.failWrite])
    | discarded | cut => exact .inl (by simp [World.dropOutput])
    | marked => exact .inl (by simp [World.markOverflow])
    | queued => exact .inl (by simp [World.queueText])
    | refused => exact .inl (by simp [World.refuse])
  · rw [(step.others other).1]
    exact .inl rfl

theorem SendStep.replies (step : SendStep i w w') :
    w'.replies = w.replies ∨ w'.replies = Function.update w.replies i (w.replies i).tail := by
  cases step with
  | accepted => exact .inr rfl
  | blocked => exact .inr rfl
  | failed =>
    refine .inr ?_
    simp [World.failWrite, World.setSend, World.setClient]
    rfl
  | _ => exact .inl rfl

theorem Shared.of_sendStep (step : SendStep i w w') {j : Fin n} (shared : Shared (w'.client j)) : Shared (w.client j) := by
  obtain ⟨used, same⟩ := shared
  rw [(step.sameInput j).recv] at used same
  refine ⟨used, (step.fd j).elim (fun kept => kept ▸ same) fun gone => ?_⟩
  omega

theorem SendStep.calm (step : SendStep i w w') (calm : Calm w) : Calm w' := by
  intro j shared member
  apply calm j (shared.of_sendStep step)
  rcases step.replies with same | taken
  · rwa [same] at member
  · rw [taken] at member
    rcases eq_or_ne j i with rfl | other
    · rw [Function.update_self] at member
      exact List.mem_of_mem_tail member
    · rwa [Function.update_of_ne other] at member

/-- The descriptors are in order, and writes to shared ones do not fail. -/
def Safe (w : World n) : Prop := Owned w ∧ Calm w

theorem Sends.safe (sends : Sends w w') (safe : Safe w) : Safe w' :=
  sends.preserve (fun _ _ _ safe step => ⟨safe.1.sendStep safe.2 step, step.calm safe.2⟩) safe

end Fields

/-! ## Input -/

section Input

variable {w w' : World n} {i : Fin n}

theorem Owned.recv_mem (owned : Owned w) (allocated : (w.client i).stateFn ≠ none) (used : 0 ≤ (w.client i).recv.fd) :
    (w.client i).recv.fd ∈ handlesIn w i := by
  rw [handlesIn_of_present (owned.present allocated (.inl used)), mem_handles]
  exact .inl ⟨used, rfl⟩

/-- The input descriptor is closed, and its number forgotten. -/
theorem Owned.closeRecv (owned : Owned w) (allocated : (w.client i).stateFn ≠ none) (used : 0 ≤ (w.client i).recv.fd)
    (apart : ¬ Shared (w.client i)) {state : CtlState} (present : state ≠ .free)
    (client : w'.client = (w.setClient i { w.client i with
      stateFn := some state, recv := { (w.client i).recv with fd := -1 } }).client)
    (fds : w'.fds = (w.closeFd i (w.client i).recv.fd).fds) (sys : w'.sys = (w.closeFd i (w.client i).recv.fd).sys) :
    Owned w' := by
  have mem := owned.recv_mem allocated used
  have before := handlesIn_of_present (owned.present allocated (.inl used))
  obtain ⟨queued, recv, send⟩ := handles_nodup.mp (before ▸ owned.owned.once i)
  have here := congrFun client i
  rw [setClient_client] at here
  have closed : ¬ (0 : ℤ) ≤ -1 := by decide
  apply owned.released mem ((owned.owned.close mem).same fds sys)
  · intro j other
    rw [client]
    exact Function.update_of_ne other ..
  · rw [here]
    exact ⟨(owned.fields i).range, fun _ => Int.negSucc_lt_zero 0, fun freed => absurd (Option.some.inj freed) present⟩
  · simp [here, Gone, present]
  · intro other
    rw [here, before, mem_handles, mem_handles]
    constructor
    · rintro (⟨used, -⟩ | ⟨used', rfl⟩ | queued)
      · exact absurd used closed
      · exact ⟨fun same => apart ⟨used, same⟩, .inr (.inl ⟨used', rfl⟩)⟩
      · exact ⟨fun same => recv used (same ▸ queued), .inr (.inr queued)⟩
    · rintro ⟨other, ⟨-, same⟩ | send | queued⟩
      · exact absurd same other
      · exact .inr (.inl send)
      · exact .inr (.inr queued)
  · rw [here, handles_nodup]
    exact ⟨queued, fun used => absurd used closed, send⟩

/-- The descriptors of the controllers are in order, but for those that one of them still has to take. -/
structure Receiving (i : Fin n) (pending : List ℤ) (w : World n) : Prop where
  owned : OwnedBy (Function.update (handlesIn w) i (handlesIn w i ++ pending)) w
  fields : ∀ j, InOrder (w.client j)
  present : ¬ Gone (w.client i)

theorem Owned.receiving (owned : Owned w) (present : ¬ Gone (w.client i)) : Receiving i [] w := by
  refine ⟨?_, owned.fields, present⟩
  rw [List.append_nil, Function.update_eq_self]
  exact owned.owned

theorem Receiving.done (receiving : Receiving i [] w) : Owned w := by
  have owned := receiving.owned
  rw [List.append_nil, Function.update_eq_self] at owned
  exact ⟨owned, receiving.fields⟩

theorem Receiving.receive {pending : List ℤ} (receiving : Receiving i pending w) (passed : ℕ) :
    Receiving i (pending ++ (receiveFds i passed w).1) (receiveFds i passed w).2 := by
  induction passed generalizing w pending with
  | zero =>
    rw [show (receiveFds i 0 w).1 = [] from rfl, List.append_nil]
    exact receiving
  | succ passed ih =>
    have unheld : ∀ j, w.holder w.lowestFree ≠ some (.controller j) := fun j held => nomatch (lowestFree_free w).symm.trans held
    have opened := receiving.owned.acquire (holder_openFd w (.controller i)) unheld rfl
    rw [Function.update_self, Function.update_idem, List.append_assoc] at opened
    have next : Receiving i (pending ++ [(w.lowestFree : ℤ)]) (w.openFd (.controller i)) :=
      ⟨opened, receiving.fields, receiving.present⟩
    have rest := ih next
    rw [List.append_assoc] at rest
    exact rest

theorem Receiving.take {fd : ℤ} {rest : List ℤ} (receiving : Receiving i (fd :: rest) w) :
    Receiving i rest (takeAncillary i fd w) := by
  obtain ⟨owned, fields, present⟩ := receiving
  rw [takeAncillary]
  split
  · -- it is queued, at the end of what the controller holds
    let recv := { (w.client i).recv with ancillaryFd := (w.client i).recv.ancillaryFd ++ [fd] }
    have here : (w.setRecv i recv).client i = { w.client i with recv } := by rw [World.setRecv, setClient_client]
    have others : ∀ j, j ≠ i → (w.setRecv i recv).client j = w.client j := fun j other => Function.update_of_ne other ..
    have present' : ¬ Gone ((w.setRecv i recv).client i) := by
      rw [here]
      exact present
    have grown : handlesIn (w.setRecv i recv) i = handlesIn w i ++ [fd] := by
      rw [handlesIn_of_present present', handlesIn_of_present present, here]
      simp [handles, recv]
    refine ⟨?_, fun j => ?_, present'⟩
    · have same : Function.update (handlesIn (w.setRecv i recv)) i (handlesIn (w.setRecv i recv) i ++ rest) =
          Function.update (handlesIn w) i (handlesIn w i ++ fd :: rest) := by
        funext j
        rcases eq_or_ne j i with rfl | other
        · rw [Function.update_self, Function.update_self, grown, List.append_assoc]
          rfl
        · rw [Function.update_of_ne other, Function.update_of_ne other, handlesIn, handlesIn, others j other]
      rw [same]
      exact owned.same rfl rfl
    · rcases eq_or_ne j i with rfl | other
      · rw [here]
        exact ⟨(fields j).range, (fields j).closing, (fields j).freed⟩
      · rw [others j other]
        exact fields j
  · -- it is closed again
    have mem : fd ∈ Function.update (handlesIn w) i (handlesIn w i ++ fd :: rest) i := by simp
    have unheld : fd ∉ handlesIn w i := by
      have once := owned.once i
      rw [Function.update_self] at once
      exact fun member => List.disjoint_of_nodup_append once member List.mem_cons_self
    have closed := owned.close mem
    rw [without, Function.update_self, Function.update_idem, List.erase_append_right _ unheld, List.erase_cons_head] at closed
    have handles : handlesIn (w.closeFd i fd) = handlesIn w := by
      funext j
      rw [handlesIn, handlesIn, closeFd_client]
    refine ⟨?_, ?_, ?_⟩
    · rw [handles]
      exact closed
    · rw [closeFd_client]
      exact fields
    · rw [closeFd_client]
      exact present

theorem Receiving.takeAll {fds : List ℤ} (receiving : Receiving i fds w) : Owned (fds.foldl (fun w fd => takeAncillary i fd w) w) := by
  induction fds generalizing w with
  | nil => exact receiving.done
  | cons fd rest ih => exact ih receiving.take

theorem Owned.passFds (owned : Owned w) (present : ¬ Gone (w.client i)) (passed : ℕ) : Owned (passFds i passed w) := by
  have received := (owned.receiving present).receive passed
  rw [List.nil_append] at received
  have recorded : Receiving i (receiveFds i passed w).1 { (receiveFds i passed w).2 with
      delivered := (receiveFds i passed w).2.delivered ++ (receiveFds i passed w).1.map fun fd => (i, fd) } :=
    ⟨received.owned.same rfl rfl, received.fields, received.present⟩
  exact recorded.takeAll

/-- The first descriptor of the queue is taken out. -/
theorem Owned.takeFirst (owned : Owned w) (present : ¬ Gone (w.client i)) {fd : ℤ} {rest : List ℤ}
    (queue : (w.client i).recv.ancillaryFd = fd :: rest)
    (client : w'.client = (w.setRecv i { (w.client i).recv with ancillaryFd := rest }).client)
    (table : OwnedBy (without (handlesIn w) i fd) w') : Owned w' := by
  have before := handlesIn_of_present present
  obtain ⟨queued, recv, send⟩ := handles_nodup.mp (before ▸ owned.owned.once i)
  rw [queue] at queued recv send
  have mem : fd ∈ handlesIn w i := by
    rw [before, mem_handles, queue]
    exact .inr (.inr List.mem_cons_self)
  have here := congrFun client i
  rw [World.setRecv, setClient_client] at here
  apply owned.released mem table
  · intro j other
    rw [client]
    exact Function.update_of_ne other ..
  · have fields := owned.fields i
    rw [here]
    exact ⟨fields.range, fields.closing, fields.freed⟩
  · rw [here]
    exact present
  · intro other
    rw [here, before, mem_handles, mem_handles, queue, List.mem_cons]
    constructor
    · rintro (⟨used, rfl⟩ | ⟨used, rfl⟩ | member)
      · exact ⟨fun same => recv used (List.mem_cons.mpr (.inl same)), .inl ⟨used, rfl⟩⟩
      · exact ⟨fun same => send used (List.mem_cons.mpr (.inl same)), .inr (.inl ⟨used, rfl⟩)⟩
      · exact ⟨fun same => (List.nodup_cons.mp queued).1 (same ▸ member), .inr (.inr (.inr member))⟩
    · rintro ⟨apart, first | second | same | member⟩
      · exact .inl first
      · exact .inr (.inl second)
      · exact absurd same apart
      · exact .inr (.inr member)
  · rw [here, handles_nodup]
    refine ⟨(List.nodup_cons.mp queued).2, fun used member => ?_, fun used member => ?_⟩
    · exact recv used (List.mem_cons_of_mem fd member)
    · exact send used (List.mem_cons_of_mem fd member)

end Input

end DaemonProxy.Proofs
