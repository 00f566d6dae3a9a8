import DaemonProxy.Proofs.DescriptorRuns

/-! # Starting a service

What `svc_do_fork` leaves behind when it fails, by the place where it failed. At most one descriptor is closed with the
controller: its end of the pair once it is constructed, and number 0 as long as it is zero-filled.
-/

namespace DaemonProxy.Proofs

open Lib Model

variable {n : ℕ} {w w' : World n} {i : Fin n} {fd : ℤ}

/-- The machine's event for a service is what `svc_do_fork` does. -/
theorem svcControlSocket_run (uses : ControlUses) (socketpair nonblock fork : Bool)
    (wanted : (uses.socket || uses.event || uses.cmd) = true) (w : World n) :
    (svcControlSocket (uses.socket || uses.event) (uses.socket || uses.cmd) socketpair nonblock fork).run w =
      ((svcDoForkControl uses socketpair nonblock fork).run w).map fun result => ((), result.2) := by
  rw [svcDoForkControl, if_pos wanted, svcControlSocket, StateT.run_bind, StateT.run_bind]
  cases ctlAlloc.run w with
  | none => rfl
  | some found =>
    obtain ⟨found, w₁⟩ := found
    simp only [Option.bind_eq_bind, Option.bind_some]
    cases found with
    | none => rfl
    | some i =>
      cases socketpair with
      | false =>
        simp only [Bool.false_eq_true, if_false, svcDoForkFail, StateT.run_bind, Option.bind_eq_bind, Option.map_bind]
        rfl
      | true =>
        simp only [if_true, StateT.run_bind, StateT.run_get, StateT.run_modify, Option.pure_def, Option.bind_eq_bind,
          Option.bind_some, Option.map_bind]
        congr 1
        funext result
        obtain ⟨made, w₂⟩ := result
        have failed : ∀ ours theirs : ℕ, (do
            ctlDtor i
            ctlFree i
            modify fun w => w.setHolder theirs none : CtlM n Unit).run w₂ =
            ((svcDoForkFail (some i) (some (ours, theirs))).run w₂).map fun result => ((), result.2) := by
          intro ours theirs
          simp only [svcDoForkFail, StateT.run_bind, Option.bind_eq_bind, Option.map_bind]
          rfl
        cases made with
        | false => exact failed w₁.lowestFree _
        | true =>
          cases fork with
          | false => exact failed w₁.lowestFree _
          | true => rfl

/-! ## Descriptors that are opened and closed -/

theorem closeFd_table (w : World n) (i : Fin n) (fd other : ℤ) :
    (w.closeFd i fd).holder other = if other = fd then none else w.holder other := by
  simp only [World.closeFd]
  split
  · rename_i closed
    split
    · rename_i same
      exact same ▸ closed
    · rfl
  · rename_i opened
    exact holder_setHolder opened none other

theorem closeFd_sys (w : World n) (i : Fin n) (fd : ℤ) :
    (w.closeFd i fd).sys = w.sys ++ [⟨.close, i, fd, w.holder fd⟩] := by
  simp only [World.closeFd]
  split <;> rfl

/-- A controller with one descriptor is destroyed and freed. -/
structure Freed (i : Fin n) (fd : ℤ) (w w' : World n) : Prop where
  table : ∀ other, w'.holder other = if other = fd then none else w.holder other
  sys : w'.sys = w.sys ++ [⟨.close, i, fd, w.holder fd⟩]
  others : ∀ j, j ≠ i → (w'.client j).stateFn = (w.client j).stateFn
  freed : (w'.client i).stateFn = none

theorem ctlDtor_ctlFree_freed (single : handles (w.client i) = [fd]) :
    Ends (ctlDtor i) w fun _ w₁ => Ends (ctlFree i) w₁ fun _ w' => Freed i fd w w' := by
  refine (ctlDtor_closes i w).mono fun _ w₁ closed => ?_
  rw [single, List.foldl_cons, List.foldl_nil] at closed
  subst closed
  rw [ctlFree, ends_modify]
  refine ⟨closeFd_table w i fd, closeFd_sys w i fd, fun j other => ?_, by simp⟩
  simp [World.setState, World.setClient, other]

/-- `ctl_ctor` with one descriptor, used in one direction or in both. -/
structure Constructed (i : Fin n) (fd : ℤ) (w w' : World n) : Prop where
  single : handles (w'.client i) = [fd]
  table : ∀ other, w'.holder other = if other = fd then some (.controller i) else w.holder other
  sys : w'.sys = w.sys
  others : ∀ j, j ≠ i → w'.client j = w.client j

theorem ctlCtor_constructed (fresh : ∃ stateFn, w.client i = { stateFn }) {read write : Bool} (wanted : (read || write) = true)
    (positive : 0 ≤ fd) (opened : w.holder fd ≠ none) (isSocket nonblock : Bool) :
    Ends (ctlCtor i (if write then fd else -1) (if read then fd else -1) isSocket nonblock) w fun made w' =>
      made = nonblock ∧ if made then Constructed i fd w w' else w' = w := by
  obtain ⟨stateFn, fresh⟩ := fresh
  have used : fd ≠ -1 := by omega
  have again : ∀ other, ((w.setHolder fd (some (.controller i))).setHolder fd (some (.controller i))).holder other =
      if other = fd then some (.controller i) else w.holder other := by
    intro other
    have held : (w.setHolder fd (some (.controller i))).holder fd ≠ none := by
      rw [holder_setHolder opened, if_pos rfl]
      nofun
    rw [holder_setHolder held, holder_setHolder opened]
    split <;> rfl
  have built : ∀ (ctl : Controller) (w' : World n), handles ctl = [fd] → w'.client = (w.setClient i ctl).client →
      (∀ other, w'.holder other = if other = fd then some (.controller i) else w.holder other) → w'.sys = w.sys →
      Constructed i fd w w' := by
    intro ctl w' single client table sys
    refine ⟨?_, table, sys, fun j other => ?_⟩
    · rw [client, setClient_client, single]
    · rw [client]
      exact Function.update_of_ne other ..
  simp only [ctlCtor, ends_bind, ends_ite, ends_modify, ends_pure, fresh]
  cases nonblock with
  | false =>
    have given : (if write then fd else -1) ≠ -1 ∨ (if read then fd else -1) ≠ -1 := by
      cases write with
      | true => exact .inl used
      | false => exact .inr (by simpa [show read = true by simpa using wanted] using used)
    rw [if_pos ⟨given, rfl⟩]
    exact ⟨rfl, trivial⟩
  | true =>
    rw [if_neg (by simp)]
    cases write with
    | true =>
      cases read with
      | true =>
        simp only [if_true, if_pos used]
        refine ⟨trivial, built _ _ ?_ rfl again rfl⟩
        simp [handles, positive]
      | false =>
        simp only [if_true, if_pos used, Bool.false_eq_true, if_false, ne_eq, not_true_eq_false]
        refine ⟨trivial, built _ _ ?_ rfl (holder_setHolder opened _) rfl⟩
        simp [handles, positive]
    | false =>
      obtain rfl : read = true := by simpa using wanted
      simp only [if_true, if_pos used, Bool.false_eq_true, if_false, ne_eq, not_true_eq_false]
      refine ⟨trivial, built _ _ ?_ rfl (holder_setHolder opened _) rfl⟩
      simp [handles, positive, used]

/-! ## Failures -/

/-- The daemon's descriptors and controllers are as they were; at most one was closed, that was not open before. -/
structure Untouched (w w' : World n) : Prop where
  descriptors : ∀ fd, w'.holder fd = w.holder fd
  calls : ∃ calls, w'.sys = w.sys ++ calls ∧ calls.length ≤ 1 ∧ ∀ call ∈ calls, w.holder call.fd = none
  controllers : ∀ j, (w'.client j).stateFn = none ↔ (w.client j).stateFn = none

/-- The controller that was allocated is freed again, and the rest of the table is put in order. -/
theorem Freed.untouched {w₁ w₂ : World n} (freed : Freed i fd w₁ w₂) (free : (w.client i).stateFn = none)
    (client : ∀ j, j ≠ i → (w₁.client j).stateFn = (w.client j).stateFn) (sys : w₁.sys = w.sys)
    (unused : w.holder fd = none) (client' : w'.client = w₂.client) (sys' : w'.sys = w₂.sys)
    (table : ∀ other, w'.holder other = w.holder other) : Untouched w w' := by
  refine ⟨table, ⟨_, by rw [sys', freed.sys, sys], le_rfl, ?_⟩, fun j => ?_⟩
  · intro call member
    rw [List.mem_singleton.mp member]
    exact unused
  · rw [client']
    rcases eq_or_ne j i with rfl | other
    · simp [freed.freed, free]
    · rw [freed.others j other, client j other]

theorem svcDoForkControl_spec (uses : ControlUses) (socketpair nonblock fork : Bool)
    (wanted : (uses.socket || uses.event || uses.cmd) = true) (free : ∃ i, (w.client i).stateFn = none) :
    Ends (svcDoForkControl uses socketpair nonblock fork) w fun started w' =>
      started = (socketpair && nonblock && fork) ∧
        (started = false → (Untouched w w' ↔ socketpair = true ∧ nonblock = true ∨ w.holder 0 = none)) := by
  rw [svcDoForkControl, if_pos wanted, ends_bind]
  refine (ctlAlloc_spec w).mono fun found w₁ result => ?_
  cases found with
  | none =>
    obtain ⟨i, free⟩ := free
    exact absurd free (result.2 i)
  | some i =>
    obtain ⟨free, rfl⟩ := result
    obtain ⟨⟨stateFn, fresh⟩, -⟩ := allocated_fresh w i
    set w₁ : World n := (w.setClient i { stateFn := some .free }).setLog i {}
    have others : ∀ j, j ≠ i → (w₁.client j).stateFn = (w.client j).stateFn := by
      intro j other
      simp [w₁, World.setClient, World.setLog, other]
    have zero : handles (w₁.client i) = [0] := by simp [fresh, handles]
    cases socketpair with
    | false =>
      simp only [Bool.false_eq_true, if_false, svcDoForkFail, ends_bind, ends_pure]
      refine (ctlDtor_ctlFree_freed zero).mono fun _ w₂ destroyed => destroyed.mono fun _ w' freed => ?_
      refine ⟨rfl, fun _ => ?_⟩
      constructor
      · intro untouched
        right
        rw [← untouched.descriptors, freed.table, if_pos rfl]
      · rintro (⟨none, -⟩ | unused)
        · cases none
        · apply freed.untouched free others rfl unused rfl rfl
          intro other
          rw [freed.table]
          split
          · rename_i same
            rw [same, unused]
          · rfl
    | true =>
      simp only [if_true, ends_bind, ends_get, ends_modify]
      set w₂ : World n := w₁.openFd .other
      have first : ∀ other, w₂.holder other = if other = w₁.lowestFree then some .other else w.holder other :=
        holder_openFd w₁ .other
      have second := holder_openFd w₂ .other
      have ours : w.holder w₁.lowestFree = none := lowestFree_free w₁
      have theirs : w₂.lowestFree ≠ w₁.lowestFree ∧ w.holder w₂.lowestFree = none := by
        have free := lowestFree_free w₂
        rw [first] at free
        split at free
        · cases free
        · rename_i apart
          exact ⟨fun same => apart (by rw [same]), free⟩
      have opened : (w₂.openFd .other).holder w₁.lowestFree ≠ none := by
        rw [second, first, if_pos rfl]
        split <;> rintro ⟨⟩
      have both : (uses.socket || uses.event || (uses.socket || uses.cmd)) = true := by
        simpa [or_assoc, or_left_comm] using wanted
      refine (ctlCtor_constructed (w := w₂.openFd .other) ⟨stateFn, fresh⟩ both (Int.natCast_nonneg _) opened true
        nonblock).mono fun made w₄ result => ?_
      obtain ⟨rfl, built⟩ := result
      cases made with
      | false =>
        obtain rfl := built
        simp only [Bool.false_eq_true, if_false, svcDoForkFail, ends_bind, ends_modify, ends_pure]
        refine (ctlDtor_ctlFree_freed (w := w₂.openFd .other) zero).mono fun _ w₃ destroyed =>
          destroyed.mono fun _ w₄ freed => ?_
        refine ⟨rfl, fun _ => ?_⟩
        have table := holder_setHolder_none w₄ w₂.lowestFree
        constructor
        · intro untouched
          right
          rw [← untouched.descriptors, table, freed.table, if_pos rfl]
          split <;> rfl
        · rintro (⟨-, none⟩ | unused)
          · cases none
          · -- number 0 was free, so that it is our end of the pair
            have least : w₁.lowestFree = 0 := Nat.le_zero.mp (lowestFree_le (w := w₁) unused)
            refine freed.untouched free others rfl unused rfl rfl fun other => ?_
            rw [table, freed.table, second, first, least, Int.natCast_zero]
            split_ifs with end₁ end₂
            · rw [end₁, theirs.2]
            · rw [end₂, unused]
            · rfl
      | true =>
        simp only [if_true]
        cases fork with
        | true =>
          simp only [if_true, ends_bind, ends_modify, ends_pure]
          exact ⟨rfl, by rintro ⟨⟩⟩
        | false =>
          simp only [Bool.false_eq_true, if_false, svcDoForkFail, ends_bind, ends_modify, ends_pure]
          refine (ctlDtor_ctlFree_freed built.single).mono fun _ w₅ destroyed =>
            destroyed.mono fun _ w₆ freed => ?_
          refine ⟨rfl, fun _ => ?_⟩
          refine iff_of_true (freed.untouched free (fun j other => ?_) built.sys ours rfl rfl fun other => ?_)
            (.inl ⟨trivial, trivial⟩)
          · rw [built.others j other]
            exact others j other
          · rw [holder_setHolder_none, freed.table, built.table, second, first]
            split_ifs with end₁ end₂
            · rw [end₁, theirs.2]
            · rw [end₂, ours]
            · rfl

/-- Without a free controller a null pointer is followed. -/
theorem svcDoForkControl_null {uses : ControlUses} {socketpair nonblock fork : Bool}
    (wanted : (uses.socket || uses.event || uses.cmd) = true) (taken : ∀ i, (w.client i).stateFn ≠ none) :
    (svcDoForkControl uses socketpair nonblock fork).run w = none := by
  obtain ⟨found, w₁, run, result⟩ := ctlAlloc_spec w
  cases found with
  | none =>
    rw [svcDoForkControl, if_pos wanted, StateT.run_bind, run]
    rfl
  | some i => exact absurd result.1 (taken i)

end DaemonProxy.Proofs
