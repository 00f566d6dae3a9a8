import DaemonProxy.Proofs.ServiceSteps

/-! # Running, creating, deleting and reaping services

The views after `svc_run` and after the functions that look up, create and delete services, and what `main` does with a
child that has ended.
-/

namespace DaemonProxy.Proofs

open Lib Model

variable {ι : Type} {s : Daemon ι} {v : View ι} {x : ι} {svc : Service}

/-! ## `svc_run` -/

/-- After a failed fork the next attempt is in the future. -/
theorem tsAfter_retry (now : ℤ) : tsAfter (startTimeFor (wrap 64 (now + forkRetryDelay)) now) now := by
  have later : tsAfter (wrap 64 (now + forkRetryDelay)) now := by
    have difference : wrap 64 (wrap 64 (now + forkRetryDelay) - now) = wrap 64 forkRetryDelay := by
      rw [wrap, wrap, wrap, Int.bmod_sub_bmod, show now + forkRetryDelay - now = forkRetryDelay by omega]
    rw [tsAfter, difference]
    decide
  simp only [startTimeFor, if_pos later]
  split
  · next zero =>
    -- The clock is then exactly one delay before zero, and the time stored is one instead of zero.
    simp only [wrap, Int.bmod, forkRetryDelay] at zero
    simp only [tsAfter, wrap, Int.bmod]
    split_ifs at zero ⊢ <;> omega
  · exact later

namespace View

variable [DecidableEq ι]

/-- The pid the kernel gives to a new child. -/
def newPid (v : View ι) (offered : Option ℤ) : Option ℤ := offered.filter fun pid => 0 < pid ∧ (v.children pid).isNone

/-- A service gets a child. -/
def fork (v : View ι) (x : ι) (pid : ℤ) : View ι :=
  let forked := { v with children := Function.update v.children pid (some (.running (some x))) }
  ((forked.setSvc x { v.objects x with pid, startTime := if v.now ≠ 0 then v.now else 1, state := .up }).report x).setActive
    x false

theorem start_objects (v : View ι) (x : ι) (when : ℤ) :
    (v.start x when).objects x = Service.started (v.objects x) (startTimeFor when v.now) := Function.update_self ..

/-- `svc_run` of a service that waits for its start. -/
def runStart (v : View ι) (x : ι) (fork : Option ℤ) : View ι :=
  if tsAfter (v.objects x).startTime v.now then v.setActive x true
  else
    match v.newPid fork with
    | some pid => v.fork x pid
    | none => (v.start x (wrap 64 (v.now + forkRetryDelay))).setActive x true

/-- The end of a process is reported. -/
def settle (v : View ι) (x : ι) : View ι := (v.report x).setSvc x { v.objects x with state := .down }

/-- When a service that was reaped is to be started again. -/
def restartTime (svc : Service) (now : ℤ) : ℤ :=
  if wrap 64 (svc.reapTime - svc.startTime) < svc.restartInterval then wrap 64 (now + svc.restartInterval) else now

/-- A service that was reaped is started again. -/
def restart (v : View ι) (x : ι) : View ι := ((v.settle x).start x (restartTime (v.objects x) v.now)).report x

theorem restart_objects (v : View ι) (x : ι) : (v.restart x).objects =
    Function.update v.objects x (Service.started (v.objects x) (startTimeFor (restartTime (v.objects x) v.now) v.now)) := by
  have settled : (v.settle x).objects x = { v.objects x with state := .down } := setSvc_objects ..
  have started : (v.restart x).objects = Function.update (v.settle x).objects x
      (Service.started ((v.settle x).objects x) (startTimeFor (restartTime (v.objects x) v.now) v.now)) := rfl
  rw [started, settled]
  exact Function.update_idem ..

/-- `svc_run`. -/
def run (v : View ι) (x : ι) (fork : Option ℤ) (triggered : Bool) : View ι :=
  match (v.objects x).state with
  | .start => v.runStart x fork
  | .reaped => if (v.objects x).autoRestart || triggered then (v.restart x).runStart x fork else (v.settle x).setActive x false
  | _ => v.setActive x false

end View

section Run

variable [DecidableEq ι] {fork : Option ℤ} {triggered : Bool}

theorem Shows.doFork (shows : Shows s v) (member : x ∈ v.svcList) (fork : Option ℤ) :
    Ends (svcDoFork x fork) s fun forked s' =>
      match v.newPid fork with
      | none => forked = false ∧ s' = s
      | some pid => forked = true ∧
          Shows s' ({ v with children := Function.update v.children pid (some (.running (some x))) }.setSvc x
            { v.objects x with pid }) := by
  have same : s.newPid fork = v.newPid fork := by rw [Daemon.newPid, View.newPid, shows.children]
  simp only [svcDoFork, ends_bind, ends_get, same]
  cases v.newPid fork with
  | none => exact (ends_pure _).mpr ⟨rfl, rfl⟩
  | some pid =>
    simp only [ends_bind, ends_modify, ends_pure]
    have child := shows.setChildren (Function.update s.children pid (some (.running (some x))))
    rw [← shows.children]
    exact (child.changePid member pid).mono fun _ s' shows' => ⟨trivial, shows'⟩

/-- The round of a service that has to wait. -/
theorem svcRunRound_wait (shows : Shows s v) (state : (v.objects x).state = .start)
    (waits : tsAfter (v.objects x).startTime v.now) :
    Ends (svcRunRound x fork triggered ()) s fun outcome s' => outcome = .inr () ∧ Shows s' (v.setActive x true) := by
  have here : s.objects x = v.objects x := by rw [shows.objects]
  rw [← shows.now] at waits
  simp only [svcRunRound, ends_bind, ends_svcAt, here, state, ends_get, ends_ite, if_pos waits]
  split
  all_goals simp only [ends_modify, ends_svcSetActive, ends_pure]
  · exact ⟨trivial, (shows.setNext (v.objects x).startTime).setActive (x := x) true⟩
  · exact ⟨trivial, shows.setActive true⟩

theorem svcRun_start {fuel : ℕ} (shows : Shows s v) (member : x ∈ v.svcList) (state : (v.objects x).state = .start) :
    Ends (loop (svcRunRound x fork triggered) (fuel + 2) ()) s fun _ s' => Shows s' (v.runStart x fork) := by
  rw [ends_loop_succ, View.runStart]
  split
  · next waits =>
    refine (svcRunRound_wait shows state waits).mono ?_
    rintro _ s' ⟨rfl, shows'⟩
    exact shows'
  · next due =>
    have here : s.objects x = v.objects x := by rw [shows.objects]
    rw [← shows.now] at due
    simp only [svcRunRound, ends_bind, ends_svcAt, here, state, ends_get, ends_ite, if_neg due]
    refine (shows.doFork member fork).mono fun forked s₁ after => ?_
    cases given : v.newPid fork with
    | none =>
      rw [given] at after
      obtain ⟨rfl, rfl⟩ := after
      simp only [Bool.false_eq_true, if_false, ends_pure, shows.now]
      refine (shows.handleStart member _).mono fun _ s₂ result => ?_
      obtain ⟨shows₂, _⟩ := result
      rw [View.handleStart, if_pos (.inr state)] at shows₂
      rw [Sum.elim_inl, ends_loop_succ]
      refine (svcRunRound_wait shows₂ ?_ ?_).mono ?_
      · rw [View.start_objects]
        rfl
      · rw [View.start_objects]
        exact tsAfter_retry v.now
      · rintro _ s₃ ⟨rfl, shows₃⟩
        exact shows₃
    | some pid =>
      rw [given] at after
      obtain ⟨rfl, shows₁⟩ := after
      have here₁ := congrFun shows₁.objects x
      rw [View.setSvc_objects] at here₁
      simp only [if_true, ends_pure, ends_updateSvc, here₁]
      have placed := shows₁.update x { v.objects x with pid, startTime := if v.now ≠ 0 then v.now else 1, state := .up }
        (by rw [View.setSvc_objects]) (by rw [View.setSvc_objects])
      rw [View.setSvc_setSvc] at placed
      rw [shows.now]
      refine placed.notify.mono fun _ s₂ shows₂ => ?_
      simp only [ends_svcSetActive]
      exact shows₂.setActive false

theorem Shows.run (shows : Shows s v) (member : x ∈ v.svcList) (known : (v.objects x).state ≠ .undef) :
    Ends (svcRun x fork triggered) s fun _ s' => Shows s' (v.run x fork triggered) := by
  have here : s.objects x = v.objects x := by rw [shows.objects]
  rw [svcRun]
  cases state : (v.objects x).state with
  | undef => exact absurd state known
  | start =>
    rw [View.run, state]
    exact svcRun_start shows member state
  | up =>
    rw [View.run, state, ends_loop_succ]
    simp only [svcRunRound, ends_bind, ends_svcAt, here, state, ends_svcSetActive, ends_pure]
    exact shows.setActive false
  | down =>
    rw [View.run, state, ends_loop_succ]
    simp only [svcRunRound, ends_bind, ends_svcAt, here, state, ends_svcSetActive, ends_pure]
    exact shows.setActive false
  | reaped =>
    rw [View.run, state, ends_loop_succ]
    simp only [svcRunRound, ends_bind, ends_svcAt, here, state]
    refine shows.notify.mono fun _ s₁ shows₁ => ?_
    have here₁ : s₁.objects x = v.objects x := by rw [shows₁.objects]; rfl
    simp only [ends_updateSvc, ends_ite, ends_bind, ends_get, ends_pure, here₁]
    have settled : Shows (s₁.setSvc x { v.objects x with state := .down }) (v.settle x) := shows₁.update x _ rfl rfl
    have now : (s₁.setSvc x { v.objects x with state := .down }).now = v.now := shows₁.now
    split
    · rw [now]
      refine (settled.handleStart member _).mono fun _ s₂ result => ?_
      obtain ⟨shows₂, _⟩ := result
      rw [View.handleStart, if_pos (.inl (congrArg Service.state (View.setSvc_objects ..)))] at shows₂
      refine shows₂.notify.mono fun _ s₃ shows₃ => ?_
      refine svcRun_start shows₃ member ?_
      exact congrArg Service.state (View.start_objects ..)
    · rw [Sum.elim_inl, ends_loop_succ]
      have down : (s₁.setSvc x { v.objects x with state := .down }).objects x = { v.objects x with state := .down } :=
        Function.update_self ..
      simp only [svcRunRound, ends_bind, ends_svcAt, down, ends_svcSetActive, ends_pure]
      exact settled.setActive false

end Run

/-! ## Looking up, creating and deleting -/

section Lookup

variable [DecidableEq ι]

namespace View

/-- A new object. -/
def create (v : View ι) (x : ι) (name : Bytes) : View ι :=
  ({ v with svcList := v.svcList ++ [x] }.setSvc x { Service.zero with state := .down, name }).record (.created x)

theorem create_objects (v : View ι) (x : ι) (name : Bytes) (y : ι) : (v.create x name).objects y =
    if y = x then { Service.zero with state := .down, name } else v.objects y := setSvc_apply ..

theorem mem_create {v : View ι} {x : ι} {name : Bytes} {y : ι} : y ∈ (v.create x name).svcList ↔ y ∈ v.svcList ∨ y = x :=
  List.mem_append.trans (or_congr_right List.mem_singleton)

/-- `svc_delete`. -/
def delete (v : View ι) (x : ι) : View ι :=
  { (v.setActive x false).setSigwake x false with svcList := swapRemove x v.svcList }

theorem delete_objects {v : View ι} {x y : ι} (other : y ≠ x) : (v.delete x).objects y = v.objects y :=
  Function.update_of_ne other ..

end View

theorem svcByName_existing (indexed : Indexed s) (name : Bytes) (mem : Option ι) :
    Ends (svcByName name false mem) s fun found s' => s' = s ∧
      ∀ x ∈ found, x ∈ s.svcList ∧ (s.objects x).name = name := by
  simp only [svcByName, ends_bind, ends_get, ends_onByName]
  refine (indexed.names.find strsegCmp_preorder (fun _ inside => inside) (by simp [Daemon.treeFuel]) name).mono ?_
  rintro result _ ⟨rfl, found, -⟩
  cases object : result.object? with
  | some x =>
    obtain ⟨member, equal⟩ := found x object
    refine (ends_pure _).mpr ⟨rfl, fun y same => ?_⟩
    obtain rfl := Option.some.inj same
    exact ⟨member, (strsegCmp_eq_zero.mp equal).symm⟩
  | none => exact (ends_pure _).mpr ⟨rfl, by rintro _ ⟨⟩⟩

/-- What `svc_ctor` does to memory that no list leads to. -/
theorem Shows.ctor (shows : Shows s v) (absent : x ∉ v.svcList) (inactive : x ∉ v.active) (deaf : x ∉ v.sigwake)
    (name : Bytes) :
    Ends (svcCtor x name) { s with svcList := s.svcList ++ [x] } fun _ s' => Shows s' (v.create x name) := by
  rw [← shows.svcList] at absent
  have other : ∀ y ∈ s.svcList, y ≠ x := fun y inside same => absent (same ▸ inside)
  let svc : Service := { Service.zero with state := .down, name }
  simp only [svcCtor, ends_modify, ends_bind, ends_updateSvc, ends_record, ends_onByName, ends_onByPid, ends_store,
    ends_get, rbTreeNodeInit, ends_setColor, ends_pure, ne_eq, reduceCtorEq, not_false_eq_true, true_and]
  have names : IndexHolds strsegCmp (fun y => (Function.update s.objects x svc y).name) s.byName (· ∈ s.svcList) :=
    shows.indexed.names.congr (fun _ => .rfl) fun y inside => by rw [Function.update_of_ne (other y inside)]
  have pids : IndexHolds comparePid (fun y => (Function.update s.objects x svc y).pid) s.byPid fun y =>
      y ∈ s.svcList ++ [x] ∧ (Function.update s.objects x svc y).pid ≠ 0 := by
    refine shows.indexed.pids.congr (fun y => ?_) fun y inside => by rw [Function.update_of_ne (other y inside.1)]
    by_cases same : y = x
    · simp [same, absent, svc, Service.zero]
    · simp [same]
  have zeroed := (names.write (x := x) (f := fun _ => ⟨.null, .null, .null, .unassigned⟩) absent fun _ => rfl).write
    (x := x) (f := (·.setColor .unassigned)) absent fun _ => rfl
  have noPid : ¬(x ∈ s.svcList ++ [x] ∧ (Function.update s.objects x svc x).pid ≠ 0) := by
    simp [svc, Service.zero]
  refine (zeroed.add strsegCmp_preorder absent (fun _ inside => inside) ?_ ?_).mono fun _ h added => ?_
  · simp [Daemon.treeFuel, Daemon.setSvc]
    omega
  · rw [Function.update_self]
  · refine ⟨⟨?_, ?_, ?_⟩, shows.active.clear inactive, shows.sigwake.clear deaf, ?_, ?_, shows.now, ?_, shows.children⟩
    · exact List.nodup_append'.mpr ⟨shows.indexed.nodup, List.nodup_singleton x, by simpa using absent⟩
    · exact added.congr (fun y => by simp [or_comm, Daemon.setSvc]) fun _ _ => rfl
    · exact (pids.write (x := x) (f := fun _ => ⟨.null, .null, .null, .unassigned⟩) noPid fun _ => rfl).write
        (x := x) (f := (·.setColor .unassigned)) noPid fun _ => rfl
    · exact congrArg (· ++ [x]) shows.svcList
    · exact congrArg (Function.update · x svc) shows.objects
    · exact congrArg (· ++ [.created x]) shows.history

/-- The vector loses one element, and its order does not matter. -/
theorem swapRemove_perm {list : List ι} (member : x ∈ list) : (swapRemove x list).Perm (list.erase x) := by
  rcases list.eq_nil_or_concat with rfl | ⟨front, last, rfl⟩
  · exact nomatch member
  · rw [List.concat_eq_append] at member ⊢
    have inRange := List.idxOf_lt_length_iff.mpr member
    rw [List.length_append, List.length_singleton] at inRange
    simp only [swapRemove, List.getLast?_append, List.getLast?_singleton, Option.some_or]
    rw [if_pos member, ← List.eraseIdx_idxOf_eq_erase]
    generalize (front ++ [last]).idxOf x = n at inRange ⊢
    by_cases inFront : n < front.length
    · rw [List.set_append_left _ _ inFront, List.dropLast_concat, List.eraseIdx_append_of_lt_length inFront]
      exact (List.set_perm_cons_eraseIdx inFront last).trans (List.perm_append_singleton last _).symm
    · obtain rfl : n = front.length := by omega
      rw [List.eraseIdx_append_of_length_le (Nat.le_refl _)]
      simp

theorem mem_swapRemove {list : List ι} (nodup : list.Nodup) (member : x ∈ list) {y : ι} :
    y ∈ swapRemove x list ↔ y ≠ x ∧ y ∈ list := (swapRemove_perm member).mem_iff.trans nodup.mem_erase_iff

theorem Shows.delete (shows : Shows s v) (member : x ∈ v.svcList) :
    Ends (svcDelete x) s fun _ s' => Shows s' (v.delete x) := by
  simp only [svcDelete, svcDtor, ends_bind, ends_svcSetActive]
  refine ((shows.setActive false).setSigwake false).mono fun _ s₁ shows₁ => ?_
  have inList : x ∈ s₁.svcList := shows₁.svcList ▸ member
  have nodup := shows₁.indexed.nodup
  refine (prunePid_spec shows₁.indexed inList).mono ?_
  rintro _ _ ⟨h, rfl, pids⟩
  simp only [ends_onByName, ends_pure, ends_modify]
  refine (shows₁.indexed.names.prune inList (fun _ inside => inside) ?_).mono fun _ h' names => ?_
  · simp [Daemon.treeFuel]
  · refine ⟨⟨?_, ?_, ?_⟩, shows₁.active, shows₁.sigwake, ?_, shows₁.objects, shows₁.now, shows₁.history, shows₁.children⟩
    · exact (swapRemove_perm inList).nodup_iff.mpr (nodup.erase x)
    · exact names.congr (fun y => (mem_swapRemove nodup inList).symm) fun _ _ => rfl
    · refine pids.congr (fun y => ⟨?_, ?_⟩) fun _ _ => rfl
      · rintro ⟨other, inside, nonzero⟩
        exact ⟨(mem_swapRemove nodup inList).mpr ⟨other, inside⟩, nonzero⟩
      · rintro ⟨inside, nonzero⟩
        obtain ⟨other, old⟩ := (mem_swapRemove nodup inList).mp inside
        exact ⟨other, old, nonzero⟩
    · exact congrArg (swapRemove x) shows₁.svcList

end Lookup

/-! ## Reaping -/

section Reaping

variable [DecidableEq ι]

theorem svcByPid_spec (indexed : Indexed s) (pid : ℤ) :
    Ends (svcByPid pid) s fun found s' => s' = s ∧
      (∀ x ∈ found, x ∈ s.svcList ∧ (s.objects x).pid = pid ∧ (s.objects x).pid ≠ 0) ∧
      (found = none → ∀ x ∈ s.svcList, (s.objects x).pid ≠ 0 → (s.objects x).pid ≠ pid) := by
  simp only [svcByPid, ends_bind, ends_get, ends_onByPid, ends_pure]
  refine (indexed.pids.find comparePid_preorder (fun _ inside => inside.1) (by simp [Daemon.treeFuel]) pid).mono ?_
  rintro result _ ⟨rfl, found, missing⟩
  refine ⟨rfl, fun x same => ?_, fun none x member nonzero same => ?_⟩
  · obtain ⟨⟨member, nonzero⟩, equal⟩ := found x same
    exact ⟨member, (comparePid_eq_zero.mp equal).symm, nonzero⟩
  · exact missing none x ⟨member, nonzero⟩ (comparePid_eq_zero.mpr same.symm)

theorem svcByPid_run (s : Daemon ι) (pid : ℤ) : ((svcByPid pid).run s).map Prod.fst =
    ((rbTreeFind s.treeFuel (svcByPidCompare s.objects) pid).run s.byPid).map fun result => result.1.object? := by
  have run : (svcByPid pid).run s = (((rbTreeFind s.treeFuel (svcByPidCompare s.objects) pid).run s.byPid).map fun result =>
      (result.1, { s with byPid := result.2 })).bind fun result => some (result.1.object?, result.2) := rfl
  rw [run]
  cases (rbTreeFind s.treeFuel (svcByPidCompare s.objects) pid).run s.byPid <;> rfl

/-- The kernel's table does not matter for the search. -/
theorem svcByPid_children (pid : ℤ) (children : ℤ → Option (Child ι)) :
    ((svcByPid pid).run { s with children }).map Prod.fst = ((svcByPid pid).run s).map Prod.fst := by
  rw [svcByPid_run, svcByPid_run]
  rfl

/-- The view after a child with the pid is gone from the kernel's table. -/
def View.forget (v : View ι) (pid : ℤ) : View ι := { v with children := Function.update v.children pid none }

/-- `waitpid` returns nothing, or a child; the service with its pid, if there is one, is reaped. -/
theorem Shows.mainReap (shows : Shows s v) (pid : ℤ) :
    Ends (mainReap pid) s fun _ s' => ((∀ owner wstat, v.children pid ≠ some (.zombie owner wstat)) ∧ Shows s' v) ∨
      ∃ owner wstat, v.children pid = some (.zombie owner wstat) ∧ ((Shows s' (v.forget pid) ∧ ∀ x ∈ v.svcList, (v.objects x).pid ≠ 0 → (v.objects x).pid ≠ pid) ∨
        ∃ x ∈ v.svcList, (v.objects x).pid = pid ∧ ((svcByPid pid).run s).map Prod.fst = some (some x) ∧
          Shows s' ((v.forget pid).handleReaped x wstat)) := by
  simp only [Model.mainReap, ends_bind, ends_get]
  rcases entry : s.children pid with _ | owner | ⟨owner, wstat⟩
  · rw [shows.children] at entry
    exact (ends_pure _).mpr (.inl ⟨fun _ _ => entry ▸ (by rintro ⟨⟩), shows⟩)
  · rw [shows.children] at entry
    exact (ends_pure _).mpr (.inl ⟨fun _ _ => entry ▸ (by rintro ⟨⟩), shows⟩)
  · simp only [ends_bind, ends_modify]
    have forgotten := shows.setChildren (Function.update s.children pid none)
    rw [shows.children] at entry
    have same : { v with children := Function.update s.children pid none } = v.forget pid := by
      rw [View.forget, shows.children]
    rw [same] at forgotten
    obtain ⟨reached, _, run, rfl, found, missing⟩ := svcByPid_spec forgotten.indexed pid
    refine ⟨reached, _, run, ?_⟩
    rcases reached with _ | y
    · refine (ends_pure _).mpr (.inr ⟨owner, wstat, entry, .inl ⟨forgotten, ?_⟩⟩)
      intro x member nonzero
      have := missing rfl x (shows.svcList ▸ member)
      simp only [shows.objects] at this
      exact this nonzero
    · obtain ⟨member, carries, -⟩ := found y rfl
      refine (forgotten.handleReaped wstat).mono fun _ s' after => .inr ⟨owner, wstat, entry, .inr ⟨y, ?_, ?_, ?_, after⟩⟩
      · exact shows.svcList ▸ member
      · simp only [shows.objects] at carries
        exact carries
      · rw [← svcByPid_children pid (Function.update s.children pid none), run, Option.map_some]

end Reaping

end DaemonProxy.Proofs
