import DaemonProxy.Proofs.ServiceLists

/-! # What `svc_run_active` does to one service

Each service is first woken by the new signals and then run once if it is active. What becomes of it depends on the other
services only through the pid that a fork is given.
-/

namespace DaemonProxy.Proofs

open Lib Model

variable {ι : Type} [DecidableEq ι] {s : Daemon ι} {v : View ι} {x : ι}

/-! ## Waking -/

/-- A service that one signal reaches. -/
def Service.roused (now : ℤ) (svc : Service) (signum : ℤ) : Service :=
  if svc.autostartSignals signum ∧ Startable svc then Service.started svc (startTimeFor now now) else svc

/-- A service that all new signals have reached. -/
def Service.woken (signals : List ℤ) (now : ℤ) (svc : Service) : Service :=
  if svc.sigwake ∧ Startable svc ∧ signals.any svc.autostartSignals then Service.started svc (startTimeFor now now) else svc

theorem Service.roused_twice (now : ℤ) (svc : Service) (signum : ℤ) :
    Service.roused now (Service.roused now svc signum) signum = Service.roused now svc signum := by
  by_cases reached : svc.autostartSignals signum ∧ Startable svc
  · have once : Service.roused now svc signum = Service.started svc (startTimeFor now now) := if_pos reached
    rw [once]
    exact if_pos ⟨reached.1, .inr rfl⟩
  · have same : Service.roused now svc signum = svc := if_neg reached
    rw [same, same]

theorem Service.foldl_roused (now : ℤ) (signals : List ℤ) (svc : Service) :
    signals.foldl (Service.roused now) svc =
      if Startable svc ∧ signals.any svc.autostartSignals then Service.started svc (startTimeFor now now) else svc := by
  induction signals generalizing svc with
  | nil => simp
  | cons signum later ih =>
    rw [List.foldl_cons, ih, Service.roused]
    by_cases startable : Startable svc
    · by_cases reached : svc.autostartSignals signum = true
      · -- A second signal starts the service again, at the same time.
        have again : Startable (Service.started svc (startTimeFor now now)) := .inr rfl
        simp only [reached, startable, again, true_and, if_true, List.any_cons, Bool.true_or]
        split <;> rfl
      · simp [reached, startable]
    · simp [startable]

namespace View

theorem handleStart_now (v : View ι) (x : ι) (when : ℤ) : (v.handleStart x when).now = v.now := by
  rw [handleStart]
  split <;> rfl

theorem handleStart_objects (v : View ι) (x : ι) (when : ℤ) (y : ι) : (v.handleStart x when).objects y =
    if y = x ∧ Startable (v.objects x) then Service.started (v.objects x) (startTimeFor when v.now) else v.objects y := by
  rw [handleStart]
  by_cases startable : Startable (v.objects x)
  · rw [if_pos startable]
    refine (setSvc_apply v x _ y).trans ?_
    simp only [startable, and_true]
  · rw [if_neg startable, if_neg fun both => startable both.2]

theorem wakeOne_now (signum : ℤ) (v : View ι) (x : ι) : (wakeOne signum v x).now = v.now := by
  rw [wakeOne]
  split
  · exact handleStart_now ..
  · rfl

theorem wakeOne_svcList (signum : ℤ) (v : View ι) (x : ι) : (wakeOne signum v x).svcList = v.svcList := by
  rw [wakeOne]
  split
  · exact handleStart_svcList ..
  · rfl

theorem wakeOne_objects (signum : ℤ) (v : View ι) (x y : ι) : (wakeOne signum v x).objects y =
    if y = x then Service.roused v.now (v.objects y) signum else v.objects y := by
  rw [wakeOne]
  by_cases same : y = x
  · subst same
    rw [if_pos rfl, Service.roused]
    by_cases reached : (v.objects y).autostartSignals signum = true
    · rw [if_pos reached, handleStart_objects]
      simp only [reached, true_and]
    · rw [if_neg reached, if_neg fun both => reached both.1]
  · rw [if_neg same]
    split
    · rw [handleStart_objects, if_neg fun both => same both.1]
    · rfl

theorem foldl_wakeOne (signum : ℤ) (list : List ι) (v : View ι) :
    (list.foldl (wakeOne signum) v).now = v.now ∧ (list.foldl (wakeOne signum) v).svcList = v.svcList ∧
      (list.foldl (wakeOne signum) v).sigwake = v.sigwake ∧ ∀ y, (list.foldl (wakeOne signum) v).objects y =
        if y ∈ list then Service.roused v.now (v.objects y) signum else v.objects y := by
  induction list generalizing v with
  | nil => exact ⟨rfl, rfl, rfl, fun y => (if_neg List.not_mem_nil).symm⟩
  | cons x rest ih =>
    obtain ⟨now, svcList, sigwake, objects⟩ := ih (wakeOne signum v x)
    rw [List.foldl_cons]
    refine ⟨now.trans (wakeOne_now ..), svcList.trans (wakeOne_svcList ..), sigwake.trans (wakeOne_sigwake ..), fun y => ?_⟩
    rw [objects, wakeOne_objects, wakeOne_now]
    by_cases same : y = x
    · simp only [same, if_true, List.mem_cons, true_or, Service.roused_twice, ite_self]
    · simp only [same, if_false, List.mem_cons, false_or]

theorem wakeAll_spec (signals : List ℤ) (v : View ι) :
    (v.wakeAll signals).now = v.now ∧ (v.wakeAll signals).svcList = v.svcList ∧ ∀ y, (v.wakeAll signals).objects y =
      if y ∈ v.sigwake then signals.foldl (Service.roused v.now) (v.objects y) else v.objects y := by
  induction signals generalizing v with
  | nil => exact ⟨rfl, rfl, fun y => (ite_self _).symm⟩
  | cons signum later ih =>
    obtain ⟨now, svcList, sigwake, objects⟩ := foldl_wakeOne signum v.sigwake v
    obtain ⟨now', svcList', objects'⟩ := ih (v.wake signum)
    refine ⟨now'.trans now, svcList'.trans svcList, fun y => ?_⟩
    have woken : (v.wakeAll (signum :: later)).objects y = ((v.wake signum).wakeAll later).objects y := rfl
    have list : (v.wake signum).sigwake = v.sigwake := sigwake
    have time : (v.wake signum).now = v.now := now
    have object : (v.wake signum).objects y = _ := objects y
    rw [woken, objects', list, time, object, List.foldl_cons]
    by_cases listed : y ∈ v.sigwake
    · simp only [if_pos listed]
    · simp only [if_neg listed]

theorem wakeAll_objects (orderly : Orderly v) (signals : List ℤ) (member : x ∈ v.svcList) :
    (v.wakeAll signals).objects x = Service.woken signals v.now (v.objects x) := by
  rw [(wakeAll_spec signals v).2.2 x, Service.foldl_roused, Service.woken]
  by_cases flag : (v.objects x).sigwake = true
  · rw [if_pos ((orderly.sigwake x).mpr ⟨member, flag⟩)]
    simp only [flag, true_and]
  · rw [if_neg fun listed => flag ((orderly.sigwake x).mp listed).2, if_neg fun all => flag all.1]

end View

/-! ## Triggers -/

/-- What the end of `svc_set_triggers` makes of a service. -/
def Service.triggered (now : ℤ) (autostart : Bool) (signals : ℤ → Bool) (enableSigs triggered : Bool) (svc : Service) :
    Service :=
  let set := { svc with autoRestart := autostart, autostartSignals := signals, sigwake := enableSigs }
  if (autostart || triggered) ∧ Startable svc then Service.started set (startTimeFor now now) else set

theorem View.applyTriggers_objects (v : View ι) (x : ι) (autostart : Bool) (signals : ℤ → Bool) (enableSigs triggered : Bool)
    (y : ι) : (v.applyTriggers x autostart signals enableSigs triggered).objects y =
      if y = x then Service.triggered v.now autostart signals enableSigs triggered (v.objects x) else v.objects y := by
  let set := { v.objects x with autoRestart := autostart, autostartSignals := signals, sigwake := enableSigs }
  have base : ∀ y, ((v.setSvc x { v.objects x with autoRestart := autostart, autostartSignals := signals }).setSigwake x
      enableSigs).objects y = if y = x then set else v.objects y := by
    intro y
    refine (View.setSvc_apply _ x _ y).trans ?_
    rw [View.setSvc_objects, View.setSvc_apply]
    by_cases same : y = x
    · rw [if_pos same, if_pos same]
    · rw [if_neg same, if_neg same, if_neg same]
  have startable : Startable set ↔ Startable (v.objects x) := Iff.rfl
  simp only [View.applyTriggers]
  by_cases starts : (autostart || triggered) = true
  · rw [if_pos starts, View.handleStart_objects, base, base, if_pos rfl]
    by_cases same : y = x
    · simp only [same, if_true, true_and, Service.triggered, starts, startable]
      rfl
    · simp only [same, if_false, false_and]
  · have stays : Service.triggered v.now autostart signals enableSigs triggered (v.objects x) = set :=
      if_neg fun both => starts both.1
    rw [if_neg starts, base, stays]

theorem View.applyTriggers_frame (v : View ι) (x : ι) (autostart : Bool) (signals : ℤ → Bool) (enableSigs triggered : Bool) :
    (v.applyTriggers x autostart signals enableSigs triggered).svcList = v.svcList ∧
      (v.applyTriggers x autostart signals enableSigs triggered).now = v.now := by
  simp only [View.applyTriggers]
  split
  · exact ⟨View.handleStart_svcList .., View.handleStart_now ..⟩
  · exact ⟨rfl, rfl⟩

/-! ## Running -/

/-- What becomes of a service that waits for its start; `child` is the pid of a fork that succeeds. -/
def Service.attempted (now : ℤ) (child : Option ℤ) (svc : Service) : Service :=
  if tsAfter svc.startTime now then svc
  else
    match child with
    | some pid => { svc with pid, startTime := if now ≠ 0 then now else 1, state := .up }
    | none => Service.started svc (startTimeFor (wrap 64 (now + forkRetryDelay)) now)

/-- What `svc_run` makes of a service. -/
def Service.ran (now : ℤ) (child : Option ℤ) (triggered : Bool) (svc : Service) : Service :=
  match svc.state with
  | .start => Service.attempted now child svc
  | .reaped =>
      if svc.autoRestart || triggered then
        Service.attempted now child (Service.started svc (startTimeFor (View.restartTime svc now) now))
      else { svc with state := .down }
  | _ => svc

namespace View

theorem runStart_objects (v : View ι) (x : ι) (fork : Option ℤ) : (v.runStart x fork).objects =
    Function.update v.objects x (Service.attempted v.now (v.newPid fork) (v.objects x)) := by
  unfold runStart Service.attempted
  split
  · exact (Function.update_eq_self x v.objects).symm
  · cases v.newPid fork <;> rfl

theorem run_objects (v : View ι) (x : ι) (fork : Option ℤ) (triggered : Bool) : (v.run x fork triggered).objects =
    Function.update v.objects x (Service.ran v.now (v.newPid fork) triggered (v.objects x)) := by
  have same : v.objects = Function.update v.objects x (v.objects x) := (Function.update_eq_self x v.objects).symm
  cases state : (v.objects x).state with
  | undef | down | up => simp only [run, Service.ran, state]; exact same
  | start => simp only [run, Service.ran, state]; exact runStart_objects ..
  | reaped =>
    simp only [run, Service.ran, state]
    split
    · have restarted : (v.restart x).objects x = _ := congrFun (restart_objects v x) x
      rw [Function.update_self] at restarted
      rw [runStart_objects, restarted, restart_objects, Function.update_idem]
      rfl
    · rfl

theorem runStart_frame (v : View ι) (x : ι) (fork : Option ℤ) :
    (v.runStart x fork).now = v.now ∧ (v.runStart x fork).svcList = v.svcList := by
  rw [runStart]
  split
  · exact ⟨rfl, rfl⟩
  · split <;> exact ⟨rfl, rfl⟩

theorem run_frame (v : View ι) (x : ι) (fork : Option ℤ) (triggered : Bool) :
    (v.run x fork triggered).now = v.now ∧ (v.run x fork triggered).svcList = v.svcList := by
  rw [run]
  split
  · exact runStart_frame ..
  · split
    · exact runStart_frame ..
    · exact ⟨rfl, rfl⟩
  · exact ⟨rfl, rfl⟩

omit [DecidableEq ι] in
theorem newPid_pos {fork : Option ℤ} {pid : ℤ} (given : v.newPid fork = some pid) : 0 < pid := by
  rw [newPid, Option.filter_eq_some_iff] at given
  exact (of_decide_eq_true given.2).1

/-- `svc_check_sigwake` is only asked about a service that was reaped and does not restart by itself; in the other cases
its answer makes no difference. -/
theorem ran_asked (now : ℤ) (child : Option ℤ) (answer : Bool) (svc : Service) :
    Service.ran now child (decide (svc.state = .reaped ∧ svc.autoRestart = false) && answer) svc =
      Service.ran now child answer svc := by
  rw [Service.ran, Service.ran]
  cases state : svc.state with
  | undef | down | up | start => rfl
  | reaped => cases auto : svc.autoRestart <;> simp

theorem foldl_runChecked (check : Service → Bool) (fork : ι → Option ℤ) {todo : List ι} (nodup : todo.Nodup) (v : View ι) :
    (todo.foldl (runChecked check fork) v).now = v.now ∧ (todo.foldl (runChecked check fork) v).svcList = v.svcList ∧
      ∃ child : ι → Option ℤ, (∀ x, ∀ pid ∈ child x, 0 < pid) ∧ ∀ y, (todo.foldl (runChecked check fork) v).objects y =
        if y ∈ todo then Service.ran v.now (child y) (check (v.objects y)) (v.objects y) else v.objects y := by
  induction todo generalizing v with
  | nil => exact ⟨rfl, rfl, fun _ => none, nofun, fun y => (if_neg List.not_mem_nil).symm⟩
  | cons x rest ih =>
    obtain ⟨absent, nodup⟩ := List.nodup_cons.mp nodup
    obtain ⟨now, svcList, child, positive, objects⟩ := ih nodup (runChecked check fork v x)
    have frame := run_frame v x (fork x)
      (decide ((v.objects x).state = .reaped ∧ (v.objects x).autoRestart = false) && check (v.objects x))
    have first : (runChecked check fork v x).objects = _ := run_objects ..
    rw [ran_asked] at first
    have time : (runChecked check fork v x).now = v.now := frame.1
    refine ⟨now.trans frame.1, svcList.trans frame.2, Function.update child x (v.newPid (fork x)), ?_, fun y => ?_⟩
    · intro y pid given
      by_cases same : y = x
      · rw [same, Function.update_self] at given
        exact newPid_pos given
      · rw [Function.update_of_ne same] at given
        exact positive y pid given
    · rw [List.foldl_cons, objects, first, time]
      by_cases same : y = x
      · simp only [same, if_neg absent, Function.update_self, List.mem_cons_self, if_true]
      · simp only [Function.update_of_ne same, List.mem_cons, same, false_or]

/-- The view after `svc_run_active`, service by service. -/
theorem runActive_spec (shows : Shows s v) (orderly : Orderly v) (signals : List ℤ) (check : Service → Bool)
    (fork : ι → Option ℤ) : (v.runActive signals check fork).now = v.now ∧
      (v.runActive signals check fork).svcList = v.svcList ∧ ∃ child : ι → Option ℤ, (∀ x, ∀ pid ∈ child x, 0 < pid) ∧
        ∀ x ∈ v.svcList, (v.runActive signals check fork).objects x =
          Service.ran v.now (child x) (check (Service.woken signals v.now (v.objects x)))
            (Service.woken signals v.now (v.objects x)) := by
  obtain ⟨_, s₁, -, shows₁, orderly₁⟩ := shows.wakeAll orderly signals
  obtain ⟨now, svcList, -⟩ := wakeAll_spec signals v
  obtain ⟨now', svcList', child, positive, objects⟩ := foldl_runChecked check fork shows₁.active.nodup (v.wakeAll signals)
  refine ⟨now'.trans now, svcList'.trans svcList, child, positive, fun x member => ?_⟩
  have after : (v.runActive signals check fork).objects x = _ := objects x
  have listed_iff := orderly₁.active x
  rw [wakeAll_objects orderly signals member, svcList] at listed_iff
  rw [after, now, wakeAll_objects orderly signals member]
  split
  · rfl
  · -- A service off the active list is not run, and a run would not change it.
    next idle =>
    have notListed : ¬Listed (Service.woken signals v.now (v.objects x)) := fun listed => idle (listed_iff.mpr ⟨member, listed⟩)
    rw [Service.ran]
    cases state : (Service.woken signals v.now (v.objects x)).state with
    | undef | down | up => rfl
    | start => exact absurd (.inl state) notListed
    | reaped => exact absurd (.inr state) notListed

end View

end DaemonProxy.Proofs
