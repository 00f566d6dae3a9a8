import DaemonProxy.Proofs.SystemLoop

/-! # The life of one service

What a step of the main loop can do to a single service, whatever happens to the others. An invariant of single services is
proved for these moves, and then holds of every service in every state that the daemon reaches.
-/

namespace DaemonProxy.Proofs

open Lib Model

/-- A move of one service. -/
inductive LifeMove (svc : Service) : Service → Prop
  | start (startable : Startable svc) (startTime : ℤ) : LifeMove svc (Service.started svc startTime)
  | cancel (state : svc.state = .start) : LifeMove svc { svc with state := .down, startTime := 0 }
  | fork (state : svc.state = .start) {pid : ℤ} (positive : 0 < pid) (startTime : ℤ) :
      LifeMove svc { svc with pid, startTime, state := .up }
  | reap (state : svc.state = .up) (wstat reapTime : ℤ) :
      LifeMove svc { svc with waitStatus := wstat, state := .reaped, reapTime }
  | settle (state : svc.state = .reaped) : LifeMove svc { svc with state := .down }
  | configure (autoRestart sigwake : Bool) (restartInterval : ℤ) (autostartSignals : ℤ → Bool) :
      LifeMove svc { svc with autoRestart, sigwake, restartInterval, autostartSignals }

abbrev LifeMoves : Service → Service → Prop := Relation.ReflTransGen LifeMove

/-- A service that was just made. -/
def Service.new (name : Bytes) : Service := { Service.zero with state := .down, name }

section Functions

variable {svc : Service} {now : ℤ}

theorem lifeMoves_woken (signals : List ℤ) : LifeMoves svc (Service.woken signals now svc) := by
  rw [Service.woken]
  split
  · next reached => exact .single (.start reached.2.1 _)
  · exact .refl

theorem lifeMoves_attempted {child : Option ℤ} (positive : ∀ pid ∈ child, 0 < pid) (state : svc.state = .start) :
    LifeMoves svc (Service.attempted now child svc) := by
  unfold Service.attempted
  split
  · exact .refl
  · cases child with
    | some pid => exact .single (.fork state (positive pid rfl) _)
    | none => exact .single (.start (.inr state) _)

theorem lifeMoves_ran {child : Option ℤ} (positive : ∀ pid ∈ child, 0 < pid) (triggered : Bool) :
    LifeMoves svc (Service.ran now child triggered svc) := by
  cases state : svc.state with
  | start =>
    simp only [Service.ran, state]
    exact lifeMoves_attempted positive state
  | reaped =>
    simp only [Service.ran, state]
    split
    · -- It goes through DOWN, as in the source.
      have down : LifeMoves svc { svc with state := .down } := .single (.settle state)
      exact (down.tail (.start (.inl rfl) _)).trans (lifeMoves_attempted positive rfl)
    · exact .single (.settle state)
  | undef | down | up =>
    simp only [Service.ran, state]
    exact .refl

theorem lifeMoves_triggered (autostart : Bool) (signals : ℤ → Bool) (enableSigs triggered : Bool) :
    LifeMoves svc (Service.triggered now autostart signals enableSigs triggered svc) := by
  let set := { svc with autoRestart := autostart, autostartSignals := signals, sigwake := enableSigs }
  have configured : LifeMoves svc set := .single (.configure autostart enableSigs svc.restartInterval signals)
  unfold Service.triggered
  split
  · next starts =>
    have startable : Startable set := starts.2
    exact configured.tail (.start startable _)
  · exact configured

end Functions

variable {ι κ : Type} [DecidableEq ι] [DecidableEq κ] {s s' : Supervisor ι} {v v' : View ι} {sigList : List SigListItem} {x : ι}

/-- A service of the later view has moved from the earlier one, or is new. -/
def MovedTo (v v' : View ι) (x : ι) : Prop :=
  (x ∈ v.svcList ∧ LifeMoves (v.objects x) (v'.objects x)) ∨ (x ∉ v.svcList ∧ ∃ name, LifeMoves (Service.new name) (v'.objects x))

theorem MovedTo.same (member : x ∈ v.svcList) (same : v'.objects x = v.objects x) : MovedTo v v' x := by
  refine .inl ⟨member, ?_⟩
  rw [same]

theorem MovedTo.further {v'' : View ι} (moved : MovedTo v v' x) (moves : LifeMoves (v'.objects x) (v''.objects x)) :
    MovedTo v v'' x := by
  rcases moved with ⟨member, before⟩ | ⟨absent, name, before⟩
  · exact .inl ⟨member, before.trans moves⟩
  · exact .inr ⟨absent, name, before.trans moves⟩

theorem Looked.moved {y : ι} {command rest : StrSeg} (looked : Looked s v command y rest s' v') (member : x ∈ v'.svcList) :
    MovedTo v v' x := by
  cases looked with
  | found names _ named => exact .same member rfl
  | @created name _ _ _ _ _ _ absent =>
    rcases View.mem_create.mp member with old | rfl
    · refine .same old ?_
      have other : x ≠ y := fun same => absent (same ▸ old)
      rw [View.create_objects, if_neg other]
    · refine .inr ⟨absent, name, ?_⟩
      rw [View.create_objects, if_pos rfl]
      exact .refl

theorem lifeMoves_setInterval (v : View ι) (y : ι) (interval : Option ℤ) :
    LifeMoves (v.objects x) ((v.setInterval y interval).objects x) := by
  rw [View.setInterval_objects]
  split
  · next same =>
    subst same
    exact .single (.configure _ _ _ _)
  · exact .refl

theorem View.handleReaped_objects (v : View ι) (y : ι) (wstat : ℤ) (x : ι) : (v.handleReaped y wstat).objects x =
    if x = y ∧ (v.objects y).state = .up then { v.objects y with waitStatus := wstat, state := .reaped, reapTime := v.now }
    else v.objects x := by
  rw [View.handleReaped]
  by_cases up : (v.objects y).state = .up
  · rw [if_pos up]
    refine (View.setSvc_apply ..).trans ?_
    simp only [up, and_true]
  · rw [if_neg up, if_neg fun both => up both.2]

theorem View.cancelStart_objects (v : View ι) (y x : ι) : (v.cancelStart y).objects x =
    if x = y ∧ (v.objects y).state = .start then { v.objects y with state := .down, startTime := 0 } else v.objects x := by
  rw [View.cancelStart]
  by_cases start : (v.objects y).state = .start
  · rw [if_pos start]
    refine (View.setSvc_apply ..).trans ?_
    simp only [start, and_true]
  · rw [if_neg start, if_neg fun both => start both.2]

/-- A step of the main loop moves every service on its way. -/
theorem LoopMove.services {event : LoopEvent ι} (shows : Shows s.daemon v) (orderly : Orderly v)
    (move : LoopMove sigList s v event s' v') (member : x ∈ v'.svcList) : MovedTo v v' x := by
  cases move with
  | arrive | exit | adopt | iterate | reapOther | dump | same | clear => exact .same member rfl
  | @reap y pid wstat daemon phase _ =>
    have svcList : ((v.forget pid).handleReaped y wstat).svcList = v.svcList := by
      rw [View.handleReaped]
      split <;> rfl
    rw [svcList] at member
    refine .inl ⟨member, ?_⟩
    rw [View.handleReaped_objects]
    split
    · next reaped =>
      obtain ⟨rfl, up⟩ := reaped
      exact .single (.reap up _ _)
    · exact .refl
  | @runActive fork events daemon phase news =>
    obtain ⟨-, svcList, child, positive, objects⟩ :=
      View.runActive_spec shows orderly (events.map SigStatus.signum) (Supervisor.check s) fork
    rw [svcList] at member
    refine .inl ⟨member, ?_⟩
    rw [objects x member]
    exact (lifeMoves_woken _).trans (lifeMoves_ran (positive x) _)
  | create phase looked | autoUpRefused phase looked => exact looked.moved member
  | @autoUpInterval y _ _ _ _ _ interval s₁ v₁ _ phase looked args refused =>
    rw [View.setInterval_svcList] at member
    exact (looked.moved member).further (lifeMoves_setInterval v₁ y interval)
  | @autoUp y mem stored command rest triggers interval s₁ v₁ daemon autostart triggered sigs phase looked args accepted isStored check =>
    rw [(View.applyTriggers_frame ..).1, View.setInterval_svcList] at member
    have timed : MovedTo v (v₁.setInterval y interval) x := (looked.moved member).further (lifeMoves_setInterval v₁ y interval)
    refine timed.further ?_
    rw [View.applyTriggers_objects]
    split
    · next same =>
      subst same
      exact lifeMoves_triggered _ _ _ _
    · exact .refl
  | @start y configured command when daemon phase _ =>
    rw [View.handleStart_svcList] at member
    refine .inl ⟨member, ?_⟩
    rw [View.handleStart_objects]
    split
    · next starts =>
      obtain ⟨rfl, startable⟩ := starts
      exact .single (.start startable _)
    · exact .refl
  | @cancel y configured command rest name when daemon phase names _ found peek dash =>
    have svcList : (v.cancelStart y).svcList = v.svcList := by
      rw [View.cancelStart]
      split <;> rfl
    rw [svcList] at member
    refine .inl ⟨member, ?_⟩
    rw [View.cancelStart_objects]
    split
    · next cancelled =>
      obtain ⟨rfl, start⟩ := cancelled
      exact .single (.cancel start)
    · exact .refl
  | @delete y name daemon phase old =>
    have nodup : v.svcList.Nodup := shows.svcList ▸ shows.indexed.nodup
    obtain ⟨other, member⟩ := (mem_swapRemove nodup old).mp member
    exact .same member (View.delete_objects other)

/-! ## Whole runs -/

/-- The services are in order, and each of them is as it should be. -/
structure Each (P : Service → Prop) (s : Supervisor ι) : Prop where
  known : Known s
  holds : ∀ x ∈ s.daemon.svcList, P (s.daemon.objects x)

theorem LifeMoves.keep {P : Service → Prop} (kept : ∀ svc svc', P svc → LifeMove svc svc' → P svc') {svc svc' : Service}
    (holds : P svc) (moves : LifeMoves svc svc') : P svc' := by
  induction moves with
  | refl => exact holds
  | tail _ move ih => exact kept _ _ ih move

theorem Each.act {P : Service → Prop} (new : ∀ name, P (Service.new name)) (kept : ∀ svc svc', P svc → LifeMove svc svc' → P svc')
    (each : Each P s) (act : LoopAct sigList s s') : Each P s' := by
  refine ⟨each.known.act act, ?_⟩
  cases act with
  | next | report => exact each.holds
  | step step =>
    obtain ⟨v, shows, orderly, named⟩ := each.known
    obtain ⟨v', shows', orderly', move⟩ := loopStep_moves shows orderly step
    intro x member
    rw [shows'.svcList] at member
    rw [shows'.objects]
    rcases move.services shows orderly member with ⟨old, moves⟩ | ⟨-, name, moves⟩
    · rw [← shows.svcList] at old
      rw [← shows.objects] at moves
      exact moves.keep kept (each.holds x old)
    · exact moves.keep kept (new name)

/-- What the moves keep holds of every service in every state that the daemon reaches. -/
theorem services_reached {P : Service → Prop} (new : ∀ name, P (Service.new name))
    (kept : ∀ svc svc', P svc → LifeMove svc svc' → P svc') {n : ℕ} {standard : ℕ} {fds : FdTable κ} {openFds : List ℤ}
    {guard : ℤ} {execOnExit : Bool} {events : List (System.Event n ι κ)} {s : System n ι κ}
    (run : exec? (System.step sigList) (System.init standard fds openFds guard execOnExit) events = some s) :
    Each P s.server.loop := by
  have start : Each P (Supervisor.init : Supervisor ι) := ⟨known_init, nofun⟩
  refine server_reached (I := fun s => Each P s.loop) start ?_ run
  intro server server' each act
  exact (act.loopActs each.known).preserve (fun _ _ => Each.act new kept) each

/-! ## Times and pids -/

/-- What the state of a service says about its times and its pid. -/
def TimesFit (svc : Service) : Prop :=
  match svc.state with
  | .undef => False
  | .start => svc.pid = 0 ∧ svc.reapTime = 0
  | .up => 0 < svc.pid ∧ svc.reapTime = 0
  | .reaped => 0 < svc.pid
  | .down => svc.startTime = 0 ∨ 0 < svc.pid

theorem TimesFit.move {svc svc' : Service} (fits : TimesFit svc) (move : LifeMove svc svc') : TimesFit svc' := by
  cases move with
  | start => exact ⟨rfl, rfl⟩
  | cancel => exact .inl rfl
  | fork state positive =>
    rw [TimesFit, state] at fits
    exact ⟨positive, fits.2⟩
  | reap state =>
    rw [TimesFit, state] at fits
    exact fits.1
  | settle state =>
    rw [TimesFit, state] at fits
    exact .inr fits
  | configure => exact fits

end DaemonProxy.Proofs
