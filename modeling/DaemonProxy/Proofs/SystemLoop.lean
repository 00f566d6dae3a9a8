import DaemonProxy.Proofs.CommandLoop
import DaemonProxy.Proofs.SystemServer
import DaemonProxy.Proofs.Triggers

/-! # The main loop of the daemon

The services and the signals of the daemon change by steps of the main loop only, and `wake->next` with them. What the steps
keep therefore holds in every state of the daemon; here it is kept that services are known by their names.
-/

namespace DaemonProxy.Proofs

open Lib Model

variable {ι κ : Type}

/-- Every service has a name of its own. -/
structure Named (v : View ι) : Prop where
  valid : ∀ x ∈ v.svcList, (v.objects x).name ≠ [] ∧ svcCheckName (v.objects x).name = true
  unique : ∀ x ∈ v.svcList, ∀ y ∈ v.svcList, (v.objects x).name = (v.objects y).name → x = y

/-- The services are in order. -/
def Known (s : Supervisor ι) : Prop := ∃ v, Shows s.daemon v ∧ Orderly v ∧ Named v

theorem Named.keep {v v' : View ι} (named : Named v) (svcList : ∀ x ∈ v'.svcList, x ∈ v.svcList)
    (names : ∀ x ∈ v'.svcList, (v'.objects x).name = (v.objects x).name) : Named v' where
  valid x member := by
    rw [names x member]
    exact named.valid x (svcList x member)
  unique x memberX y memberY same := by
    rw [names x memberX, names y memberY] at same
    exact named.unique x (svcList x memberX) y (svcList y memberY) same

variable [DecidableEq ι] [DecidableEq κ] {s s' : Supervisor ι} {v v' : View ι} {sigList : List SigListItem}

theorem Named.create {x : ι} {name : Bytes} (named : Named v) (nonempty : name ≠ []) (valid : svcCheckName name = true)
    (unknown : ∀ y ∈ v.svcList, (v.objects y).name ≠ name) (absent : x ∉ v.svcList) : Named (v.create x name) := by
  have cases : ∀ y ∈ (v.create x name).svcList, (y = x ∧ ((v.create x name).objects y).name = name) ∨
      (y ∈ v.svcList ∧ ((v.create x name).objects y).name = (v.objects y).name) := by
    intro y member
    rw [View.create_objects]
    rcases View.mem_create.mp member with old | rfl
    · have other : y ≠ x := fun same => absent (same ▸ old)
      exact .inr ⟨old, by rw [if_neg other]⟩
    · exact .inl ⟨rfl, by rw [if_pos rfl]⟩
  refine ⟨fun y member => ?_, fun y memberY z memberZ same => ?_⟩
  · rcases cases y member with ⟨-, is⟩ | ⟨old, is⟩
    · rw [is]
      exact ⟨nonempty, valid⟩
    · rw [is]
      exact named.valid y old
  · rcases cases y memberY with ⟨rfl, isY⟩ | ⟨oldY, isY⟩
    · rcases cases z memberZ with ⟨rfl, -⟩ | ⟨oldZ, isZ⟩
      · rfl
      · exact absurd (isZ.symm.trans (same.symm.trans isY)) (unknown z oldZ)
    · rcases cases z memberZ with ⟨rfl, isZ⟩ | ⟨oldZ, isZ⟩
      · exact absurd (isY.symm.trans (same.trans isZ)) (unknown y oldY)
      · exact named.unique y oldY z oldZ (isY.symm.trans (same.trans isZ))

theorem Named.looked {x : ι} {command rest : StrSeg} (named : Named v) (looked : Looked s v command x rest s' v') : Named v' := by
  cases looked with
  | found names member found => exact named
  | created names nonempty valid unknown absent => exact named.create nonempty valid unknown absent

theorem Named.setInterval {x : ι} (named : Named v) (interval : Option ℤ) : Named (v.setInterval x interval) := by
  refine named.keep (fun y member => View.setInterval_svcList v x interval ▸ member) fun y member => ?_
  rw [View.setInterval_objects]
  split
  · next same => rw [same]
  · rfl

theorem Named.handleStart {x : ι} {when : ℤ} (named : Named v) : Named (v.handleStart x when) := by
  refine named.keep (fun y member => View.handleStart_svcList v x when ▸ member) fun y member => ?_
  rw [View.handleStart_objects]
  split
  · next starts => rw [starts.1]; rfl
  · rfl

/-- A step of the main loop keeps the names. -/
theorem Named.step {event : LoopEvent ι} (named : Named v) (shows : Shows s.daemon v) (orderly : Orderly v)
    (move : LoopMove sigList s v event s' v') : Named v' := by
  cases move with
  | arrive | exit | adopt | iterate | reapOther | dump | same | clear => exact named.keep (fun _ => id) fun _ _ => rfl
  | @reap x pid wstat daemon phase member =>
    rw [View.handleReaped]
    split
    · refine named.keep (fun _ => id) fun y inside => ?_
      refine (congrArg Service.name (View.setSvc_apply ..)).trans ?_
      split
      · next same => rw [same]; rfl
      · rfl
    · exact named.keep (fun _ => id) fun _ _ => rfl
  | @runActive fork events daemon phase news =>
    obtain ⟨-, svcList, -⟩ := View.runActive_spec shows orderly (events.map SigStatus.signum) (Supervisor.check s) fork
    refine named.keep (fun y member => svcList ▸ member) fun y member => ?_
    have settings := View.runActive_settings shows orderly (events.map SigStatus.signum) (Supervisor.check s) fork (svcList ▸ member)
    exact congrArg (fun settings => settings.2.2) settings
  | create phase looked | autoUpRefused phase looked => exact named.looked looked
  | autoUpInterval phase looked args refused => exact (named.looked looked).setInterval _
  | @autoUp x mem stored command rest triggers interval s₁ v₁ daemon autostart triggered sigs phase looked args accepted isStored check =>
    have timed : Named (v₁.setInterval x interval) := (named.looked looked).setInterval interval
    refine timed.keep (fun y member => ?_) fun y member => ?_
    · rwa [(View.applyTriggers_frame ..).1] at member
    rw [View.applyTriggers_objects]
    split
    · next same =>
      rw [Service.triggered, same]
      split <;> rfl
    · rfl
  | start phase member => exact named.handleStart
  | @cancel x configured command rest name when daemon phase names member found peek dash =>
    rw [View.cancelStart]
    split
    · refine named.keep (fun _ => id) fun y inside => ?_
      refine (congrArg Service.name (View.setSvc_apply ..)).trans ?_
      split
      · next same => rw [same]
      · rfl
    · exact named
  | @delete x name daemon phase member =>
    have nodup : v.svcList.Nodup := shows.svcList ▸ shows.indexed.nodup
    refine named.keep (fun y old => ((mem_swapRemove nodup member).mp old).2) fun y old => ?_
    rw [View.delete_objects ((mem_swapRemove nodup member).mp old).1]

theorem Known.setNext (known : Known s) (next : ℤ) : Known { s with daemon := { s.daemon with next } } := by
  obtain ⟨v, shows, orderly, named⟩ := known
  exact ⟨v, shows.setNext next, orderly, named⟩

theorem Known.record (known : Known s) (entry : SvcRecord ι) :
    Known { s with daemon := { s.daemon with history := s.daemon.history ++ [entry] } } := by
  obtain ⟨v, shows, orderly, named⟩ := known
  exact ⟨_, shows.record entry, orderly.congr rfl rfl rfl rfl, named.keep (fun _ => id) fun _ _ => rfl⟩

theorem Known.step {event : LoopEvent ι} (known : Known s) (step : loopStep sigList s event = some s') : Known s' := by
  obtain ⟨v, shows, orderly, named⟩ := known
  obtain ⟨v', shows', orderly', move⟩ := loopStep_moves shows orderly step
  exact ⟨v', shows', orderly', named.step shows orderly move⟩

theorem known_init : Known (.init : Supervisor ι) := ⟨.init, shows_init, orderly_init, ⟨nofun, nofun⟩⟩

/-! ## Acts -/

/-- What an act of the daemon does to the main loop. -/
inductive LoopAct (sigList : List SigListItem) (s : Supervisor ι) : Supervisor ι → Prop
  | step {event : LoopEvent ι} {s' : Supervisor ι} (step : loopStep sigList s event = some s') : LoopAct sigList s s'
  | next (next : ℤ) : LoopAct sigList s { s with daemon := { s.daemon with next } }
  /-- A line of `statedump`. -/
  | report (x : ι) : LoopAct sigList s { s with
      daemon := { s.daemon with
        history := s.daemon.history ++ [.reported x (s.daemon.objects x).state s.daemon.now (noticeOf (s.daemon.objects x))] } }

abbrev LoopActs (sigList : List SigListItem) : Supervisor ι → Supervisor ι → Prop := Relation.ReflTransGen (LoopAct sigList)

theorem LoopActs.preserve {I : Supervisor ι → Prop} (kept : ∀ s s', I s → LoopAct sigList s s' → I s')
    (acts : LoopActs sigList s s') (holds : I s) : I s' := by
  induction acts with
  | refl => exact holds
  | tail _ act ih => exact kept _ _ ih act

theorem Known.act (known : Known s) (act : LoopAct sigList s s') : Known s' := by
  cases act with
  | step step => exact known.step step
  | next next => exact known.setNext next
  | report x => exact known.record _

theorem LoopCommand.acts (command : LoopCommand sigList s s') : LoopActs sigList s s' := by
  cases command with
  | same => exact .refl
  | step step => exact .single (.step step)
  | wake => exact .single (.next _)

section Acts

variable {line : Bytes × StrSeg → Prop}

theorem serverCall_loops {server : Server ι κ} (known : Known server.loop) (phase : server.loop.phase = .commands)
    (env : CallEnv ι κ) (passed : Option ℤ) (name : Bytes) (args : StrSeg) :
    Ensures (System.serverCall sigList env passed name args) server fun _ server' =>
      LoopCommand sigList server.loop server'.loop := by
  obtain ⟨v, shows, orderly, -⟩ := known
  intro input server' run
  exact serverCall_keeps (I := fun server' => LoopCommand sigList server.loop server'.loop) .same
    (fun command _ => serverHandler_loops shows orderly phase passed env command) run

/-- An act of the daemon is for the main loop a sequence of its steps. -/
theorem ServerAct.loopActs {s s' : Server ι κ} (known : Known s.loop) (act : ServerAct sigList line s s') :
    LoopActs sigList s.loop s'.loop := by
  cases act with
  | call phase _ called => exact (serverCall_loops known phase _ _ _ _ _ _ called).acts
  | step step => exact .single (.step step)
  | next next => exact .single (.next next)
  | report x => exact .single (.report x)
  | register k fdnum flags mem run =>
    obtain ⟨fds, openFds, rfl⟩ := registerFd_handles k fdnum flags mem s _ _ run
    exact .refl
  | log | exit => exact .refl

theorem Known.serverAct {s s' : Server ι κ} (known : Known s.loop) (act : ServerAct sigList line s s') : Known s'.loop :=
  (act.loopActs known).preserve (fun _ _ => Known.act) known

end Acts

end DaemonProxy.Proofs
