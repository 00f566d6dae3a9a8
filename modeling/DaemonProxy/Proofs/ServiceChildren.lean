import DaemonProxy.Proofs.ServiceInvariant

/-! # Services that are up, and their children

The `pid` and `wait_status` of a service tell whether it is up, and it is up exactly while a child of its own is in the
kernel's table. This holds in every run in which each child that `waitpid` returns is attributed to its own service, whether
or not two services carry one pid.
-/

namespace DaemonProxy.Proofs

open Lib Model

variable {ι : Type} {s : Daemon ι} {v v' : View ι} {x : ι} {svc : Service}

/-- What `pid` and `wait_status` are in each state. -/
def Steady (svc : Service) : Prop :=
  match svc.state with
  | .undef => False
  | .start => svc.pid = 0 ∧ svc.waitStatus < 0
  | .up => 0 < svc.pid ∧ svc.waitStatus < 0
  | .reaped => 0 ≤ svc.pid ∧ 0 ≤ svc.waitStatus
  | .down => 0 ≤ svc.pid ∧ (svc.pid = 0 ∨ 0 ≤ svc.waitStatus)

theorem Steady.up_iff (steady : Steady svc) : svc.state = .up ↔ 0 < svc.pid ∧ svc.waitStatus < 0 := by
  unfold Steady at steady
  cases state : svc.state <;> simp only [state] at steady <;> simp <;> omega

theorem Steady.nonneg (steady : Steady svc) : 0 ≤ svc.pid := by
  unfold Steady at steady
  cases state : svc.state <;> simp only [state] at steady <;> omega

theorem Steady.congr {svc' : Service} (steady : Steady svc) (state : svc'.state = svc.state) (pid : svc'.pid = svc.pid)
    (waitStatus : svc'.waitStatus = svc.waitStatus) : Steady svc' := by
  rwa [Steady, state, pid, waitStatus]

theorem steady_started (svc : Service) (startTime : ℤ) : Steady (Service.started svc startTime) :=
  ⟨rfl, show (-1 : ℤ) < 0 by decide⟩

/-- The service that a child was forked for. -/
def View.owner (v : View ι) (pid : ℤ) : Option ι := (v.children pid).bind Child.owner

theorem View.owner_update {pid : ℤ} {entry : Option (Child ι)}
    (children : v'.children = Function.update v.children pid entry) (p : ℤ) :
    v'.owner p = if p = pid then entry.bind Child.owner else v.owner p := by
  rw [View.owner, children, Function.update_apply]
  split <;> rfl

/-- The services that are up are those with children of their own. -/
structure Attended (v : View ι) : Prop where
  steady : ∀ x ∈ v.svcList, Steady (v.objects x)
  owner : ∀ pid x, v.owner pid = some x ↔ x ∈ v.svcList ∧ (v.objects x).state = .up ∧ (v.objects x).pid = pid

namespace Attended

theorem not_owner (attended : Attended v) (notUp : (v.objects x).state ≠ .up) (pid : ℤ) : v.owner pid ≠ some x :=
  fun own => notUp ((attended.owner pid x).mp own).2.1

theorem congr (attended : Attended v) (svcList : v'.svcList = v.svcList) (objects : v'.objects = v.objects)
    (owner : v'.owner = v.owner) : Attended v' := by
  constructor
  · rw [svcList, objects]
    exact attended.steady
  · rw [svcList, objects, owner]
    exact attended.owner

/-- An entry of the kernel's table changes that belongs to no service. -/
theorem setChild {pid : ℤ} {entry : Option (Child ι)} (attended : Attended v) (before : v.owner pid = none)
    (after : entry.bind Child.owner = none) : Attended { v with children := Function.update v.children pid entry } := by
  refine attended.congr rfl rfl (funext fun p => (View.owner_update rfl p).trans ?_)
  split
  · next here => rw [after, here, before]
  · rfl

theorem exit (attended : Attended v) (pid wstat : ℤ) :
    Attended { v with children := Function.update v.children pid (endProcess wstat (v.children pid)) } := by
  refine attended.congr rfl rfl (funext fun p => (View.owner_update rfl p).trans ?_)
  split
  · next here =>
    rw [View.owner, here]
    rcases v.children pid with _ | ⟨_ | _⟩ <;> rfl
  · rfl

variable [DecidableEq ι]

/-- A service changes, and perhaps its child. -/
theorem change (attended : Attended v) (member : x ∈ v.svcList) (svcList : v'.svcList = v.svcList)
    (objects : v'.objects = Function.update v.objects x svc) (steady : Steady svc)
    (own : ∀ pid, v'.owner pid = some x ↔ svc.state = .up ∧ svc.pid = pid)
    (others : ∀ pid, ∀ y ≠ x, v'.owner pid = some y ↔ v.owner pid = some y) : Attended v' := by
  have object : ∀ y, v'.objects y = if y = x then svc else v.objects y := by
    intro y
    rw [objects, Function.update_apply]
  constructor
  · intro y inList
    rw [object]
    split
    · exact steady
    · exact attended.steady y (svcList ▸ inList)
  · intro pid y
    rw [object, svcList]
    split
    · next here =>
      rw [here, own]
      exact (and_iff_right member).symm
    · next other => exact (others pid y other).trans (attended.owner pid y)

/-- A service changes that is up neither before nor after. -/
theorem settle (attended : Attended v) (member : x ∈ v.svcList) (svcList : v'.svcList = v.svcList)
    (objects : v'.objects = Function.update v.objects x svc) (children : v'.children = v.children) (steady : Steady svc)
    (notUp : (v.objects x).state ≠ .up) (stays : svc.state ≠ .up) : Attended v' := by
  have owner : v'.owner = v.owner := by
    funext pid
    rw [View.owner, children, View.owner]
  refine attended.change member svcList objects steady (fun pid => ?_) fun pid y _ => by rw [owner]
  rw [owner]
  exact iff_of_false (attended.not_owner notUp pid) fun isUp => stays isUp.1

theorem keep (attended : Attended v) (svc : Service) (state : svc.state = (v.objects x).state)
    (pid : svc.pid = (v.objects x).pid) (waitStatus : svc.waitStatus = (v.objects x).waitStatus) :
    Attended (v.setSvc x svc) := by
  have same : ∀ y, ((v.setSvc x svc).objects y).state = (v.objects y).state ∧
      ((v.setSvc x svc).objects y).pid = (v.objects y).pid ∧
      ((v.setSvc x svc).objects y).waitStatus = (v.objects y).waitStatus := by
    intro y
    rw [View.setSvc_apply]
    split
    · next here => exact here ▸ ⟨state, pid, waitStatus⟩
    · exact ⟨rfl, rfl, rfl⟩
  constructor
  · intro y member
    exact (attended.steady y member).congr (same y).1 (same y).2.1 (same y).2.2
  · intro p y
    rw [(same y).1, (same y).2.1]
    exact attended.owner p y

theorem start (attended : Attended v) (member : x ∈ v.svcList) (notUp : (v.objects x).state ≠ .up) (when : ℤ) :
    Attended (v.start x when) :=
  attended.settle member rfl rfl rfl (steady_started ..) notUp nofun

theorem handleStart (attended : Attended v) (member : x ∈ v.svcList) (when : ℤ) : Attended (v.handleStart x when) := by
  rw [View.handleStart]
  split
  · next startable => exact attended.start member (by rcases startable with down | start <;> simp [*]) when
  · exact attended

theorem cancelStart (attended : Attended v) (member : x ∈ v.svcList) : Attended (v.cancelStart x) := by
  rw [View.cancelStart]
  split
  · next start =>
    have steady := attended.steady x member
    rw [Steady, start] at steady
    exact attended.settle member rfl rfl rfl ⟨steady.1.ge, .inl steady.1⟩ (by simp [start]) (by rintro ⟨⟩)
  · exact attended

theorem applyTriggers (attended : Attended v) (member : x ∈ v.svcList) (autostart : Bool) (signals : ℤ → Bool)
    (enableSigs triggered : Bool) : Attended (v.applyTriggers x autostart signals enableSigs triggered) := by
  let svc := { v.objects x with autoRestart := autostart, autostartSignals := signals }
  have set : Attended (v.setSvc x svc) := attended.keep svc rfl rfl rfl
  have listening : Attended ((v.setSvc x svc).setSigwake x enableSigs) :=
    (set.keep { (v.setSvc x svc).objects x with sigwake := enableSigs } rfl rfl rfl).congr rfl rfl rfl
  rw [View.applyTriggers]
  dsimp only
  split
  · exact listening.handleStart member _
  · exact listening

/-- A service that waits for its start gets a child. -/
theorem fork {pid : ℤ} (attended : Attended v) (member : x ∈ v.svcList) (state : (v.objects x).state = .start)
    (free : v.children pid = none) (positive : 0 < pid) : Attended (v.fork x pid) := by
  have steady := attended.steady x member
  rw [Steady, state] at steady
  have owner : ∀ p, (v.fork x pid).owner p = if p = pid then some x else v.owner p :=
    View.owner_update (show _ = Function.update v.children pid (some (.running (some x))) from rfl)
  refine attended.change member rfl rfl ⟨positive, steady.2⟩ (fun p => ?_) fun p y other => ?_
  · rw [owner]
    split
    · next here => exact iff_of_true rfl ⟨rfl, here.symm⟩
    · next elsewhere =>
      exact iff_of_false (attended.not_owner (by simp [state]) p) fun same => elsewhere same.2.symm
  · rw [owner]
    split
    · next here =>
      have none : v.owner p = none := by rw [View.owner, here, free, Option.bind_none]
      rw [none]
      exact iff_of_false (fun same => other (Option.some.inj same).symm) nofun
    · rfl

theorem runStart (attended : Attended v) (member : x ∈ v.svcList) (state : (v.objects x).state = .start)
    (fork : Option ℤ) : Attended (v.runStart x fork) := by
  rw [View.runStart]
  split
  · exact attended.congr rfl rfl rfl
  · cases given : v.newPid fork with
    | none => exact (attended.start member (by simp [state]) _).congr rfl rfl rfl
    | some pid =>
      obtain ⟨-, positive, free⟩ : fork = some pid ∧ 0 < pid ∧ v.children pid = none := by
        simpa [View.newPid, Option.filter_eq_some_iff] using given
      exact attended.fork member state free positive

theorem run (attended : Attended v) (member : x ∈ v.svcList) (fork : Option ℤ) (triggered : Bool) :
    Attended (v.run x fork triggered) := by
  rw [View.run]
  split
  · next state => exact attended.runStart member state fork
  · next state =>
    have notUp : (v.objects x).state ≠ .up := by simp [state]
    have steady := attended.steady x member
    rw [Steady, state] at steady
    split
    · have restarted : Attended (v.restart x) :=
        attended.settle member rfl (View.restart_objects v x) rfl (steady_started ..) notUp (by rintro ⟨⟩)
      refine restarted.runStart member ?_ fork
      rw [View.restart_objects, Function.update_self]
      rfl
    · exact attended.settle member rfl rfl rfl ⟨steady.1, .inr steady.2⟩ notUp (by rintro ⟨⟩)
  · exact attended.congr rfl rfl rfl

theorem create (attended : Attended v) (absent : x ∉ v.svcList) (name : Bytes) : Attended (v.create x name) := by
  constructor
  · intro y inList
    rw [View.create_objects]
    split
    · exact ⟨le_rfl, .inl rfl⟩
    · next other => exact attended.steady y ((View.mem_create.mp inList).resolve_right other)
  · intro pid y
    have owner : (v.create x name).owner pid = v.owner pid := rfl
    rw [owner, attended.owner, View.mem_create, View.create_objects]
    split
    · next here => simp [here, absent]
    · next other => simp [other]

theorem delete (attended : Attended v) (nodup : v.svcList.Nodup) (member : x ∈ v.svcList) (idle : (v.objects x).pid ≤ 0) :
    Attended (v.delete x) := by
  have inList : ∀ y, y ∈ (v.delete x).svcList ↔ y ≠ x ∧ y ∈ v.svcList := fun y => mem_swapRemove nodup member
  have notUp : (v.objects x).state ≠ .up := fun isUp => idle.not_gt ((attended.steady x member).up_iff.mp isUp).1
  constructor
  · intro y inside
    obtain ⟨other, old⟩ := (inList y).mp inside
    rw [View.delete_objects other]
    exact attended.steady y old
  · intro pid y
    have owner : (v.delete x).owner pid = v.owner pid := rfl
    rw [owner, inList]
    by_cases here : y = x
    · rw [here]
      exact iff_of_false (attended.not_owner notUp pid) fun inside => inside.1.1 rfl
    · rw [attended.owner, View.delete_objects here]
      simp [here]

theorem handleReaped {pid wstat : ℤ} (attended : Attended v) (zombie : v.children pid = some (.zombie (some x) wstat))
    (nonneg : 0 ≤ wstat) : Attended ((v.forget pid).handleReaped x wstat) := by
  obtain ⟨member, isUp, carries⟩ := (attended.owner pid x).mp (by rw [View.owner, zombie]; rfl)
  have isUp' : ((v.forget pid).objects x).state = .up := isUp
  rw [View.handleReaped, if_pos isUp']
  have owner : ∀ p, (v.forget pid).owner p = if p = pid then none else v.owner p :=
    View.owner_update (show _ = Function.update v.children pid none from rfl)
  refine attended.change member rfl rfl ⟨(attended.steady x member).nonneg, nonneg⟩ (fun p => ?_) fun p y other => ?_
  · refine iff_of_false (fun own => ?_) (by simp)
    replace own := (owner p).symm.trans own
    split at own
    · cases own
    · next elsewhere => exact elsewhere (((attended.owner p x).mp own).2.2.symm.trans carries)
  · refine Iff.trans (Eq.congr_left (owner p)) ?_
    split
    · next here =>
      have own : v.owner p = some x := by rw [View.owner, here, zombie]; rfl
      rw [own]
      exact iff_of_false (by rintro ⟨⟩) fun same => other (Option.some.inj same).symm
    · rfl

end Attended

/-! ## Runs -/

/-- A reap returns a status that is not negative, and finds the service that the child was forked for. -/
def ReapsOwn [DecidableEq ι] (s : Daemon ι) : SvcEvent ι → Prop
  | .reap pid =>
      match s.children pid with
      | some (.zombie owner wstat) => 0 ≤ wstat ∧ ∀ x ∈ owner, ((svcByPid pid).run s).map Prod.fst = some (some x)
      | _ => True
  | _ => True

variable [DecidableEq ι]

theorem Attended.move {event : SvcEvent ι} (shows : Shows s v) (attended : Attended v) (move : SvcMove s v event v')
    (reaps : ReapsOwn s event) : Attended v' := by
  cases move with
  | same => exact attended
  | create absent => exact attended.create absent _
  | @autoUp name interval autostart signals enableSigs triggered x member =>
    have set : Attended (v.setInterval x interval) := by
      cases interval with
      | none => exact attended
      | some interval => exact attended.keep _ rfl rfl rfl
    exact set.applyTriggers ((View.setInterval_svcList v x interval).symm ▸ member) ..
  | start member => exact attended.handleStart member _
  | cancel member => exact attended.cancelStart member
  | delete member nodup idle => exact attended.delete nodup member idle
  | clock => exact attended.congr rfl rfl rfl
  | wake member => exact attended.handleStart member _
  | run member => exact attended.run member _ _
  | adopt free positive => exact attended.setChild (by rw [View.owner, free, Option.bind_none]) rfl
  | exit => exact attended.exit _ _
  | @unknown pid wstat owner entry missing =>
    cases owner with
    | none => exact attended.setChild (by rw [View.owner, entry]; rfl) rfl
    | some x =>
      obtain ⟨member, isUp, carries⟩ := (attended.owner pid x).mp (by rw [View.owner, entry]; rfl)
      have positive := ((attended.steady x member).up_iff.mp isUp).1
      exact absurd carries (missing x member positive.ne')
  | @reaped pid wstat owner x entry member carries found =>
    rw [ReapsOwn, shows.children, entry] at reaps
    cases owner with
    | some y =>
      have same := found.symm.trans (reaps.2 y rfl)
      obtain rfl : x = y := Option.some.inj (Option.some.inj same)
      exact attended.handleReaped entry reaps.1
    | none =>
      -- The service is not up: otherwise the child would be its own.
      have orphan : v.owner pid = none := by rw [View.owner, entry]; rfl
      have notUp : ((v.forget pid).objects x).state ≠ .up := fun isUp =>
        nomatch orphan.symm.trans ((attended.owner pid x).mpr ⟨member, isUp, carries⟩)
      rw [View.handleReaped, if_neg notUp]
      exact attended.setChild orphan rfl

/-- What every state of such a run has. -/
def SvcAttended (s : Daemon ι) : Prop := ∃ v, Shows s v ∧ Orderly v ∧ Attended v

theorem svcStep_attended (s : Daemon ι) (event : SvcEvent ι) (inv : SvcAttended s) (reaps : ReapsOwn s event) :
    ∃ s', svcStep s event = some s' ∧ SvcAttended s' := by
  obtain ⟨v, shows, orderly, attended⟩ := inv
  obtain ⟨s', step, v', shows', orderly', move⟩ := svcStep_moves shows orderly event
  exact ⟨s', step, v', shows', orderly', attended.move shows move reaps⟩

theorem init_svcAttended : SvcAttended (Daemon.init : Daemon ι) :=
  ⟨.init, shows_init, orderly_init, nofun, fun _ _ => iff_of_false nofun fun inside => nomatch inside.1⟩

end DaemonProxy.Proofs
