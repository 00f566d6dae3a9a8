import DaemonProxy.Proofs.ServiceRun

/-! # The service machine keeps its invariants

In every state the lists hold the services they should, whatever the kernel does. Provided that a fork does not give a pid
that another service still carries, services and children agree too; every step of the machine then ends and keeps
`SvcInv`.
-/

namespace DaemonProxy.Proofs

open Lib Model

variable {ι : Type} {s : Daemon ι} {v v' : View ι} {x : ι} {svc : Service}

/-! ## The lists -/

/-- The states in which a service is on the active list. -/
def Listed (svc : Service) : Prop := svc.state = .start ∨ svc.state = .reaped

/-- The two lists hold the services that they should. -/
structure Orderly (v : View ι) : Prop where
  known : ∀ x ∈ v.svcList, (v.objects x).state ≠ .undef
  active : ∀ x, x ∈ v.active ↔ x ∈ v.svcList ∧ Listed (v.objects x)
  sigwake : ∀ x, x ∈ v.sigwake ↔ x ∈ v.svcList ∧ (v.objects x).sigwake = true

variable [DecidableEq ι]

theorem mem_setListed {listed : Bool} {list : List ι} {y : ι} :
    y ∈ Links.setListed x listed list ↔ y = x ∧ listed = true ∨ y ≠ x ∧ y ∈ list := by
  cases listed with
  | false => simp [Links.setListed, and_comm]
  | true =>
    rw [Links.setListed, if_pos rfl]
    by_cases same : y = x
    · by_cases member : x ∈ list <;> simp [same, member]
    · by_cases member : x ∈ list <;> simp [same, member]

namespace Orderly

/-- One object changes, and it is put on the active list or taken off to match. -/
theorem change (orderly : Orderly v) (member : x ∈ v.svcList) (listed : Bool) (svcList : v'.svcList = v.svcList)
    (objects : v'.objects = Function.update v.objects x svc) (active : v'.active = Links.setListed x listed v.active)
    (sigwake : v'.sigwake = v.sigwake) (known : svc.state ≠ .undef) (isListed : listed = true ↔ Listed svc)
    (flag : svc.sigwake = (v.objects x).sigwake) : Orderly v' := by
  have object : ∀ y, v'.objects y = if y = x then svc else v.objects y := by
    intro y
    rw [objects, Function.update_apply]
  refine ⟨fun y inList => ?_, fun y => ?_, fun y => ?_⟩
  · rw [object]
    split
    · exact known
    · exact orderly.known y (svcList ▸ inList)
  · rw [active, mem_setListed, svcList, object, orderly.active]
    by_cases same : y = x
    · simp [same, member, isListed]
    · simp [same]
  · rw [sigwake, orderly.sigwake, svcList, object]
    by_cases same : y = x
    · simp [same, flag]
    · simp [same]

omit [DecidableEq ι] in
/-- Only what the lists do not depend on changes. -/
theorem congr (orderly : Orderly v) (svcList : v'.svcList = v.svcList) (objects : v'.objects = v.objects)
    (active : v'.active = v.active) (sigwake : v'.sigwake = v.sigwake) : Orderly v' := by
  refine ⟨?_, ?_, ?_⟩
  · rw [svcList, objects]
    exact orderly.known
  · rw [svcList, objects, active]
    exact orderly.active
  · rw [svcList, objects, sigwake]
    exact orderly.sigwake

theorem start (orderly : Orderly v) (member : x ∈ v.svcList) (when : ℤ) : Orderly (v.start x when) :=
  orderly.change member true rfl rfl rfl rfl nofun (iff_of_true rfl (.inl rfl)) rfl

theorem handleStart (orderly : Orderly v) (member : x ∈ v.svcList) (when : ℤ) : Orderly (v.handleStart x when) := by
  rw [View.handleStart]
  split
  · exact orderly.start member when
  · exact orderly

theorem cancelStart (orderly : Orderly v) (member : x ∈ v.svcList) : Orderly (v.cancelStart x) := by
  rw [View.cancelStart]
  split
  · exact orderly.change member false rfl rfl rfl rfl (by rintro ⟨⟩) (iff_of_false (by rintro ⟨⟩) (not_or.mpr ⟨by rintro ⟨⟩, by rintro ⟨⟩⟩)) rfl
  · exact orderly

theorem handleReaped (orderly : Orderly v) (member : x ∈ v.svcList) (wstat : ℤ) : Orderly (v.handleReaped x wstat) := by
  rw [View.handleReaped]
  split
  · exact orderly.change member true rfl rfl rfl rfl (by rintro ⟨⟩) (iff_of_true rfl (.inr rfl)) rfl
  · exact orderly

/-- Putting a service on the active list or taking it off, where it belongs. -/
theorem setActive (orderly : Orderly v) (member : x ∈ v.svcList) (listed : Bool)
    (isListed : listed = true ↔ Listed (v.objects x)) : Orderly (v.setActive x listed) :=
  orderly.change member listed rfl (Function.update_eq_self x v.objects).symm rfl rfl (orderly.known x member) isListed rfl

theorem setSigwake (orderly : Orderly v) (member : x ∈ v.svcList) (sigwake : Bool) : Orderly (v.setSigwake x sigwake) := by
  have object : ∀ y, (v.setSigwake x sigwake).objects y = if y = x then { v.objects x with sigwake } else v.objects y :=
    fun y => Function.update_apply ..
  refine ⟨fun y inList => ?_, fun y => ?_, fun y => ?_⟩
  · rw [object]
    split
    · exact orderly.known x member
    · exact orderly.known y inList
  · rw [object]
    refine (orderly.active y).trans (and_congr_right fun _ => ?_)
    by_cases same : y = x
    · simp [same, Listed]
    · simp [same]
  · rw [object]
    refine mem_setListed.trans ?_
    rw [orderly.sigwake]
    by_cases same : y = x
    · simp only [same, if_true, true_and, ne_eq, not_true_eq_false, false_and, or_false]
      exact (and_iff_right member).symm
    · simp only [same, if_false, false_and, ne_eq, not_false_eq_true, true_and, false_or]
      rfl

theorem keep (orderly : Orderly v) (svc : Service) (state : svc.state = (v.objects x).state)
    (sigwake : svc.sigwake = (v.objects x).sigwake) : Orderly (v.setSvc x svc) := by
  have same : ∀ y, ((v.setSvc x svc).objects y).state = (v.objects y).state ∧
      ((v.setSvc x svc).objects y).sigwake = (v.objects y).sigwake := by
    intro y
    rw [View.setSvc_apply]
    split
    · next here => exact here ▸ ⟨state, sigwake⟩
    · exact ⟨rfl, rfl⟩
  refine ⟨fun y inList => ?_, fun y => ?_, fun y => ?_⟩
  · rw [(same y).1]
    exact orderly.known y inList
  · rw [Listed, (same y).1]
    exact orderly.active y
  · rw [(same y).2]
    exact orderly.sigwake y

theorem applyTriggers (orderly : Orderly v) (member : x ∈ v.svcList) (autostart : Bool) (signals : ℤ → Bool)
    (enableSigs triggered : Bool) : Orderly (v.applyTriggers x autostart signals enableSigs triggered) := by
  have set := orderly.keep { v.objects x with autoRestart := autostart, autostartSignals := signals } rfl rfl
  rw [View.applyTriggers]
  dsimp only
  split
  · exact (set.setSigwake member enableSigs).handleStart member _
  · exact set.setSigwake member enableSigs

theorem runStart (orderly : Orderly v) (member : x ∈ v.svcList) (state : (v.objects x).state = .start)
    (fork : Option ℤ) : Orderly (v.runStart x fork) := by
  rw [View.runStart]
  split
  · exact orderly.setActive member true (iff_of_true rfl (.inl state))
  · split
    · exact orderly.change member false rfl rfl rfl rfl (by rintro ⟨⟩) (iff_of_false (by rintro ⟨⟩) (not_or.mpr ⟨by rintro ⟨⟩, by rintro ⟨⟩⟩)) rfl
    · refine (orderly.start member _).setActive member true (iff_of_true rfl (.inl ?_))
      exact congrArg Service.state (View.start_objects ..)

/-- The service stays on the list while it goes down and waits for its next start. -/
theorem restart (orderly : Orderly v) (member : x ∈ v.svcList) : Orderly (v.restart x) :=
  orderly.change member true rfl (View.restart_objects v x) rfl rfl nofun (iff_of_true rfl (.inl rfl)) rfl

theorem run (orderly : Orderly v) (member : x ∈ v.svcList) (fork : Option ℤ) (triggered : Bool) :
    Orderly (v.run x fork triggered) := by
  cases state : (v.objects x).state with
  | undef => exact absurd state (orderly.known x member)
  | start =>
    rw [View.run, state]
    exact orderly.runStart member state fork
  | up =>
    rw [View.run, state]
    exact orderly.setActive member false (iff_of_false (by rintro ⟨⟩) (by simp [Listed, state]))
  | down =>
    rw [View.run, state]
    exact orderly.setActive member false (iff_of_false (by rintro ⟨⟩) (by simp [Listed, state]))
  | reaped =>
    rw [View.run, state]
    dsimp only
    split
    · refine (orderly.restart member).runStart member ?_ fork
      exact congrArg Service.state (View.start_objects ..)
    · exact orderly.change member false rfl rfl rfl rfl (by rintro ⟨⟩) (iff_of_false (by rintro ⟨⟩) (not_or.mpr ⟨by rintro ⟨⟩, by rintro ⟨⟩⟩)) rfl

theorem create (orderly : Orderly v) (absent : x ∉ v.svcList) (name : Bytes) : Orderly (v.create x name) := by
  refine ⟨fun y member => ?_, fun y => ?_, fun y => ?_⟩
  · rw [View.create_objects]
    split
    · exact nofun
    · next other => exact orderly.known y ((View.mem_create.mp member).resolve_right other)
  · rw [View.mem_create, View.create_objects]
    refine (orderly.active y).trans ?_
    by_cases same : y = x
    · simp [same, absent, Listed]
    · simp [same]
  · rw [View.mem_create, View.create_objects]
    refine (orderly.sigwake y).trans ?_
    by_cases same : y = x
    · simp [same, absent, Service.zero]
    · simp [same]

theorem delete (orderly : Orderly v) (nodup : v.svcList.Nodup) (member : x ∈ v.svcList) : Orderly (v.delete x) := by
  have inList : ∀ y, y ∈ (v.delete x).svcList ↔ y ≠ x ∧ y ∈ v.svcList := fun y => mem_swapRemove nodup member
  refine ⟨fun y inside => ?_, fun y => ?_, fun y => ?_⟩
  · obtain ⟨other, old⟩ := (inList y).mp inside
    rw [View.delete_objects other]
    exact orderly.known y old
  · have active : (v.delete x).active = Links.setListed x false v.active := rfl
    rw [inList, active, mem_setListed, orderly.active]
    by_cases same : y = x
    · simp [same]
    · simp [same, View.delete_objects same]
  · have sigwake : (v.delete x).sigwake = Links.setListed x false v.sigwake := rfl
    rw [inList, sigwake, mem_setListed, orderly.sigwake]
    by_cases same : y = x
    · simp [same]
    · simp [same, View.delete_objects same]

end Orderly

/-! ## Services and children -/

/-- The services, their lists and their children are in order. -/
structure ViewInv (v : View ι) : Prop where
  orderly : Orderly v
  alive : Alive v.svcList v.objects v.children

/-- No service but `x` carries the pid that a fork for `x` is offered. -/
def PidFresh (s : Daemon ι) (x : ι) (fork : Option ℤ) : Prop :=
  ∀ pid ∈ fork, ∀ y ∈ s.svcList, y ≠ x → (s.objects y).pid ≠ pid

namespace ViewInv

theorem handleStart (inv : ViewInv v) (member : x ∈ v.svcList) (when : ℤ) : ViewInv (v.handleStart x when) := by
  refine ⟨inv.orderly.handleStart member when, ?_⟩
  rw [View.handleStart]
  split
  · next startable =>
    have notUp : (v.objects x).state ≠ .up := by rcases startable with down | start <;> simp [*]
    exact inv.alive.settle member notUp (.inr (.inr ⟨rfl, rfl⟩)) (.inl rfl)
  · exact inv.alive

theorem cancelStart (inv : ViewInv v) (member : x ∈ v.svcList) : ViewInv (v.cancelStart x) := by
  refine ⟨inv.orderly.cancelStart member, ?_⟩
  rw [View.cancelStart]
  split
  · next start => exact inv.alive.settle member (by simp [start]) (.inl rfl) (.inr rfl)
  · exact inv.alive

theorem applyTriggers (inv : ViewInv v) (member : x ∈ v.svcList) (autostart : Bool) (signals : ℤ → Bool)
    (enableSigs triggered : Bool) : ViewInv (v.applyTriggers x autostart signals enableSigs triggered) := by
  let svc := { v.objects x with autoRestart := autostart, autostartSignals := signals }
  have first : Alive v.svcList (Function.update v.objects x svc) v.children := inv.alive.keep rfl rfl
  have set : ViewInv ((v.setSvc x svc).setSigwake x enableSigs) :=
    ⟨(inv.orderly.keep svc rfl rfl).setSigwake member enableSigs, first.keep rfl rfl⟩
  rw [View.applyTriggers]
  dsimp only
  split
  · exact set.handleStart member _
  · exact set

theorem runStart {fork : Option ℤ} (inv : ViewInv v) (member : x ∈ v.svcList) (state : (v.objects x).state = .start)
    (fresh : ∀ pid ∈ fork, ∀ y ∈ v.svcList, y ≠ x → (v.objects y).pid ≠ pid) : ViewInv (v.runStart x fork) := by
  have notUp : (v.objects x).state ≠ .up := by simp [state]
  refine ⟨inv.orderly.runStart member state fork, ?_⟩
  rw [View.runStart]
  split
  · exact inv.alive
  · cases given : v.newPid fork with
    | none => exact inv.alive.settle member notUp (.inr (.inr ⟨rfl, rfl⟩)) (.inl rfl)
    | some pid =>
      obtain ⟨offered, positive, free⟩ : fork = some pid ∧ 0 < pid ∧ v.children pid = none := by
        simpa [View.newPid, Option.filter_eq_some_iff] using given
      exact inv.alive.fork member notUp free positive (fresh pid offered) rfl rfl

theorem run {fork : Option ℤ} (inv : ViewInv v) (member : x ∈ v.svcList)
    (fresh : ∀ pid ∈ fork, ∀ y ∈ v.svcList, y ≠ x → (v.objects y).pid ≠ pid) (triggered : Bool) :
    ViewInv (v.run x fork triggered) := by
  have orderly := inv.orderly.run member fork triggered
  cases state : (v.objects x).state with
  | undef => exact absurd state (inv.orderly.known x member)
  | start =>
    rw [View.run, state]
    exact inv.runStart member state fresh
  | up =>
    rw [View.run, state] at orderly ⊢
    exact ⟨orderly, inv.alive⟩
  | down =>
    rw [View.run, state] at orderly ⊢
    exact ⟨orderly, inv.alive⟩
  | reaped =>
    have notUp : (v.objects x).state ≠ .up := by simp [state]
    rw [View.run, state] at orderly ⊢
    dsimp only at orderly ⊢
    split at orderly
    · next again =>
      rw [if_pos again]
      have restarted : ViewInv (v.restart x) := by
        refine ⟨inv.orderly.restart member, ?_⟩
        rw [View.restart_objects]
        exact inv.alive.settle member notUp (.inr (.inr ⟨rfl, rfl⟩)) (.inl rfl)
      refine restarted.runStart member (congrArg Service.state (View.start_objects ..)) fun pid offered y inList other => ?_
      rw [View.restart_objects, Function.update_of_ne other]
      exact fresh pid offered y inList other
    · next stays =>
      rw [if_neg stays]
      exact ⟨orderly, inv.alive.settle member notUp (.inl rfl) (.inr rfl)⟩

theorem create (inv : ViewInv v) (absent : x ∉ v.svcList) (name : Bytes) : ViewInv (v.create x name) :=
  ⟨inv.orderly.create absent name, inv.alive.create absent rfl rfl⟩

theorem delete (inv : ViewInv v) (nodup : v.svcList.Nodup) (member : x ∈ v.svcList) (noPid : (v.objects x).pid = 0) :
    ViewInv (v.delete x) := by
  refine ⟨inv.orderly.delete nodup member, ?_⟩
  have kept : Alive v.svcList (v.delete x).objects v.children := inv.alive.keep rfl rfl
  refine kept.delete ?_ fun y => mem_swapRemove nodup member
  exact (congrArg Service.pid (View.setSvc_objects ..)).trans noPid

end ViewInv

/-- The state is in order. -/
def SvcInv (s : Daemon ι) : Prop := ∃ v, Shows s v ∧ ViewInv v

namespace SvcInv

omit [DecidableEq ι] in
theorem indexed (inv : SvcInv s) : Indexed s := by
  obtain ⟨v, shows, -⟩ := inv
  exact shows.indexed

omit [DecidableEq ι] in
theorem alive (inv : SvcInv s) : Alive s.svcList s.objects s.children := by
  obtain ⟨v, shows, inv⟩ := inv
  rw [shows.svcList, shows.objects, shows.children]
  exact inv.alive

omit [DecidableEq ι] in
/-- No other service carries the pid of a child. -/
theorem unique (inv : SvcInv s) {pid : ℤ} {child : Child ι} (inTable : child ∈ s.children pid)
    (owner : child.owner = some x) : ∀ y ∈ s.svcList, (s.objects y).pid = pid → y = x := by
  obtain ⟨member, -, carries⟩ := inv.alive.owned pid child inTable x owner
  intro y memberY carriesY
  refine inv.alive.distinct y memberY x member (carriesY.trans carries.symm) ?_
  exact carriesY ▸ (inv.alive.positive pid child inTable).ne'

end SvcInv

/-! ## Steps -/

/-- The fork of a step, if there is one, does not give a pid that another service carries. -/
def ForkFresh (s : Daemon ι) : SvcEvent ι → Prop
  | .run x fork _ => PidFresh s x fork
  | _ => True

/-- `svc_by_name`: the service with the name, none, or a new one. -/
theorem svcByName_spec (shows : Shows s v) (orderly : Orderly v) (name : Bytes) (create : Bool) (mem : Option ι) :
    Ends (svcByName name create mem) s fun found s' =>
      (∃ x ∈ v.svcList, (v.objects x).name = name ∧ found = some x ∧ s' = s) ∨
        (∀ x ∈ v.svcList, (v.objects x).name ≠ name) ∧
          ((found = none ∧ s' = s ∧ (create = true → svcCheckName name = true → ∀ x ∈ mem, x ∈ v.svcList)) ∨
            ∃ x, create = true ∧ svcCheckName name = true ∧ mem = some x ∧ x ∉ v.svcList ∧ found = some x ∧
              Shows s' (v.create x name)) := by
  simp only [svcByName, ends_bind, ends_get, ends_onByName]
  refine (shows.indexed.names.find strsegCmp_preorder (fun _ inside => inside) (by simp [Daemon.treeFuel]) name).mono ?_
  rintro result _ ⟨rfl, found, missing⟩
  rw [shows.svcList, shows.objects] at found missing
  cases object : result.object? with
  | some x =>
    obtain ⟨member, equal⟩ := found x object
    exact (ends_pure _).mpr (.inl ⟨x, member, (strsegCmp_eq_zero.mp equal).symm, rfl, rfl⟩)
  | none =>
    have unknown : ∀ x ∈ v.svcList, (v.objects x).name ≠ name := fun x member named =>
      missing object x member (strsegCmp_eq_zero.mpr named.symm)
    simp only [ends_ite, ends_pure]
    split
    · next allowed =>
      rw [Bool.and_eq_true] at allowed
      cases mem with
      | none => exact (ends_pure _).mpr (.inr ⟨unknown, .inl ⟨rfl, rfl, fun _ _ => by rintro _ ⟨⟩⟩⟩)
      | some x =>
        simp only [svcNew, ends_bind, ends_get, ends_ite, ends_pure]
        split
        · next inside =>
          rw [shows.svcList] at inside
          refine .inr ⟨unknown, .inl ⟨trivial, trivial, fun _ _ y same => ?_⟩⟩
          exact Option.some.inj same ▸ inside
        · next absent =>
          rw [shows.svcList] at absent
          rw [ends_modify]
          refine (shows.ctor absent ?_ ?_ name).mono fun _ s' created =>
            .inr ⟨unknown, .inr ⟨x, allowed.1, allowed.2, rfl, absent, rfl, created⟩⟩
          · exact fun listed => absent ((orderly.active x).mp listed).1
          · exact fun listed => absent ((orderly.sigwake x).mp listed).1
    · next refused =>
      refine .inr ⟨unknown, .inl ⟨trivial, trivial, fun allowed valid => absurd ?_ refused⟩⟩
      rw [allowed, valid]
      rfl

/-- `svc_by_name` with permission to create. -/
theorem Shows.byNameCreate (shows : Shows s v) (orderly : Orderly v) (name : Bytes) (mem : Option ι) :
    Ends (svcByName name true mem) s fun found s' =>
      (Shows s' v ∧ ∀ x ∈ found, x ∈ v.svcList ∧ (v.objects x).name = name) ∨ ∃ x, found = some x ∧ x ∉ v.svcList ∧ Shows s' (v.create x name) := by
  refine (svcByName_spec shows orderly name true mem).mono ?_
  rintro _ _ (⟨x, member, named, rfl, rfl⟩ | ⟨-, ⟨rfl, rfl, -⟩ | ⟨x, -, -, -, absent, rfl, created⟩⟩)
  · exact .inl ⟨shows, fun y same => Option.some.inj same ▸ ⟨member, named⟩⟩
  · exact .inl ⟨shows, nofun⟩
  · exact .inr ⟨x, rfl, absent, created⟩

/-- A service gets another interval, if one is given. -/
def View.setInterval (v : View ι) (x : ι) : Option ℤ → View ι
  | none => v
  | some interval => v.setSvc x { v.objects x with restartInterval := interval }

theorem Orderly.setInterval (orderly : Orderly v) (x : ι) (interval : Option ℤ) : Orderly (v.setInterval x interval) := by
  cases interval with
  | none => exact orderly
  | some interval => exact orderly.keep _ rfl rfl

theorem View.setInterval_svcList (v : View ι) (x : ι) (interval : Option ℤ) :
    (v.setInterval x interval).svcList = v.svcList := by
  cases interval <;> rfl

/-- What a step can do to the view. -/
inductive SvcMove (s : Daemon ι) (v : View ι) : SvcEvent ι → View ι → Prop
  | same {event : SvcEvent ι} : SvcMove s v event v
  | create {name : Bytes} {mem : Option ι} {x : ι} (absent : x ∉ v.svcList) : SvcMove s v (.create name mem) (v.create x name)
  | autoUp {name : Bytes} {interval : Option ℤ} {autostart : Bool} {signals : ℤ → Bool} {enableSigs triggered : Bool} {x : ι}
      (member : x ∈ v.svcList) : SvcMove s v (.autoUp name interval autostart signals enableSigs triggered)
        ((v.setInterval x interval).applyTriggers x autostart signals enableSigs triggered)
  | start {name : Bytes} {when : ℤ} {x : ι} (member : x ∈ v.svcList) : SvcMove s v (.start name when) (v.handleStart x when)
  | cancel {name : Bytes} {x : ι} (member : x ∈ v.svcList) : SvcMove s v (.cancel name) (v.cancelStart x)
  | delete {name : Bytes} {x : ι} (member : x ∈ v.svcList) (nodup : v.svcList.Nodup) (idle : (v.objects x).pid ≤ 0) :
      SvcMove s v (.delete name) (v.delete x)
  | clock {now : ℤ} : SvcMove s v (.clock now) { v with now }
  | wake {x : ι} (member : x ∈ v.svcList) : SvcMove s v (.wakeBySignal x) (v.handleStart x v.now)
  | run {x : ι} {fork : Option ℤ} {triggered : Bool} (member : x ∈ v.svcList) :
      SvcMove s v (.run x fork triggered) (v.run x fork triggered)
  | adopt {pid : ℤ} (free : v.children pid = none) (positive : 0 < pid) :
      SvcMove s v (.adopt pid) { v with children := Function.update v.children pid (some (.running none)) }
  | exit {pid wstat : ℤ} : SvcMove s v (.exit pid wstat)
      { v with children := Function.update v.children pid (endProcess wstat (v.children pid)) }
  | unknown {pid wstat : ℤ} {owner : Option ι} (entry : v.children pid = some (.zombie owner wstat))
      (missing : ∀ x ∈ v.svcList, (v.objects x).pid ≠ 0 → (v.objects x).pid ≠ pid) : SvcMove s v (.reap pid) (v.forget pid)
  | reaped {pid wstat : ℤ} {owner : Option ι} {x : ι} (entry : v.children pid = some (.zombie owner wstat))
      (member : x ∈ v.svcList) (carries : (v.objects x).pid = pid)
      (found : ((svcByPid pid).run s).map Prod.fst = some (some x)) :
      SvcMove s v (.reap pid) ((v.forget pid).handleReaped x wstat)

/-- A step leaves the lists in order and changes the view as it may. -/
def SvcMoved (s : Daemon ι) (v : View ι) (event : SvcEvent ι) (s' : Daemon ι) : Prop :=
  ∃ v', Shows s' v' ∧ Orderly v' ∧ SvcMove s v event v'

theorem withService_moves {event : SvcEvent ι} (shows : Shows s v) (orderly : Orderly v) (name : Bytes)
    {command : ι → SvcM ι Unit} (moves : ∀ x ∈ v.svcList, Ends (command x) s fun _ => SvcMoved s v event) :
    Ends (withService name command) s fun _ => SvcMoved s v event := by
  simp only [withService, ends_bind]
  refine (svcByName_existing shows.indexed name none).mono ?_
  rintro (_ | x) _ ⟨rfl, found⟩
  · exact (ends_pure _).mpr ⟨v, shows, orderly, .same⟩
  · exact moves x (shows.svcList ▸ (found x rfl).1)

theorem svcProgram_moves (shows : Shows s v) (orderly : Orderly v) (event : SvcEvent ι) :
    Ends (svcProgram event) s fun _ => SvcMoved s v event := by
  have unmoved : SvcMoved s v event s := ⟨v, shows, orderly, .same⟩
  cases event with
  | create name mem =>
    simp only [svcProgram, ends_ite, ends_bind, ends_pure]
    split
    · refine (shows.byNameCreate orderly name mem).mono fun _ s' after => ?_
      rcases after with ⟨same, -⟩ | ⟨x, -, absent, created⟩
      · exact ⟨v, same, orderly, .same⟩
      · exact ⟨_, created, orderly.create absent name, .create absent⟩
    · exact unmoved
  | autoUp name interval autostart signals enableSigs triggered =>
    refine withService_moves shows orderly name fun x member => ?_
    have memberSet : x ∈ (v.setInterval x interval).svcList := (View.setInterval_svcList v x interval).symm ▸ member
    have moved : ∀ {s₁}, Shows s₁ (v.setInterval x interval) →
        Ends (svcApplyTriggers x autostart signals enableSigs triggered) s₁ fun _ =>
          SvcMoved s v (.autoUp name interval autostart signals enableSigs triggered) := fun set =>
      (set.applyTriggers memberSet autostart signals enableSigs triggered).mono fun _ s' after =>
        ⟨_, after, (orderly.setInterval x interval).applyTriggers memberSet autostart signals enableSigs triggered,
          .autoUp member⟩
    cases interval with
    | none => exact moved shows
    | some interval =>
      simp only [ends_bind, ends_updateSvc, shows.objects]
      exact moved (shows.update x { v.objects x with restartInterval := interval } rfl rfl)
  | start name when =>
    refine withService_moves shows orderly name fun x member => ?_
    simp only [ends_bind, ends_pure]
    exact (shows.handleStart member when).mono fun _ s' after => ⟨_, after.1, orderly.handleStart member when, .start member⟩
  | cancel name =>
    refine withService_moves shows orderly name fun x member => ?_
    simp only [ends_bind, ends_pure]
    exact shows.cancelStart.mono fun _ s' after => ⟨_, after, orderly.cancelStart member, .cancel member⟩
  | delete name =>
    refine withService_moves shows orderly name fun x member => ?_
    simp only [ends_bind, ends_svcAt, ends_ite, ends_pure]
    split
    · exact unmoved
    · next notPositive =>
      have nodup := shows.indexed.nodup
      rw [shows.svcList] at nodup
      rw [shows.objects] at notPositive
      exact (shows.delete member).mono fun _ s' after =>
        ⟨_, after, orderly.delete nodup member, .delete member nodup (not_lt.mp notPositive)⟩
  | clock now =>
    simp only [svcProgram, ends_modify]
    exact ⟨_, (shows.setNow now).setNext _, orderly.congr rfl rfl rfl rfl, .clock⟩
  | wakeBySignal x =>
    simp only [svcProgram, ends_bind, ends_get, ends_ite, ends_pure]
    split
    · next listed =>
      have member := ((orderly.sigwake x).mp (shows.sigwake.mem_iff.mp listed)).1
      refine (shows.handleStart member s.now).mono fun _ s' after => ⟨_, after.1, orderly.handleStart member s.now, ?_⟩
      rw [shows.now]
      exact .wake member
    · exact unmoved
  | run x fork triggered =>
    simp only [svcProgram, ends_bind, ends_get, ends_ite, ends_pure]
    split
    · next listed =>
      have member := ((orderly.active x).mp (shows.active.mem_iff.mp listed)).1
      exact (shows.run member (orderly.known x member)).mono fun _ s' after =>
        ⟨_, after, orderly.run member fork triggered, .run member⟩
    · exact unmoved
  | adopt pid =>
    simp only [svcProgram, ends_modify]
    split
    · next pid' given =>
      obtain ⟨rfl, positive, free⟩ : pid = pid' ∧ 0 < pid' ∧ s.children pid' = none := by
        simpa [Daemon.newPid, Option.filter_eq_some_iff] using given
      refine ⟨_, shows.setChildren _, orderly.congr rfl rfl rfl rfl, ?_⟩
      rw [shows.children] at free ⊢
      exact .adopt free positive
    · exact unmoved
  | exit pid wstat =>
    simp only [svcProgram, ends_modify]
    refine ⟨_, shows.setChildren _, orderly.congr rfl rfl rfl rfl, ?_⟩
    rw [shows.children]
    exact .exit
  | reap pid =>
    have forgotten : Orderly (v.forget pid) := orderly.congr rfl rfl rfl rfl
    refine (shows.mainReap pid).mono fun _ s' after => ?_
    rcases after with ⟨-, same⟩ | ⟨owner, wstat, entry, ⟨after, missing⟩ | ⟨x, member, carries, found, after⟩⟩
    · exact ⟨v, same, orderly, .same⟩
    · exact ⟨_, after, forgotten, .unknown entry missing⟩
    · exact ⟨_, after, forgotten.handleReaped member wstat, .reaped entry member carries found⟩

/-- A step ends, and changes the view as it may. -/
theorem svcStep_moves (shows : Shows s v) (orderly : Orderly v) (event : SvcEvent ι) :
    ∃ s', svcStep s event = some s' ∧ SvcMoved s v event s' := by
  obtain ⟨_, s', run, moved⟩ := svcProgram_moves shows orderly event
  exact ⟨s', by rw [svcStep, run, Option.map_some], moved⟩

/-- The child of a service is reaped, and the service with it. -/
theorem ViewInv.handleReaped {pid wstat : ℤ} (inv : ViewInv v) (zombie : v.children pid = some (.zombie (some x) wstat)) :
    ViewInv ((v.forget pid).handleReaped x wstat) := by
  obtain ⟨member, isUp, -⟩ := inv.alive.owned pid _ zombie x rfl
  have forgotten : Orderly (v.forget pid) := inv.orderly.congr rfl rfl rfl rfl
  refine ⟨forgotten.handleReaped member wstat, ?_⟩
  have isUp' : ((v.forget pid).objects x).state = .up := isUp
  rw [View.handleReaped, if_pos isUp']
  exact inv.alive.reap zombie rfl rfl rfl

/-- A move with a fresh fork keeps the invariant. -/
theorem ViewInv.move {event : SvcEvent ι} {v' : View ι} (shows : Shows s v) (inv : ViewInv v) (move : SvcMove s v event v')
    (orderly : Orderly v') (fresh : ForkFresh s event) : ViewInv v' := by
  cases move with
  | same => exact inv
  | create absent => exact inv.create absent _
  | @autoUp name interval autostart signals enableSigs triggered x member =>
    have set : ViewInv (v.setInterval x interval) := by
      refine ⟨inv.orderly.setInterval x interval, ?_⟩
      cases interval with
      | none => exact inv.alive
      | some interval => exact inv.alive.keep rfl rfl
    exact set.applyTriggers ((View.setInterval_svcList v x interval).symm ▸ member) ..
  | start member => exact inv.handleStart member _
  | cancel member => exact inv.cancelStart member
  | delete member nodup idle =>
    exact inv.delete nodup member (le_antisymm idle (inv.alive.services _ member).nonneg)
  | clock => exact ⟨orderly, inv.alive⟩
  | wake member => exact inv.handleStart member _
  | run member =>
    rw [ForkFresh, PidFresh, shows.svcList, shows.objects] at fresh
    exact inv.run member fresh _
  | adopt free positive => exact ⟨orderly, inv.alive.adopt free positive⟩
  | exit => exact ⟨orderly, inv.alive.exit _⟩
  | @unknown pid wstat owner entry missing =>
    cases owner with
    | none => exact ⟨orderly, inv.alive.reap_orphan entry rfl⟩
    | some x =>
      obtain ⟨member, -, carries⟩ := inv.alive.owned pid _ entry x rfl
      exact absurd carries (missing x member (carries ▸ (inv.alive.positive pid _ entry).ne'))
  | @reaped pid wstat owner x entry member carries found =>
    cases owner with
    | some y =>
      obtain ⟨memberY, -, carriesY⟩ := inv.alive.owned pid _ entry y rfl
      have nonzero : (v.objects x).pid ≠ 0 := carries ▸ (inv.alive.positive pid _ entry).ne'
      obtain rfl : x = y := inv.alive.distinct x member y memberY (carries.trans carriesY.symm) nonzero
      exact inv.handleReaped entry
    | none =>
      -- The service is not up: otherwise the child would be its own.
      have notUp : ((v.forget pid).objects x).state ≠ .up := by
        intro isUp
        obtain ⟨child, inTable, own⟩ := (inv.alive.services x member).up isUp
        rw [carries, entry] at inTable
        cases inTable
        exact nomatch own
      refine ⟨orderly, ?_⟩
      rw [View.handleReaped, if_neg notUp]
      exact inv.alive.reap_orphan entry rfl

/-- The view of the daemon before anything happens. -/
def View.init : View ι := ⟨[], fun _ => .zero, [], [], 0, [], fun _ => none⟩

theorem shows_init : Shows (Daemon.init : Daemon ι) .init := by
  -- both indexes start as the same tree
  have empty : ∀ {κ : Type} (cmp : κ → κ → ℤ) (key : ι → κ) (members : ι → Prop), (∀ x, ¬members x) →
      IndexHolds cmp key (Daemon.init : Daemon ι).byName members := by
    intro κ cmp key members none
    exact (IndexHolds.init ⟨rfl, rfl, rfl⟩ fun _ => rfl).congr (fun x => (iff_false_intro (none x)).symm) fun _ _ => rfl
  have indexed : Indexed (Daemon.init : Daemon ι) :=
    ⟨List.nodup_nil, empty _ _ _ (by rintro _ ⟨⟩), empty _ _ _ fun _ inside => by cases inside.1⟩
  exact ⟨indexed, Links.represents_empty, Links.represents_empty, rfl, rfl, rfl, rfl, rfl⟩

omit [DecidableEq ι] in
theorem orderly_init : Orderly (.init : View ι) := by
  refine ⟨nofun, fun x => ?_, fun x => ?_⟩
  · exact iff_of_false nofun fun inside => nomatch inside.1
  · exact iff_of_false nofun fun inside => nomatch inside.1

end DaemonProxy.Proofs
