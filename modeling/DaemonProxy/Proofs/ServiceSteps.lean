import DaemonProxy.Proofs.ServiceProcess

/-! # What the service functions do

`View` is the daemon without its indexes and with the two linked lists as lists. `Shows s v` says that the state `s`, with
all its pointers in order, is seen as `v`. Each function has one lemma that gives the view after it, whatever the kernel
does.
-/

namespace DaemonProxy.Proofs

open Lib Model

variable {ι : Type} {s : Daemon ι} {x : ι} {svc : Service}

section Rules

variable {α : Type}

@[simp] theorem ends_svcAt {post : Service → Daemon ι → Prop} : Ends (svcAt x) s post ↔ post (s.objects x) s := by
  simp only [svcAt, ends_bind, ends_get, ends_pure]

@[simp] theorem ends_updateSvc [DecidableEq ι] {f : Service → Service} {post : Unit → Daemon ι → Prop} :
    Ends (updateSvc x f) s post ↔ post () (s.setSvc x (f (s.objects x))) := ends_modify

@[simp] theorem ends_onByName {m : ℕ → TreeM ι α} {post : α → Daemon ι → Prop} :
    Ends (onByName m) s post ↔ Ends (m s.treeFuel) s.byName fun a h => post a { s with byName := h } := by
  simp only [onByName, ends_bind, ends_get, ends_zoom]

@[simp] theorem ends_onByPid {m : ℕ → TreeM ι α} {post : α → Daemon ι → Prop} :
    Ends (onByPid m) s post ↔ Ends (m s.treeFuel) s.byPid fun a h => post a { s with byPid := h } := by
  simp only [onByPid, ends_bind, ends_get, ends_zoom]

@[simp] theorem ends_svcSetActive [DecidableEq ι] {activate : Bool} {post : Unit → Daemon ι → Prop} :
    Ends (svcSetActive x activate) s post ↔ post () { s with activeList := s.activeList.set x activate } :=
  ends_modify

@[simp] theorem ends_record {entry : SvcRecord ι} {post : Unit → Daemon ι → Prop} :
    Ends (record entry) s post ↔ post () { s with history := s.history ++ [entry] } := ends_modify

end Rules

/-- The vector and the indexes hold what they should. -/
structure Indexed (s : Daemon ι) : Prop where
  nodup : s.svcList.Nodup
  names : IndexHolds strsegCmp (fun x => (s.objects x).name) s.byName (· ∈ s.svcList)
  pids : IndexHolds comparePid (fun x => (s.objects x).pid) s.byPid fun x => x ∈ s.svcList ∧ (s.objects x).pid ≠ 0

/-! ## Views -/

/-- The daemon without its indexes. -/
structure View (ι : Type) where
  svcList : List ι
  objects : ι → Service
  active : List ι
  sigwake : List ι
  now : ℤ
  history : List (SvcRecord ι)
  children : ℤ → Option (Child ι)

/-- The start time that `svc_handle_start` stores. -/
def startTimeFor (when now : ℤ) : ℤ :=
  if (if tsAfter when now then when else now) = 0 then 1 else if tsAfter when now then when else now

/-- A service that waits for its start. -/
def Service.started (svc : Service) (startTime : ℤ) : Service :=
  { svc with state := .start, startTime, pid := 0, reapTime := 0, waitStatus := -1 }

/-- The states in which `svc_handle_start` accepts. -/
def Startable (svc : Service) : Prop := svc.state = .down ∨ svc.state = .start

instance (svc : Service) : Decidable (Startable svc) := inferInstanceAs (Decidable (_ ∨ _))

def noticeOf (svc : Service) : SvcNotice := ⟨svc.name, svc.startTime, svc.reapTime, svc.waitStatus, svc.pid⟩

namespace View

def record (v : View ι) (entry : SvcRecord ι) : View ι := { v with history := v.history ++ [entry] }

/-- `svc_notify_state`. -/
def report (v : View ι) (x : ι) : View ι := v.record (.reported x (v.objects x).state v.now (noticeOf (v.objects x)))

variable [DecidableEq ι]

def setSvc (v : View ι) (x : ι) (svc : Service) : View ι := { v with objects := Function.update v.objects x svc }

def setActive (v : View ι) (x : ι) (activate : Bool) : View ι :=
  { v with active := Links.setListed x activate v.active }

def setSigwake (v : View ι) (x : ι) (sigwake : Bool) : View ι :=
  { v.setSvc x { v.objects x with sigwake } with sigwake := Links.setListed x sigwake v.sigwake }

/-- `svc_handle_start` of a service that accepts it. -/
def start (v : View ι) (x : ι) (when : ℤ) : View ι :=
  (((v.setSvc x (Service.started (v.objects x) (startTimeFor when v.now))).record (.started x)).setActive x true).report x

/-- `svc_handle_start`. -/
def handleStart (v : View ι) (x : ι) (when : ℤ) : View ι := if Startable (v.objects x) then v.start x when else v

/-- `svc_cancel_start`. -/
def cancelStart (v : View ι) (x : ι) : View ι :=
  if (v.objects x).state = .start then
    ((v.setSvc x { v.objects x with state := .down, startTime := 0 }).setActive x false).report x
  else v

/-- `svc_handle_reaped`. -/
def handleReaped (v : View ι) (x : ι) (wstat : ℤ) : View ι :=
  if (v.objects x).state = .up then
    ((v.setSvc x { v.objects x with waitStatus := wstat, state := .reaped, reapTime := v.now }).record
      (.reaped x)).setActive x true
  else v

/-- The end of `svc_set_triggers`. -/
def applyTriggers (v : View ι) (x : ι) (autostart : Bool) (signals : ℤ → Bool) (enableSigs triggered : Bool) : View ι :=
  let v := (v.setSvc x { v.objects x with autoRestart := autostart, autostartSignals := signals }).setSigwake x enableSigs
  if autostart || triggered then v.handleStart x v.now else v

end View

/-- The state is in order and seen as `v`. -/
structure Shows (s : Daemon ι) (v : View ι) : Prop where
  indexed : Indexed s
  active : s.activeList.Represents v.active
  sigwake : s.sigwakeList.Represents v.sigwake
  svcList : s.svcList = v.svcList
  objects : s.objects = v.objects
  now : s.now = v.now
  history : s.history = v.history
  children : s.children = v.children

namespace Shows

variable {v : View ι}

theorem setNext (shows : Shows s v) (next : ℤ) : Shows { s with next } v :=
  ⟨⟨shows.indexed.1, shows.indexed.2, shows.indexed.3⟩, shows.active, shows.sigwake, shows.svcList, shows.objects,
    shows.now, shows.history, shows.children⟩

theorem setChildren (shows : Shows s v) (children : ℤ → Option (Child ι)) :
    Shows { s with children } { v with children } :=
  ⟨⟨shows.indexed.1, shows.indexed.2, shows.indexed.3⟩, shows.active, shows.sigwake, shows.svcList, shows.objects,
    shows.now, shows.history, rfl⟩

theorem setNow (shows : Shows s v) (now : ℤ) : Shows { s with now } { v with now } :=
  ⟨⟨shows.indexed.1, shows.indexed.2, shows.indexed.3⟩, shows.active, shows.sigwake, shows.svcList, shows.objects,
    rfl, shows.history, shows.children⟩

theorem record (shows : Shows s v) (entry : SvcRecord ι) :
    Shows { s with history := s.history ++ [entry] } (v.record entry) :=
  ⟨⟨shows.indexed.1, shows.indexed.2, shows.indexed.3⟩, shows.active, shows.sigwake, shows.svcList, shows.objects,
    shows.now, congrArg (· ++ [entry]) shows.history, shows.children⟩

theorem notify (shows : Shows s v) : Ends (svcNotifyState x) s fun _ s' => Shows s' (v.report x) := by
  simp only [svcNotifyState, ends_bind, ends_svcAt, ends_get, ends_record]
  rw [View.report, ← shows.objects, ← shows.now]
  exact shows.record _

variable [DecidableEq ι]

theorem setActive (shows : Shows s v) (activate : Bool) :
    Shows { s with activeList := s.activeList.set x activate } (v.setActive x activate) :=
  ⟨⟨shows.indexed.1, shows.indexed.2, shows.indexed.3⟩, shows.active.set x activate, shows.sigwake, shows.svcList,
    shows.objects, shows.now, shows.history, shows.children⟩

/-- Fields that are no keys are changed. -/
theorem update (shows : Shows s v) (x : ι) (svc : Service) (name : svc.name = (v.objects x).name)
    (pid : svc.pid = (v.objects x).pid) : Shows (s.setSvc x svc) (v.setSvc x svc) := by
  rw [← shows.objects] at name pid
  have keys : ∀ y, (Function.update s.objects x svc y).name = (s.objects y).name ∧
      (Function.update s.objects x svc y).pid = (s.objects y).pid := by
    intro y
    by_cases same : y = x
    · rw [same, Function.update_self]
      exact ⟨name, pid⟩
    · rw [Function.update_of_ne same]
      exact ⟨rfl, rfl⟩
  obtain ⟨nodup, names, pids⟩ := shows.indexed
  refine ⟨⟨nodup, names.congr (fun _ => .rfl) fun y _ => (keys y).1, pids.congr ?_ fun y _ => (keys y).2⟩, shows.active,
    shows.sigwake, shows.svcList, ?_, shows.now, shows.history, shows.children⟩
  · intro y
    rw [Daemon.setSvc, (keys y).2]
  · rw [Daemon.setSvc, View.setSvc, shows.objects]

theorem setSigwake (shows : Shows s v) (sigwake : Bool) :
    Ends (svcSetSigwake x sigwake) s fun _ s' => Shows s' (v.setSigwake x sigwake) := by
  simp only [svcSetSigwake, ends_bind, ends_updateSvc, ends_modify, shows.objects]
  have updated := shows.update x { v.objects x with sigwake } rfl rfl
  exact ⟨⟨updated.indexed.1, updated.indexed.2, updated.indexed.3⟩, updated.active, shows.sigwake.set x sigwake,
    updated.svcList, updated.objects, updated.now, updated.history, updated.children⟩

end Shows

variable [DecidableEq ι] {v : View ι}

/-- Taking a service out of the index of pids. -/
theorem prunePid_spec (indexed : Indexed s) (member : x ∈ s.svcList) :
    Ends (prunePid x) s fun _ s' => ∃ h, s' = { s with byPid := h } ∧
      IndexHolds comparePid (fun y => (s.objects y).pid) h fun y =>
        y ≠ x ∧ y ∈ s.svcList ∧ (s.objects y).pid ≠ 0 := by
  simp only [prunePid, ends_bind, ends_svcAt, ends_ite, ends_onByPid, ends_pure]
  split
  · next nonzero =>
    refine (indexed.pids.prune ⟨member, nonzero⟩ (fun y inside => inside.1)
      (by simp [Daemon.treeFuel])).mono fun _ h holds => ⟨h, rfl, holds⟩
  · next zero =>
    refine ⟨s.byPid, rfl, indexed.pids.congr (fun y => ?_) fun _ _ => rfl⟩
    refine ⟨fun inside => ⟨?_, inside⟩, And.right⟩
    rintro rfl
    exact inside.2 (not_not.mp zero)

theorem Shows.changePid (shows : Shows s v) (member : x ∈ v.svcList) (pid : ℤ) :
    Ends (svcChangePid x pid) s fun _ s' => Shows s' (v.setSvc x { v.objects x with pid }) := by
  have inList : x ∈ s.svcList := shows.svcList ▸ member
  simp only [svcChangePid, ends_bind]
  refine (prunePid_spec shows.indexed inList).mono ?_
  rintro _ _ ⟨h, rfl, pruned⟩
  have here : s.objects x = v.objects x := by rw [shows.objects]
  have names : IndexHolds strsegCmp (fun y => (Function.update s.objects x { v.objects x with pid } y).name) s.byName
      (· ∈ s.svcList) := by
    refine shows.indexed.names.congr (fun _ => .rfl) fun y _ => ?_
    by_cases same : y = x
    · rw [same, Function.update_self, here]
    · rw [Function.update_of_ne same]
  -- The other services keep their keys.
  have others : IndexHolds comparePid (fun y => (Function.update s.objects x { v.objects x with pid } y).pid) h fun y =>
      y ≠ x ∧ y ∈ s.svcList ∧ (Function.update s.objects x { v.objects x with pid } y).pid ≠ 0 := by
    refine pruned.congr (fun y => and_congr_right fun other => ?_) fun y inside => ?_
    · rw [Function.update_of_ne other]
    · rw [Function.update_of_ne inside.1]
  have final : ∀ h', IndexHolds comparePid (fun y => (Function.update s.objects x { v.objects x with pid } y).pid) h'
      (fun y => y ∈ s.svcList ∧ (Function.update s.objects x { v.objects x with pid } y).pid ≠ 0) →
      Shows { s with objects := Function.update s.objects x { v.objects x with pid }, byPid := h' }
        (v.setSvc x { v.objects x with pid }) := by
    intro h' pids
    refine ⟨⟨shows.indexed.nodup, names, pids⟩, shows.active, shows.sigwake, shows.svcList, ?_, shows.now, shows.history,
      shows.children⟩
    rw [View.setSvc, shows.objects]
  simp only [ends_updateSvc, ends_ite, ends_bind, ends_onByPid, ends_get, ends_pure, rbTreeNodeInit, ends_setColor,
    ne_eq, reduceCtorEq, not_false_eq_true, true_and, here]
  split
  · next nonzero =>
    have initialised := others.write (x := x) (f := (·.setColor .unassigned)) (fun inside => inside.1 rfl) fun _ => rfl
    refine (initialised.add comparePid_preorder (fun inside => inside.1 rfl) (fun y inside => inside.2.1) ?_ ?_).mono
      fun _ h' added => final h' ?_
    · simp [Daemon.treeFuel, Daemon.setSvc]
    · rw [Function.update_self]
    · refine added.congr (fun y => ?_) fun _ _ => rfl
      by_cases same : y = x
      · simp [same, nonzero, inList]
      · simp [same]
  · next zero =>
    refine final h (others.congr (fun y => ?_) fun _ _ => rfl)
    refine ⟨And.right, fun inside => ⟨?_, inside⟩⟩
    rintro rfl
    rw [Function.update_self] at inside
    exact inside.2 (not_not.mp zero)

/-! ## The state machine of a service -/

theorem View.setSvc_setSvc (v : View ι) (x : ι) (first second : Service) :
    (v.setSvc x first).setSvc x second = v.setSvc x second := by
  rw [View.setSvc, View.setSvc, Function.update_idem]
  rfl

theorem View.setSvc_apply (v : View ι) (x : ι) (svc : Service) (y : ι) :
    (v.setSvc x svc).objects y = if y = x then svc else v.objects y := Function.update_apply ..

theorem View.setSvc_objects (v : View ι) (x : ι) (svc : Service) : (v.setSvc x svc).objects x = svc :=
  Function.update_self ..

theorem Shows.handleStart (shows : Shows s v) (member : x ∈ v.svcList) (when : ℤ) :
    Ends (svcHandleStart x when) s fun accepted s' =>
      Shows s' (v.handleStart x when) ∧ accepted = decide (Startable (v.objects x)) := by
  simp only [svcHandleStart, ends_bind, ends_svcAt, ends_ite, ends_pure, ends_get, ends_updateSvc, shows.objects, shows.now]
  by_cases startable : Startable (v.objects x)
  · rw [if_neg (by rcases startable with down | start <;> simp [*]), View.handleStart, if_pos startable]
    have placed := shows.update x { v.objects x with state := .start, startTime := startTimeFor when v.now } rfl rfl
    refine (placed.changePid member 0).mono fun _ s₁ shows₁ => ?_
    rw [View.setSvc_setSvc, View.setSvc_objects] at shows₁
    have started := shows₁.update x (Service.started (v.objects x) (startTimeFor when v.now))
      (by rw [View.setSvc_objects]; rfl) (by rw [View.setSvc_objects]; rfl)
    rw [View.setSvc_setSvc] at started
    simp only [shows₁.objects, View.setSvc_objects, ends_record, ends_svcSetActive]
    refine ((started.record (.started x)).setActive true).notify.mono fun _ s₂ shows₂ => ?_
    rw [ends_modify]
    exact ⟨shows₂.setNext _, (decide_eq_true startable).symm⟩
  · rw [if_pos (by simpa [Startable, not_or] using startable), View.handleStart, if_neg startable]
    exact ⟨shows, (decide_eq_false startable).symm⟩

theorem Shows.cancelStart (shows : Shows s v) : Ends (svcCancelStart x) s fun _ s' => Shows s' (v.cancelStart x) := by
  simp only [svcCancelStart, ends_bind, ends_svcAt, ends_ite, ends_pure, ends_updateSvc, ends_svcSetActive, shows.objects]
  by_cases start : (v.objects x).state = .start
  · rw [if_neg (not_not.mpr start), View.cancelStart, if_pos start]
    have down := shows.update x { v.objects x with state := .down, startTime := 0 } rfl rfl
    exact (down.setActive false).notify
  · rw [if_pos start, View.cancelStart, if_neg start]
    exact shows

theorem Shows.handleReaped (shows : Shows s v) (wstat : ℤ) :
    Ends (svcHandleReaped x wstat) s fun _ s' => Shows s' (v.handleReaped x wstat) := by
  simp only [svcHandleReaped, ends_bind, ends_svcAt, ends_ite, ends_pure, ends_get, ends_updateSvc, ends_record,
    ends_svcSetActive, ends_modify, shows.objects, shows.now]
  split
  · next isUp =>
    rw [View.handleReaped, if_pos isUp]
    have reaped := shows.update x { v.objects x with waitStatus := wstat, state := .reaped, reapTime := v.now } rfl rfl
    exact ((reaped.record (.reaped x)).setActive true).setNext _
  · next notUp =>
    rw [View.handleReaped, if_neg notUp]
    exact shows

theorem Shows.applyTriggers (shows : Shows s v) (member : x ∈ v.svcList) (autostart : Bool) (signals : ℤ → Bool)
    (enableSigs triggered : Bool) :
    Ends (svcApplyTriggers x autostart signals enableSigs triggered) s fun _ s' =>
      Shows s' (v.applyTriggers x autostart signals enableSigs triggered) := by
  simp only [svcApplyTriggers, ends_bind, ends_updateSvc, shows.objects]
  have set := shows.update x { v.objects x with autoRestart := autostart, autostartSignals := signals } rfl rfl
  refine (set.setSigwake enableSigs).mono fun _ s₁ shows₁ => ?_
  simp only [ends_ite, ends_bind, ends_get, ends_pure, View.applyTriggers]
  split
  · rw [shows₁.now]
    exact (shows₁.handleStart member _).mono fun _ _ started => started.1
  · exact shows₁

end DaemonProxy.Proofs
