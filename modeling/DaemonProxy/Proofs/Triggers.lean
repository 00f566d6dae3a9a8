import DaemonProxy.Proofs.ServiceLoop
import DaemonProxy.Proofs.SignalOrder

/-! # No trigger is lost

A service that is down has no trigger that could have started it, except for signals that `svc_run_active` has not yet seen.
Each step of the main loop keeps this, provided that the timestamps of signals increase, that `signal.clear` takes counts
off, and that no pending start is cancelled.
-/

namespace DaemonProxy.Proofs

open Lib Model

variable {ι : Type} [DecidableEq ι] {s s' : Supervisor ι} {v v' : View ι} {x : ι} {sigList : List SigListItem}

/-! ## What a run of a service leaves alone -/

/-- The triggers of a service. -/
def Service.triggers (svc : Service) : Bool × Bool × (ℤ → Bool) := (svc.autoRestart, svc.sigwake, svc.autostartSignals)

/-- The fields that only commands change. -/
def Service.settings (svc : Service) : (Bool × Bool × (ℤ → Bool)) × ℤ × Bytes :=
  (Service.triggers svc, svc.restartInterval, svc.name)

theorem Service.woken_settings (signals : List ℤ) (now : ℤ) (svc : Service) :
    Service.settings (Service.woken signals now svc) = Service.settings svc := by
  rw [Service.woken]
  split <;> rfl

theorem Service.attempted_settings (now : ℤ) (child : Option ℤ) (svc : Service) :
    Service.settings (Service.attempted now child svc) = Service.settings svc := by
  unfold Service.attempted
  split
  · rfl
  · cases child <;> rfl

theorem Service.ran_settings (now : ℤ) (child : Option ℤ) (triggered : Bool) (svc : Service) :
    Service.settings (Service.ran now child triggered svc) = Service.settings svc := by
  unfold Service.ran
  split
  · exact Service.attempted_settings ..
  · split
    · exact Service.attempted_settings ..
    · rfl
  · rfl

theorem View.runActive_settings {daemon : Daemon ι} (shows : Shows daemon v) (orderly : Orderly v) (signals : List ℤ)
    (check : Service → Bool) (fork : ι → Option ℤ) (member : x ∈ v.svcList) :
    Service.settings ((v.runActive signals check fork).objects x) = Service.settings (v.objects x) := by
  obtain ⟨-, -, child, -, objects⟩ := View.runActive_spec shows orderly signals check fork
  rw [objects x member, Service.ran_settings, Service.woken_settings]

variable {svc : Service}

theorem Service.attempted_state (now : ℤ) (child : Option ℤ) (start : svc.state = .start) :
    (Service.attempted now child svc).state ≠ .down := by
  unfold Service.attempted
  split
  · simp [start]
  · cases child <;> exact nofun

/-- A service is down after its run if it was down before, or was reaped and is not to be started again. -/
theorem Service.ran_down {now : ℤ} {child : Option ℤ} {triggered : Bool}
    (down : (Service.ran now child triggered svc).state = .down) :
    svc.state = .down ∨ svc.state = .reaped ∧ svc.autoRestart = false ∧ triggered = false := by
  unfold Service.ran at down
  split at down
  · next start => exact absurd down (Service.attempted_state now child start)
  · next reaped =>
    split at down
    · exact absurd down (Service.attempted_state now child rfl)
    · next stays => exact .inr ⟨reaped, by simpa using stays⟩
  · exact .inl down

theorem Service.woken_state {signals : List ℤ} {now : ℤ} {state : SvcState}
    (same : (Service.woken signals now svc).state = state) (other : state ≠ .start) :
    svc.state = state ∧ ¬(svc.sigwake = true ∧ Startable svc ∧ signals.any svc.autostartSignals = true) := by
  rw [Service.woken] at same
  split at same
  · exact absurd same.symm other
  · next asleep => exact ⟨same, asleep⟩

/-! ## The invariant -/

/-- A service has a trigger that is set off by a pending signal. -/
def Signalled (slots : List SigStatus) (svc : Service) : Prop :=
  ∃ slot ∈ slots, slot.numberPending ≠ 0 ∧ svc.autostartSignals slot.signum = true

/-- No service that a trigger should have started is down. -/
def TriggersServed (slots : List SigStatus) (v : View ι) : Prop :=
  ∀ x ∈ v.svcList, (v.objects x).autoRestart = true ∨ Signalled slots (v.objects x) → (v.objects x).state ≠ .down

/-- The settings of a service are consistent, and if it is down, only signals that came after `last` can start it. -/
structure Waiting (slots : List SigStatus) (last : ℤ) (svc : Service) : Prop where
  flagged : ∀ signum, svc.autostartSignals signum = true → svc.sigwake = true
  always : svc.autoRestart = true → svc.state ≠ .down
  signalled : svc.state = .down → ∀ slot ∈ slots, slot.numberPending ≠ 0 → svc.autostartSignals slot.signum = true →
    last < slot.lastReceivedTs

structure TriggerInv (s : Supervisor ι) (v : View ι) : Prop where
  chronicle : Chronicle s.sig s.svcLastSignalTs
  waiting : ∀ x ∈ v.svcList, Waiting s.sig.signals.slots s.svcLastSignalTs (v.objects x)

/-- A change of state that does not end in `DOWN`. -/
theorem Waiting.move {slots : List SigStatus} {last : ℤ} {svc' : Service} (waiting : Waiting slots last svc)
    (triggers : Service.triggers svc' = Service.triggers svc) (state : svc'.state = .down → svc.state = .down) :
    Waiting slots last svc' := by
  simp only [Service.triggers, Prod.mk.injEq] at triggers
  obtain ⟨auto, flag, signals⟩ := triggers
  refine ⟨?_, ?_, ?_⟩
  · rw [signals, flag]
    exact waiting.flagged
  · rw [auto]
    exact fun always down => waiting.always always (state down)
  · rw [signals]
    exact fun down => waiting.signalled (state down)

/-- The signals change, but nothing appears that is pending and old. -/
theorem Waiting.signals {slots slots' : List SigStatus} {last : ℤ} (waiting : Waiting slots last svc)
    (known : ∀ slot ∈ slots', slot.numberPending ≠ 0 → last < slot.lastReceivedTs ∨ ∃ old ∈ slots, old.numberPending ≠ 0 ∧
      old.signum = slot.signum ∧ old.lastReceivedTs = slot.lastReceivedTs) : Waiting slots' last svc := by
  refine ⟨waiting.flagged, waiting.always, fun down slot member pending wakes => ?_⟩
  rcases known slot member pending with new | ⟨old, present, oldPending, number, stamp⟩
  · exact new
  · exact stamp ▸ waiting.signalled down old present oldPending (number ▸ wakes)

namespace TriggerInv

omit [DecidableEq ι] in
/-- Services only move between states, and not to `DOWN`. -/
theorem keep (inv : TriggerInv s v) (sig : s'.sig = s.sig) (last : s'.svcLastSignalTs = s.svcLastSignalTs)
    (services : ∀ x ∈ v'.svcList, x ∈ v.svcList ∧ Service.triggers (v'.objects x) = Service.triggers (v.objects x) ∧
      ((v'.objects x).state = .down → (v.objects x).state = .down)) : TriggerInv s' v' := by
  refine ⟨by rw [sig, last]; exact inv.chronicle, fun x member => ?_⟩
  obtain ⟨old, triggers, state⟩ := services x member
  rw [sig, last]
  exact (inv.waiting x old).move triggers state

theorem replace (inv : TriggerInv s v) (sig : s'.sig = s.sig) (last : s'.svcLastSignalTs = s.svcLastSignalTs)
    (svcList : v'.svcList = v.svcList) (objects : v'.objects = Function.update v.objects x svc)
    (triggers : Service.triggers svc = Service.triggers (v.objects x)) (state : svc.state = .down → (v.objects x).state = .down) :
    TriggerInv s' v' := by
  refine inv.keep sig last fun y member => ⟨svcList ▸ member, ?_⟩
  rw [objects, Function.update_apply]
  split
  · next same => exact same ▸ ⟨triggers, state⟩
  · exact ⟨rfl, id⟩

theorem setInterval {interval : Option ℤ} (inv : TriggerInv s v) (sig : s'.sig = s.sig)
    (last : s'.svcLastSignalTs = s.svcLastSignalTs) : TriggerInv s' (v.setInterval x interval) := by
  refine inv.keep sig last fun y member => ⟨View.setInterval_svcList v x interval ▸ member, ?_⟩
  rw [View.setInterval_objects]
  split
  · next same => exact same ▸ ⟨rfl, id⟩
  · exact ⟨rfl, id⟩

theorem looked {command rest : StrSeg} (inv : TriggerInv s v) (looked : Looked s v command x rest s' v') :
    TriggerInv s' v' := by
  cases looked with
  | found names member named => exact inv.keep rfl rfl fun y old => ⟨old, rfl, id⟩
  | created names nonempty valid unknown absent =>
    refine ⟨inv.chronicle, fun y member => ?_⟩
    rw [View.create_objects]
    split
    · -- A new service is down and has no trigger.
      exact ⟨nofun, nofun, nofun⟩
    · next other => exact inv.waiting y ((View.mem_create.mp member).resolve_right other)

end TriggerInv

/-! ## Steps -/

/-- `service.start NAME -` for a service whose start is pending. -/
def cancelsStart (s : Supervisor ι) (command : StrSeg) : Bool :=
  match strsegTokNext command tab with
  | some (name, rest) => (ctlPeekArg rest).any (fun when => strsegCmp when (bytesOf "-") = 0) &&
      s.daemon.svcList.any fun x => (s.daemon.objects x).name = name ∧ (s.daemon.objects x).state = .start
  | none => false

/-- The count of `signal.clear`, if it has one. -/
def clearCount (sigList : List SigListItem) (command : StrSeg) : ℤ :=
  match signalClearArgs sigList command with
  | .ok (_, count) => wrap 32 count
  | .error _ => 0

/-- Timestamps increase, counts are taken off, and no pending start is cancelled. -/
def TriggerAllowed (sigList : List SigListItem) (s : Supervisor ι) : LoopEvent ι → Prop
  | .arrive _ _ t => s.sig.prev < handlerTs s.sig.prev (gettimeMonFrac t)
  | .clear command => 0 ≤ clearCount sigList command
  | .start _ command => cancelsStart s command = false
  | _ => True

instance (s : Supervisor ι) (event : LoopEvent ι) : Decidable (TriggerAllowed sigList s event) :=
  match event with
  | .arrive _ _ t => inferInstanceAs (Decidable (s.sig.prev < handlerTs s.sig.prev (gettimeMonFrac t)))
  | .clear command => inferInstanceAs (Decidable (0 ≤ clearCount sigList command))
  | .start _ command => inferInstanceAs (Decidable (cancelsStart s command = false))
  | .exit .. | .adopt .. | .iterate .. | .reap .. | .runActive .. | .create .. | .autoUp .. | .delete .. | .dump .. => isTrue trivial

variable {events : List SigStatus}

omit [DecidableEq ι] in
/-- The events that `svc_run_active` sees are those after the bookmark, if any service waits for signals. -/
theorem TriggerInv.news (inv : TriggerInv s v) (news : Supervisor.news s v = some events) :
    (∀ event ∈ events, event ∈ s.sig.signals.slots ∧ event.numberPending ≠ 0) ∧ (v.sigwake ≠ [] →
      ∀ slot ∈ s.sig.signals.slots, slot.numberPending ≠ 0 → s.svcLastSignalTs < slot.lastReceivedTs → slot ∈ events) := by
  have bookmark : Bookmark s.svcLastSignalTs :=
    ⟨inv.chronicle.bookmark.1, inv.chronicle.bookmark.2.trans_lt inv.chronicle.bounded⟩
  obtain ⟨visited, visits, enough, members⟩ := inv.chronicle.visits bookmark
  rw [Supervisor.news] at news
  split at news
  · next empty =>
    cases news
    exact ⟨by rintro _ ⟨⟩, fun nonempty => absurd empty nonempty⟩
  · rw [newEventsSince_visits visits enough] at news
    cases news
    refine ⟨fun event seen => ?_, fun _ slot member pending newer => (members slot).mpr ⟨member, pending, newer⟩⟩
    obtain ⟨member, pending, -⟩ := (members event).mp seen
    exact ⟨member, pending⟩

/-- `svc_run_active` serves every trigger. -/
theorem TriggerInv.serves (inv : TriggerInv s v) (shows : Shows s.daemon v) (orderly : Orderly v)
    (news : Supervisor.news s v = some events) (fork : ι → Option ℤ) :
    TriggersServed s.sig.signals.slots (v.runActive (events.map SigStatus.signum) (Supervisor.check s) fork) := by
  obtain ⟨-, svcList, child, -, objects⟩ :=
    View.runActive_spec shows orderly (events.map SigStatus.signum) (Supervisor.check s) fork
  intro x member trigger down
  rw [svcList] at member
  have waiting := inv.waiting x member
  have settings := View.runActive_settings shows orderly (events.map SigStatus.signum) (Supervisor.check s) fork member
  simp only [Service.settings, Service.triggers, Prod.mk.injEq] at settings
  obtain ⟨⟨auto, -, signals⟩, -⟩ := settings
  rw [auto, Signalled, signals] at trigger
  rw [objects x member] at down
  rcases Service.ran_down down with stayed | ⟨reaped, noAuto, unchecked⟩
  · -- The service was down and no new signal woke it.
    obtain ⟨wasDown, asleep⟩ := Service.woken_state stayed nofun
    rcases trigger with always | ⟨slot, present, pending, wakes⟩
    · exact waiting.always always wasDown
    · have flag := waiting.flagged _ wakes
      have listed : v.sigwake ≠ [] := List.ne_nil_of_mem ((orderly.sigwake x).mpr ⟨member, flag⟩)
      have newer := waiting.signalled wasDown slot present pending wakes
      have seen := (inv.news news).2 listed slot present pending newer
      exact asleep ⟨flag, .inl wasDown, List.any_eq_true.mpr ⟨slot.signum, List.mem_map_of_mem seen, wakes⟩⟩
  · -- The service was reaped, and there was no reason to start it again.
    obtain ⟨wasReaped, asleep⟩ := Service.woken_state reaped nofun
    have same : Service.woken (events.map SigStatus.signum) v.now (v.objects x) = v.objects x := if_neg asleep
    rw [same] at noAuto unchecked
    rcases trigger with always | ⟨slot, present, pending, wakes⟩
    · exact nomatch noAuto.symm.trans always
    · obtain ⟨answer, asked, meaning⟩ := inv.chronicle.checkSigwake (v.objects x).sigwake (v.objects x).autostartSignals
      rw [Supervisor.check, Supervisor.checkSigwake, asked, Option.getD_some] at unchecked
      have yes := meaning.mpr ⟨waiting.flagged _ wakes, slot, present, pending, wakes⟩
      exact nomatch unchecked.symm.trans yes

theorem TriggerInv.runActive (inv : TriggerInv s v) (shows : Shows s.daemon v) (orderly : Orderly v) (news : Supervisor.news s v = some events) (fork : ι → Option ℤ) (sig : s'.sig = s.sig)
    (last : s'.svcLastSignalTs = (events.getLast?.map SigStatus.lastReceivedTs).getD s.svcLastSignalTs) :
    TriggerInv s' (v.runActive (events.map SigStatus.signum) (Supervisor.check s) fork) := by
  have served := inv.serves shows orderly news fork
  obtain ⟨-, svcList, -⟩ := View.runActive_spec shows orderly (events.map SigStatus.signum) (Supervisor.check s) fork
  refine ⟨?_, fun x member => ?_⟩
  · rw [sig, last]
    rcases List.eq_nil_or_concat events with rfl | ⟨front, event, rfl⟩
    · exact inv.chronicle
    · obtain ⟨present, pending⟩ := (inv.news news).1 event (by simp)
      simpa using inv.chronicle.advance present pending
  · have inList := svcList ▸ member
    have settings := View.runActive_settings shows orderly (events.map SigStatus.signum) (Supervisor.check s) fork inList
    simp only [Service.settings, Service.triggers, Prod.mk.injEq] at settings
    obtain ⟨⟨-, flag, signals⟩, -⟩ := settings
    rw [sig]
    refine ⟨?_, fun always => served x member (.inl always), fun down slot present pending wakes => ?_⟩
    · rw [flag, signals]
      exact (inv.waiting x inList).flagged
    · exact absurd down (served x member (.inr ⟨slot, present, pending, wakes⟩))

/-- `svc_run_active` ends: both loops over signals see each slot at most once. -/
theorem TriggerInv.runs (inv : TriggerInv s v) (shows : Shows s.daemon v) (orderly : Orderly v) (phase : s.phase = .reaping)
    (fork : ι → Option ℤ) : ∃ s', loopStep sigList s (.runActive fork) = some s' := by
  have checks : s.checkSigwake = fun svc => some (Supervisor.check s svc) := by
    funext svc
    obtain ⟨answer, asked, -⟩ := inv.chronicle.checkSigwake svc.sigwake svc.autostartSignals
    rw [Supervisor.check, Supervisor.checkSigwake, asked, Option.getD_some]
  obtain ⟨events, news⟩ : ∃ events, (if s.daemon.sigwakeList.head.isSome then
      newEventsSince s.sig.signals.slots (signalStatusSlots + 1) s.svcLastSignalTs else some []) = some events := by
    split
    · have bookmark : Bookmark s.svcLastSignalTs :=
        ⟨inv.chronicle.bookmark.1, inv.chronicle.bookmark.2.trans_lt inv.chronicle.bounded⟩
      obtain ⟨visited, visits, enough, -⟩ := inv.chronicle.visits bookmark
      exact ⟨visited, newEventsSince_visits visits enough⟩
    · exact ⟨[], rfl⟩
  have ends : Ends (loopProgram sigList (.runActive fork)) s fun _ _ => True := by
    simp only [loopProgram, inPhase, mainRunActive, ends_bind, ends_get, if_pos phase, news, checks, ends_onDaemon, ends_modify]
    exact (shows.runActive orderly _ _ fork).mono fun _ _ _ => trivial
  obtain ⟨_, s', run, -⟩ := ends
  exact ⟨s', by rw [loopStep, run]; rfl⟩

/-- The end of `svc_set_triggers` serves the triggers that it sets. -/
theorem TriggerInv.applyTriggers (inv : TriggerInv s v) {autostart triggered : Bool} {sigs : List ℤ}
    (check : Supervisor.triggered s autostart sigs = some triggered) (sig : s'.sig = s.sig)
    (last : s'.svcLastSignalTs = s.svcLastSignalTs) :
    TriggerInv s' (v.applyTriggers x autostart (· ∈ sigs) (!sigs.isEmpty) triggered) := by
  refine ⟨by rw [sig, last]; exact inv.chronicle, fun y member => ?_⟩
  rw [(View.applyTriggers_frame ..).1] at member
  rw [View.applyTriggers_objects, sig, last]
  split
  · rw [Service.triggered]
    have flagged : ∀ signum, decide (signum ∈ sigs) = true → (!sigs.isEmpty) = true := by
      intro signum wakes
      have inside := of_decide_eq_true wakes
      cases sigs with
      | nil => cases inside
      | cons => rfl
    split
    · exact ⟨flagged, by rintro _ ⟨⟩, by rintro ⟨⟩⟩
    · next stays =>
      refine ⟨flagged, fun always down => stays ⟨by simp [show autostart = true from always], .inl down⟩, ?_⟩
      intro down slot present pending wakes
      -- It would have been started: the check found the pending signal.
      have unchecked : autostart = false ∧ triggered = false := by
        rw [← Bool.or_eq_false_iff]
        exact Bool.eq_false_iff.mpr fun starts => stays ⟨starts, .inl down⟩
      obtain ⟨answer, asked, meaning⟩ := inv.chronicle.checkSigwake (!sigs.isEmpty) (· ∈ sigs)
      rw [Supervisor.triggered, if_neg (by simp [unchecked.1]), asked] at check
      cases check
      have yes := meaning.mpr ⟨flagged _ wakes, slot, present, pending, wakes⟩
      cases unchecked.2.symm.trans yes
  · exact inv.waiting y member

theorem TriggerInv.step {event : LoopEvent ι} (inv : TriggerInv s v) (shows : Shows s.daemon v) (orderly : Orderly v)
    (allowed : TriggerAllowed sigList s event) (move : LoopMove sigList s v event s' v') : TriggerInv s' v' := by
  cases move with
  | arrive room => exact ⟨inv.chronicle.arrive (by assumption) room allowed, inv.waiting⟩
  | exit | adopt | reapOther phase | dump phase member | same phase => exact inv.keep rfl rfl fun y old => ⟨old, rfl, id⟩
  | iterate phase later room =>
    refine ⟨inv.chronicle.merge room, fun x member => (inv.waiting x member).signals fun slot merged pending => ?_⟩
    rcases mem_mergeSlots merged with kept | ⟨new, present, newPending, -, stamp⟩
    · exact .inr ⟨slot, kept, pending, rfl, rfl⟩
    · exact .inl (stamp ▸ (inv.chronicle.newer new present newPending).1)
  | @reap x pid wstat daemon phase member =>
    rw [View.handleReaped]
    split
    · next isUp => exact inv.replace rfl rfl rfl rfl rfl (by rintro ⟨⟩)
    · exact inv.keep rfl rfl fun y old => ⟨old, rfl, id⟩
  | runActive phase news => exact inv.runActive shows orderly news _ rfl rfl
  | create phase looked => exact inv.looked looked
  | autoUpRefused phase looked invalid => exact inv.looked looked
  | @autoUpInterval x mem stored command rest triggers interval s₁ v₁ daemon phase looked args refused =>
    exact (inv.looked looked).setInterval rfl rfl
  | @autoUp x mem stored command rest triggers interval s₁ v₁ daemon autostart triggered sigs phase looked args accepted isStored check =>
    have known : Supervisor.triggered s₁ autostart sigs = some triggered := by
      rw [Supervisor.triggered, looked.sig.1]
      exact check
    exact ((inv.looked looked).setInterval rfl rfl).applyTriggers known rfl rfl
  | @start x configured command when daemon phase member =>
    refine inv.keep rfl rfl fun y old => ?_
    rw [View.handleStart_svcList] at old
    rw [View.handleStart_objects]
    split
    · next starts => exact ⟨old, starts.1 ▸ rfl, by rintro ⟨⟩⟩
    · exact ⟨old, rfl, id⟩
  | @cancel x configured command rest name when daemon phase names member named peek dash =>
    have waits : (v.objects x).state ≠ .start := by
      intro start
      have inList : x ∈ s.daemon.svcList := shows.svcList ▸ member
      have here : s.daemon.objects x = v.objects x := by rw [shows.objects]
      have cancels : cancelsStart s command = true := by
        simp only [cancelsStart, names, peek, Bool.and_eq_true, List.any_eq_true, Option.any_some]
        exact ⟨decide_eq_true dash, x, inList, by simp [here, named, start]⟩
      cases cancels.symm.trans allowed
    rw [View.cancelStart, if_neg waits]
    exact inv.keep rfl rfl fun y old => ⟨old, rfl, id⟩
  | @delete x name daemon phase member =>
    have nodup : v.svcList.Nodup := shows.svcList ▸ shows.indexed.nodup
    refine inv.keep rfl rfl fun y old => ?_
    obtain ⟨other, inside⟩ := (mem_swapRemove nodup member).mp old
    rw [View.delete_objects other]
    exact ⟨inside, rfl, id⟩
  | @clear command phase =>
    have nonneg : 0 ≤ clearCount sigList command := allowed
    rw [clearCount] at nonneg
    rw [ctlCmdSignalClear]
    cases args : signalClearArgs sigList command with
    | error message => exact inv.keep rfl rfl fun y old => ⟨old, rfl, id⟩
    | ok parsed =>
      obtain ⟨signum, count⟩ := parsed
      rw [args] at nonneg
      refine ⟨inv.chronicle.markSeen signum nonneg, fun x member => (inv.waiting x member).signals fun slot cleared pending => ?_⟩
      obtain ⟨counted, old, present, number, stamp, less⟩ :=
        mem_markSeen_le inv.chronicle.counted (wrap32_range count) nonneg cleared
      have := counted.1
      exact .inr ⟨old, present, by omega, number.symm, stamp.symm⟩

end DaemonProxy.Proofs
