import DaemonProxy.Proofs.ServiceActive

/-! # What a step of the main loop does

`LoopMove` lists the changes that a step can make, in terms of the view of the services and of what the loop keeps beside them.
The invariants of the loop are proved from it.
-/

namespace DaemonProxy.Proofs

open Lib Model

variable {ι : Type} [DecidableEq ι]

/-- The command names a service, which exists or is made for it. -/
inductive Looked (s : Supervisor ι) (v : View ι) (command : StrSeg) (x : ι) : StrSeg → Supervisor ι → View ι → Prop
  | found {name : Bytes} {rest : StrSeg} {daemon : Daemon ι} (names : strsegTokNext command tab = some (name, rest))
      (member : x ∈ v.svcList) (named : (v.objects x).name = name) : Looked s v command x rest { s with daemon } v
  | created {name : Bytes} {rest : StrSeg} {daemon : Daemon ι} (names : strsegTokNext command tab = some (name, rest))
      (nonempty : name ≠ []) (valid : svcCheckName name = true) (unknown : ∀ y ∈ v.svcList, (v.objects y).name ≠ name)
      (absent : x ∉ v.svcList) : Looked s v command x rest
        { s with
          daemon
          lastAutomatic := Function.update s.lastAutomatic x none
          requested := Function.update s.requested x false }
        (v.create x name)

/-- The interval that `service.auto_up` sets, if it is not the old one, and the triggers after it. -/
def autoUpArgs (rest : StrSeg) : Option (Option ℤ × StrSeg) :=
  match ctlGetArgInt rest with
  | (triggers, .error _) => if isDash rest then some (none, triggers) else none
  | (triggers, .ok interval) =>
      if interval < 1 ∨ interval >>> (31 : ℕ) ≠ 0 then none else some (some (interval <<< (32 : ℕ)), triggers)

/-- The triggers that `svc_set_triggers` reads. -/
def triggersOf (sigList : List SigListItem) (triggers : StrSeg) : Option (Bool × List ℤ) :=
  Bytewise.parseTriggers sigList ((triggers.getD []).length + 2) (some (triggers.getD []))

/-- The answer of `svc_check_sigwake` in `svc_set_triggers`, where it is asked. -/
def Supervisor.triggered (s : Supervisor ι) (autostart : Bool) (sigs : List ℤ) : Option Bool :=
  if autostart then some false
  else svcCheckSigwake s.sig.signals.slots (!sigs.isEmpty) (· ∈ sigs) (signalStatusSlots + 1)

/-- The new events that `svc_run_active` sees. -/
def Supervisor.news (s : Supervisor ι) (v : View ι) : Option (List SigStatus) :=
  if v.sigwake = [] then some [] else newEventsSince s.sig.signals.slots (signalStatusSlots + 1) s.svcLastSignalTs

/-- The answer of `svc_check_sigwake`, where there is one. -/
def Supervisor.check (s : Supervisor ι) (svc : Service) : Bool := (s.checkSigwake svc).getD false

inductive LoopMove (sigList : List SigListItem) (s : Supervisor ι) (v : View ι) : LoopEvent ι → Supervisor ι → View ι → Prop
  | arrive {sig : ℤ} {positive : 0 < sig} {t : Timespec} (room : countsFull s.sig.newSignals.slots sig = false) :
      LoopMove sigList s v (.arrive sig positive t) { s with sig := sigHandler s.sig sig t } v
  | exit {pid wstat : ℤ} {daemon : Daemon ι} {children : ℤ → Option (Child ι)} :
      LoopMove sigList s v (.exit pid wstat) { s with daemon } { v with children }
  | adopt {pid : ℤ} {daemon : Daemon ι} {children : ℤ → Option (Child ι)} :
      LoopMove sigList s v (.adopt pid) { s with daemon } { v with children }
  | iterate {t : Timespec} {daemon : Daemon ι} (phase : s.phase ≠ .reaping) (later : v.now ≤ gettimeMonFrac t)
      (room : ∀ slot ∈ s.sig.newSignals.slots, slot.numberPending ≠ 0 → countsFull s.sig.signals.slots slot.signum = false) :
      LoopMove sigList s v (.iterate t) { s with daemon, sig := mergeNewSignals s.sig, phase := .reaping }
        { v with now := gettimeMonFrac t }
  | reapOther {pid : ℤ} {daemon : Daemon ι} {children : ℤ → Option (Child ι)} (phase : s.phase = .reaping) :
      LoopMove sigList s v (.reap pid) { s with daemon } { v with children }
  | reap {x : ι} {pid wstat : ℤ} {daemon : Daemon ι} (phase : s.phase = .reaping) (member : x ∈ v.svcList) :
      LoopMove sigList s v (.reap pid) { s with daemon } ((v.forget pid).handleReaped x wstat)
  | runActive {fork : ι → Option ℤ} {events : List SigStatus} {daemon : Daemon ι} (phase : s.phase = .reaping)
      (news : Supervisor.news s v = some events) :
      LoopMove sigList s v (.runActive fork)
        { Supervisor.noteRun v.objects events
            { s with
              daemon
              svcLastSignalTs := (events.getLast?.map SigStatus.lastReceivedTs).getD s.svcLastSignalTs } with
          phase := .commands }
        (v.runActive (events.map SigStatus.signum) (Supervisor.check s) fork)
  | create {x : ι} {mem : Option ι} {command rest : StrSeg} {s' : Supervisor ι} {v' : View ι} (phase : s.phase = .commands)
      (looked : Looked s v command x rest s' v') : LoopMove sigList s v (.create mem command) s' v'
  | autoUpRefused {x : ι} {mem : Option ι} {stored : Bool} {command rest : StrSeg} {s' : Supervisor ι} {v' : View ι}
      (phase : s.phase = .commands) (looked : Looked s v command x rest s' v') (invalid : autoUpArgs rest = none) :
      LoopMove sigList s v (.autoUp mem stored command) s' v'
  | autoUpInterval {x : ι} {mem : Option ι} {stored : Bool} {command rest triggers : StrSeg} {interval : Option ℤ}
      {s' : Supervisor ι} {v' : View ι} {daemon : Daemon ι} (phase : s.phase = .commands)
      (looked : Looked s v command x rest s' v') (args : autoUpArgs rest = some (interval, triggers))
      (refused : triggersOf sigList triggers = none ∨ stored = false) :
      LoopMove sigList s v (.autoUp mem stored command) { s' with daemon } (v'.setInterval x interval)
  | autoUp {x : ι} {mem : Option ι} {stored : Bool} {command rest triggers : StrSeg} {interval : Option ℤ} {s' : Supervisor ι}
      {v' : View ι} {daemon : Daemon ι} {autostart triggered : Bool} {sigs : List ℤ} (phase : s.phase = .commands)
      (looked : Looked s v command x rest s' v') (args : autoUpArgs rest = some (interval, triggers))
      (accepted : triggersOf sigList triggers = some (autostart, sigs)) (isStored : stored = true)
      (check : Supervisor.triggered s autostart sigs = some triggered) :
      LoopMove sigList s v (.autoUp mem stored command)
        { s' with
          daemon
          requested := if (autostart || triggered) ∧ Startable (v'.objects x) then Function.update s'.requested x false
            else s'.requested }
        ((v'.setInterval x interval).applyTriggers x autostart (· ∈ sigs) (!sigs.isEmpty) triggered)
  | start {x : ι} {configured : Bool} {command : StrSeg} {when : ℤ} {daemon : Daemon ι} (phase : s.phase = .commands)
      (member : x ∈ v.svcList) :
      LoopMove sigList s v (.start configured command)
        { s with
          daemon
          requested := if Startable (v.objects x) then Function.update s.requested x true else s.requested }
        (v.handleStart x when)
  | cancel {x : ι} {configured : Bool} {command rest : StrSeg} {name when : Bytes} {daemon : Daemon ι} (phase : s.phase = .commands)
      (names : strsegTokNext command tab = some (name, rest)) (member : x ∈ v.svcList) (named : (v.objects x).name = name)
      (peek : ctlPeekArg rest = some when) (dash : strsegCmp when (bytesOf "-") = 0) :
      LoopMove sigList s v (.start configured command) { s with daemon } (v.cancelStart x)
  | delete {x : ι} {name : Bytes} {daemon : Daemon ι} (phase : s.phase = .commands) (member : x ∈ v.svcList) :
      LoopMove sigList s v (.delete name) { s with daemon } (v.delete x)
  | clear {command : StrSeg} (phase : s.phase = .commands) :
      LoopMove sigList s v (.clear command) { s with sig := (ctlCmdSignalClear sigList s.sig command).1 } v
  | dump {x : ι} {name : Bytes} {daemon : Daemon ι} (phase : s.phase = .commands) (member : x ∈ v.svcList) :
      LoopMove sigList s v (.dump name) { s with daemon } (v.report x)
  | same {event : LoopEvent ι} {daemon : Daemon ι} (phase : s.phase = .commands) :
      LoopMove sigList s v event { s with daemon } v

/-- What is known of the state after a step. -/
def LoopMoved (sigList : List SigListItem) (s : Supervisor ι) (v : View ι) (event : LoopEvent ι) (s' : Supervisor ι) : Prop :=
  ∃ v', Shows s'.daemon v' ∧ Orderly v' ∧ LoopMove sigList s v event s' v'

/-! ## Rules for the programs of the loop -/

variable {s : Supervisor ι} {v : View ι} {x : ι} {sigList : List SigListItem}

omit [DecidableEq ι] in
theorem ends_onDaemon {α : Type} {m : SvcM ι α} {post : α → Supervisor ι → Prop} :
    Ends (onDaemon m) s post ↔ Ends m s.daemon fun a daemon => post a { s with daemon } := ends_zoom

omit [DecidableEq ι] in
theorem ensures_inPhase {phase : Phase} {m : LoopM ι Unit} {post : Unit → Supervisor ι → Prop}
    (ensures : s.phase = phase → Ensures m s post) : Ensures (inPhase phase m) s post := by
  refine .get_bind ?_
  split
  · next here => exact ensures here
  · exact ensures_failure

/-! ## Commands -/

/-- How `ctl_get_arg_service` ends, exactly. -/
inductive Lookup (s : Supervisor ι) (v : View ι) (existing : Bool) (mem : Option ι) (command : StrSeg) :
    StrSeg × Except String ι → Supervisor ι → Prop
  | refused {rest : StrSeg} {message : String}
      (nothing : ∀ name rest, strsegTokNext command tab = some (name, rest) → name ≠ [] → svcCheckName name = true →
        (∀ x ∈ v.svcList, (v.objects x).name ≠ name) ∧ (existing = false → ∀ x ∈ mem, x ∈ v.svcList)) :
      Lookup s v existing mem command (rest, .error message) s
  | found {name : Bytes} {rest : StrSeg} {x : ι} (names : strsegTokNext command tab = some (name, rest))
      (member : x ∈ v.svcList) (named : (v.objects x).name = name) : Lookup s v existing mem command (rest, .ok x) s
  | created {name : Bytes} {rest : StrSeg} {x : ι} {daemon : Daemon ι}
      (names : strsegTokNext command tab = some (name, rest)) (nonempty : name ≠ []) (valid : svcCheckName name = true)
      (unknown : ∀ y ∈ v.svcList, (v.objects y).name ≠ name) (allowed : existing = false) (memory : mem = some x)
      (absent : x ∉ v.svcList) (shows : Shows daemon (v.create x name)) : Lookup s v existing mem command (rest, .ok x)
        { s with
          daemon
          lastAutomatic := Function.update s.lastAutomatic x none
          requested := Function.update s.requested x false }

theorem ctlGetArgService_lookup (shows : Shows s.daemon v) (orderly : Orderly v) (existing : Bool) (mem : Option ι)
    (command : StrSeg) : Ends (ctlGetArgService existing mem command) s (Lookup s v existing mem command) := by
  rw [ctlGetArgService]
  cases names : strsegTokNext command tab with
  | none => exact (ends_pure _).mpr (.refused fun name rest token => by cases names.symm.trans token)
  | some token =>
    obtain ⟨name, rest⟩ := token
    simp only [ends_ite, ends_bind, ends_pure, ends_get, ends_onDaemon]
    -- A refusal, from what is known of this name.
    have refused : ∀ {message : String}, (name ≠ [] → svcCheckName name = true →
        (∀ x ∈ v.svcList, (v.objects x).name ≠ name) ∧ (existing = false → ∀ x ∈ mem, x ∈ v.svcList)) →
        Lookup s v existing mem command (rest, .error message) s := by
      refine fun nothing => .refused fun name' rest' token => ?_
      cases names.symm.trans token
      exact nothing
    split
    · next empty => exact refused fun nonempty => absurd empty nonempty
    split
    · next invalid => exact refused fun _ valid => by cases invalid.symm.trans valid
    next nonempty valid =>
      replace valid : svcCheckName name = true := by simpa using valid
      refine (svcByName_spec shows orderly name (!existing) mem).mono ?_
      rintro _ daemon (⟨x, member, named, rfl, rfl⟩ | ⟨unknown, ⟨rfl, rfl, full⟩ | ⟨x, allowed, -, memory, absent, rfl, created⟩⟩)
      · have inList : x ∈ s.daemon.svcList := shows.svcList ▸ member
        simp only [not_not.mpr inList, if_false, ends_pure]
        exact .found names member named
      · refine (ends_pure _).mpr (refused fun _ _ => ⟨unknown, fun allowed => full ?_ valid⟩)
        rw [allowed]
        rfl
      · have outside : x ∉ s.daemon.svcList := shows.svcList ▸ absent
        simp only [outside, not_false_eq_true, if_true, ends_bind, ends_modify, ends_pure]
        exact .created names nonempty valid unknown (by simpa using allowed) memory absent created

/-- What `ctl_get_arg_service` returns, and the state it leaves. -/
def ServiceArg (s : Supervisor ι) (v : View ι) (existing : Bool) (command : StrSeg) (result : StrSeg × Except String ι)
    (s' : Supervisor ι) : Prop :=
  ∃ v', Shows s'.daemon v' ∧ Orderly v' ∧
    ((∃ message daemon, result.2 = .error message ∧ s' = { s with daemon } ∧ v' = v) ∨
      ∃ x, result.2 = .ok x ∧ Looked s v command x result.1 s' v' ∧ (existing = true → x ∈ v.svcList))

theorem ctlGetArgService_spec (shows : Shows s.daemon v) (orderly : Orderly v) (existing : Bool) (mem : Option ι)
    (command : StrSeg) : Ends (ctlGetArgService existing mem command) s (ServiceArg s v existing command) := by
  refine (ctlGetArgService_lookup shows orderly existing mem command).mono fun result s' looked => ?_
  cases looked with
  | refused nothing => exact ⟨v, shows, orderly, .inl ⟨_, _, rfl, rfl, rfl⟩⟩
  | found names member named => exact ⟨v, shows, orderly, .inr ⟨_, rfl, .found names member named, fun _ => member⟩⟩
  | created names nonempty valid unknown allowed memory absent created =>
    exact ⟨_, created, orderly.create absent _, .inr ⟨_, rfl, .created names nonempty valid unknown absent, fun only => nomatch only.symm.trans allowed⟩⟩

theorem Looked.member {command rest : StrSeg} {s' : Supervisor ι} {v' : View ι} (looked : Looked s v command x rest s' v') :
    x ∈ v'.svcList := by
  cases looked with
  | found names member named => exact member
  | created names nonempty valid unknown absent => exact List.mem_append_right _ (List.mem_singleton_self x)

theorem Looked.sig {command rest : StrSeg} {s' : Supervisor ι} {v' : View ι} (looked : Looked s v command x rest s' v') :
    s'.sig = s.sig ∧ s'.svcLastSignalTs = s.svcLastSignalTs ∧ s'.phase = s.phase ∧ s'.forks = s.forks ∧ v'.now = v.now := by
  cases looked with
  | found | created => exact ⟨rfl, rfl, rfl, rfl, rfl⟩

theorem Shows.setInterval {daemon : Daemon ι} (shows : Shows daemon v) (x : ι) (interval : ℤ)
    (valid : 1 ≤ interval) :
    Ends (svcSetRestartInterval x (interval <<< (32 : ℕ))) daemon fun _ daemon' =>
      Shows daemon' (v.setInterval x (some (interval <<< (32 : ℕ)))) := by
  have whole : ¬(interval <<< (32 : ℕ)) >>> (32 : ℕ) < 1 := by
    rw [Int.shiftLeft_eq, Int.shiftRight_eq_div_pow]
    omega
  have here : daemon.objects x = v.objects x := by rw [shows.objects]
  simp only [svcSetRestartInterval, whole, if_false, ends_updateSvc, here]
  exact shows.update x _ rfl rfl

theorem View.setInterval_objects (v : View ι) (x : ι) (interval : Option ℤ) (y : ι) :
    (v.setInterval x interval).objects y = if y = x then
      { v.objects x with restartInterval := interval.getD (v.objects x).restartInterval } else v.objects y := by
  cases interval with
  | none =>
    split
    · next same => rw [same]; rfl
    · rfl
  | some interval => exact View.setSvc_apply ..

theorem View.setInterval_self (v : View ι) (x : ι) (interval : Option ℤ) : (v.setInterval x interval).objects x =
    { v.objects x with restartInterval := interval.getD (v.objects x).restartInterval } :=
  (View.setInterval_objects ..).trans (if_pos rfl)

/-- `svc_set_triggers`, for triggers that are stored and understood and for others. -/
theorem svcSetTriggers_spec (shows : Shows s.daemon v) (member : x ∈ v.svcList) (triggers : StrSeg) (stored : Bool) :
    Ensures (svcSetTriggers sigList x (triggers.getD []) stored) s fun done s' =>
      (done = false ∧ s' = s ∧ (triggersOf sigList triggers = none ∨ stored = false)) ∨
        done = true ∧ ∃ autostart sigs triggered daemon, triggersOf sigList triggers = some (autostart, sigs) ∧
          stored = true ∧ Supervisor.triggered s autostart sigs = some triggered ∧
          s' = { s with
            daemon
            requested := if (autostart || triggered) ∧ Startable (v.objects x) then Function.update s.requested x false
              else s.requested } ∧
          Shows daemon (v.applyTriggers x autostart (· ∈ sigs) (!sigs.isEmpty) triggered) := by
  rw [svcSetTriggers]
  cases parsed : Bytewise.parseTriggers sigList ((triggers.getD []).length + 2) (some (triggers.getD [])) with
  | none => exact ((ends_pure _).mpr (.inl ⟨rfl, rfl, .inl parsed⟩)).ensures
  | some result =>
    obtain ⟨autostart, sigs⟩ := result
    dsimp only
    split
    · next lost => exact ((ends_pure _).mpr (.inl ⟨rfl, rfl, .inr lost⟩)).ensures
    · next kept =>
      refine .get_bind ?_
      cases check : Supervisor.triggered s autostart sigs with
      | none =>
        rw [Supervisor.triggered] at check
        simp only [check]
        exact ensures_failure
      | some triggered =>
        have answer := check
        rw [Supervisor.triggered] at answer
        simp only [answer]
        apply Ends.ensures
        simp only [ends_bind, ends_onDaemon]
        refine (shows.applyTriggers member autostart (· ∈ sigs) (!sigs.isEmpty) triggered).mono fun _ daemon applied => ?_
        have startable : ((s.daemon.objects x).state = .down ∨ (s.daemon.objects x).state = .start) ↔
            Startable (v.objects x) := by
          rw [shows.objects]
          rfl
        have isStored : stored = true := by simpa using kept
        simp only [ends_ite, ends_bind, ends_modify, ends_pure, startable]
        by_cases starts : (autostart || triggered) = true ∧ Startable (v.objects x)
        · rw [if_pos starts]
          refine .inr ⟨trivial, autostart, sigs, triggered, daemon, parsed, isStored, check, ?_, applied⟩
          rw [if_pos starts]
        · rw [if_neg starts]
          refine .inr ⟨trivial, autostart, sigs, triggered, daemon, parsed, isStored, check, ?_, applied⟩
          rw [if_neg starts]

theorem ctlCmdSvcAutoUp_moves (shows : Shows s.daemon v) (orderly : Orderly v) (phase : s.phase = .commands)
    (mem : Option ι) (stored : Bool) (command : StrSeg) :
    Ensures (ctlCmdSvcAutoUp sigList mem stored command) s fun _ s' => LoopMoved sigList s v (.autoUp mem stored command) s' := by
  rw [ctlCmdSvcAutoUp]
  refine (ctlGetArgService_spec shows orderly false mem command).ensures.bind ?_
  rintro ⟨rest, result⟩ s₁ ⟨v₁, shows₁, orderly₁, ⟨message, daemon, same, rfl, rfl⟩ | ⟨x, same, looked, -⟩⟩
  · dsimp only at same
    subst same
    exact ((ends_pure _).mpr ⟨_, shows₁, orderly₁, .same phase⟩).ensures
  dsimp only at same looked
  subst same
  -- The interval is dealt with; the triggers are left.
  have triggers : ∀ {triggers : StrSeg} {interval : Option ℤ} {daemon : Daemon ι}, Shows daemon (v₁.setInterval x interval) →
      autoUpArgs rest = some (interval, triggers) →
      Ensures (do
        if ← svcSetTriggers sigList x (triggers.getD []) stored then return .ok ()
        else return .error "unable to set auto_up triggers" : LoopM ι (Except String Unit)) { s₁ with daemon }
        fun _ s' => LoopMoved sigList s v (.autoUp mem stored command) s' := by
    intro triggers interval daemon shows₂ args
    have orderly₂ := orderly₁.setInterval x interval
    have member : x ∈ (v₁.setInterval x interval).svcList := View.setInterval_svcList v₁ x interval ▸ looked.member
    refine (svcSetTriggers_spec (s := { s₁ with daemon }) shows₂ member triggers stored).bind ?_
    rintro done s₂ (⟨rfl, rfl, refused⟩ | ⟨rfl, autostart, sigs, triggered, daemon', accepted, isStored, check, rfl, applied⟩)
    · exact ((ends_pure _).mpr ⟨_, shows₂, orderly₂, .autoUpInterval phase looked args refused⟩).ensures
    · have startable : Startable ((v₁.setInterval x interval).objects x) ↔ Startable (v₁.objects x) := by
        rw [View.setInterval_self]
        rfl
      rw [Supervisor.triggered, looked.sig.1] at check
      refine ((ends_pure _).mpr ⟨_, applied, orderly₂.applyTriggers member _ _ _ _, ?_⟩).ensures
      simp only [startable]
      exact .autoUp phase looked args accepted isStored check
  have refused : autoUpArgs rest = none → ∀ {message : String}, Ensures (pure (.error message) : LoopM ι (Except String Unit))
      s₁ fun _ s' => LoopMoved sigList s v (.autoUp mem stored command) s' :=
    fun invalid => ((ends_pure _).mpr ⟨_, shows₁, orderly₁, .autoUpRefused phase looked invalid⟩).ensures
  dsimp only
  cases parsed : ctlGetArgInt rest with
  | mk left result =>
    cases result with
    | error message =>
      dsimp only
      have args : autoUpArgs rest = if isDash rest then some (none, left) else none := by
        simp only [autoUpArgs, parsed]
      split
      · next dash =>
        rw [if_pos dash] at args
        exact triggers (show Shows s₁.daemon (v₁.setInterval x none) from shows₁) args
      · next other =>
        rw [if_neg other] at args
        exact refused args
    | ok interval =>
      dsimp only
      have args : autoUpArgs rest =
          if interval < 1 ∨ interval >>> (31 : ℕ) ≠ 0 then none else some (some (interval <<< (32 : ℕ)), left) := by
        simp only [autoUpArgs, parsed]
      split
      · next invalid =>
        rw [if_pos invalid] at args
        exact refused args
      · next valid =>
        rw [if_neg valid] at args
        have set : Ends (onDaemon (svcSetRestartInterval x (interval <<< (32 : ℕ)))) s₁ fun _ s' => ∃ daemon,
            s' = { s₁ with daemon } ∧ Shows daemon (v₁.setInterval x (some (interval <<< (32 : ℕ)))) :=
          ends_onDaemon.mpr ((shows₁.setInterval x interval (by omega)).mono fun _ daemon shows₂ => ⟨daemon, rfl, shows₂⟩)
        refine set.ensures.bind ?_
        rintro _ _ ⟨daemon, rfl, shows₂⟩
        exact triggers shows₂ args

theorem ctlCmdSvcStart_moves (sigList : List SigListItem) (shows : Shows s.daemon v) (orderly : Orderly v)
    (phase : s.phase = .commands) (configured : Bool) (command : StrSeg) :
    Ensures (ctlCmdSvcStart configured command) s fun _ s' => LoopMoved sigList s v (.start configured command) s' := by
  rw [ctlCmdSvcStart]
  refine (ctlGetArgService_spec shows orderly true none command).ensures.bind ?_
  rintro ⟨rest, result⟩ s₁ ⟨v₁, shows₁, orderly₁, ⟨message, daemon, same, rfl, rfl⟩ | ⟨x, same, looked, existing⟩⟩
  · dsimp only at same
    subst same
    exact ((ends_pure _).mpr ⟨_, shows₁, orderly₁, .same phase⟩).ensures
  dsimp only at same looked
  subst same
  cases looked with
  | created names nonempty valid unknown absent => exact absurd (existing rfl) absent
  | @found name _ daemon names member named =>
  have start : ∀ when : ℤ, Ensures (do
      if configured = false then return .error "no args configured for service"
      else if ← onDaemon (svcHandleStart x when) then
        modify fun s => { s with requested := Function.update s.requested x true }
        return .ok ()
      else return .error "service is not startable" : LoopM ι (Except String Unit)) { s with daemon }
      fun _ s' => LoopMoved sigList s v (.start configured command) s' := by
    intro when
    split
    · exact ((ends_pure _).mpr ⟨_, shows₁, orderly₁, .same phase⟩).ensures
    apply Ends.ensures
    simp only [ends_bind, ends_onDaemon]
    refine (shows₁.handleStart member when).mono fun accepted daemon' result => ?_
    obtain ⟨started, verdict⟩ := result
    have move : LoopMove sigList s v (.start configured command)
        { s with
          daemon := daemon'
          requested := if Startable (v.objects x) then Function.update s.requested x true else s.requested }
        (v.handleStart x when) := .start phase member
    by_cases startable : Startable (v.objects x)
    · rw [decide_eq_true startable] at verdict
      rw [if_pos startable] at move
      simp only [verdict, if_true, ends_bind, ends_modify, ends_pure]
      exact ⟨_, started, orderly.handleStart member when, move⟩
    · rw [decide_eq_false startable] at verdict
      rw [if_neg startable] at move
      simp only [verdict, Bool.false_eq_true, if_false, ends_pure]
      exact ⟨_, started, orderly.handleStart member when, move⟩
  refine .get_bind ?_
  have refused : ∀ {message : String}, Ensures (pure (.error message) : LoopM ι (Except String Unit)) { s with daemon }
      fun _ s' => LoopMoved sigList s v (.start configured command) s' :=
    ((ends_pure _).mpr ⟨_, shows₁, orderly₁, .same phase⟩).ensures
  dsimp only
  cases peek : ctlPeekArg rest with
  | none => exact start _
  | some when =>
    dsimp only
    split
    · next dash =>
      apply Ends.ensures
      simp only [ends_bind, ends_onDaemon]
      refine shows₁.cancelStart.mono fun accepted daemon' cancelled => ?_
      have moved : LoopMoved sigList s v (.start configured command) { s with daemon := daemon' } :=
        ⟨_, cancelled, orderly.cancelStart member, .cancel phase names member named peek dash⟩
      simp only [ends_ite, ends_pure]
      split <;> exact moved
    · cases parsed : ctlGetArgTs rest with
      | mk left result =>
        cases result with
        | error message => exact refused
        | ok startTime =>
          dsimp only
          split
          · exact refused
          · exact start startTime

/-! ## `svc_run_active` -/

/-- A run in which `svc_check_sigwake` answers each time is one with these answers. -/
theorem svcRunServices_covers (check : Service → Option Bool) (fork : ι → Option ℤ) :
    Covers (svcRunServices check fork) (svcRunServices (fun svc => some ((check svc).getD false)) fork) := by
  refine (Covers.refl get).bind fun s => Links.each_covers (fun x => ?_) _ _
  refine (Covers.refl _).bind fun svc => ?_
  split
  · cases given : check svc with
    | none => exact nofun
    | some triggered =>
      simp only [given, Option.getD_some]
      exact .refl _
  · exact .refl _

theorem mainRunActive_spec (shows : Shows s.daemon v) (orderly : Orderly v) (fork : ι → Option ℤ) :
    Ensures (mainRunActive fork) s fun _ s' => ∃ events daemon, Supervisor.news s v = some events ∧
      s' = Supervisor.noteRun v.objects events { s with
        daemon
        svcLastSignalTs := (events.getLast?.map SigStatus.lastReceivedTs).getD s.svcLastSignalTs } ∧
      Shows daemon (v.runActive (events.map SigStatus.signum) (Supervisor.check s) fork) ∧
      Orderly (v.runActive (events.map SigStatus.signum) (Supervisor.check s) fork) := by
  have news : (if s.daemon.sigwakeList.head.isSome then
      newEventsSince s.sig.signals.slots (signalStatusSlots + 1) s.svcLastSignalTs else some []) = Supervisor.news s v := by
    rw [shows.sigwake.head_eq, Supervisor.news]
    cases v.sigwake <;> rfl
  refine .get_bind ?_
  dsimp only
  rw [news]
  cases found : Supervisor.news s v with
  | none => exact ensures_failure
  | some events =>
    have covers : Covers (svcRunActive (events.map SigStatus.signum) s.checkSigwake fork)
        (svcRunActive (events.map SigStatus.signum) (fun svc => some (Supervisor.check s svc)) fork) :=
      (Covers.refl _).bind fun _ => svcRunServices_covers _ fork
    have ran : Ensures (onDaemon (svcRunActive (events.map SigStatus.signum) s.checkSigwake fork)) s fun _ s' =>
        ∃ daemon, s' = { s with daemon } ∧ Shows daemon (v.runActive (events.map SigStatus.signum) (Supervisor.check s) fork) ∧
          Orderly (v.runActive (events.map SigStatus.signum) (Supervisor.check s) fork) :=
      .zoom ((covers.ensures (shows.runActive orderly _ (Supervisor.check s) fork)).mono fun _ daemon after =>
        ⟨daemon, rfl, after⟩)
    refine ran.bind ?_
    rintro _ _ ⟨daemon, rfl, shows', orderly'⟩
    apply Ends.ensures
    simp only [ends_bind, ends_modify, shows.objects]
    exact ⟨events, daemon, rfl, rfl, shows', orderly'⟩

/-! ## Steps -/

/-- `LoopMove` says what the steps of the main loop do. -/
theorem loopStep_moves {event : LoopEvent ι} {s' : Supervisor ι} (shows : Shows s.daemon v) (orderly : Orderly v)
    (step : loopStep sigList s event = some s') : LoopMoved sigList s v event s' := by
  suffices moves : Ensures (loopProgram sigList event) s fun _ s' => LoopMoved sigList s v event s' by
    obtain ⟨⟨_, _⟩, run, rfl⟩ := Option.map_eq_some_iff.mp step
    exact moves _ _ run
  -- A step that only replaces the daemon.
  have daemonOnly : ∀ {m : SvcM ι Unit} {event : LoopEvent ι}, (Ends m s.daemon fun _ daemon =>
      LoopMoved sigList s v event { s with daemon }) → Ensures (onDaemon m) s fun _ s' => LoopMoved sigList s v event s' :=
    fun ends => (ends_onDaemon.mpr ends).ensures
  have withService : ∀ {name : Bytes} {command : ι → SvcM ι Unit} {event : LoopEvent ι}, s.phase = .commands →
      (∀ x ∈ v.svcList, Ends (command x) s.daemon fun _ daemon => LoopMoved sigList s v event { s with daemon }) →
      Ends (withService name command) s.daemon fun _ daemon => LoopMoved sigList s v event { s with daemon } := by
    intro name command event phase command
    simp only [withService, ends_bind]
    refine (svcByName_existing shows.indexed name none).mono ?_
    rintro (_ | x) _ ⟨rfl, found⟩
    · exact (ends_pure _).mpr ⟨v, shows, orderly, .same phase⟩
    · exact command x (shows.svcList ▸ (found x rfl).1)
  cases event with
  | arrive sig positive t =>
    refine .get_bind ?_
    split
    · exact ensures_failure
    · next room => exact (ends_modify.mpr ⟨v, shows, orderly, .arrive (by simpa using room)⟩).ensures
  | exit pid wstat =>
    refine daemonOnly ?_
    simp only [svcProgram, ends_modify]
    exact ⟨_, shows.setChildren _, orderly.congr rfl rfl rfl rfl, .exit⟩
  | adopt pid =>
    refine daemonOnly ?_
    simp only [svcProgram, ends_modify]
    split
    · exact ⟨_, shows.setChildren _, orderly.congr rfl rfl rfl rfl, .adopt⟩
    · exact ⟨{ v with children := v.children }, shows, orderly, .adopt⟩
  | iterate t =>
    refine .get_bind ?_
    dsimp only
    split
    · exact ensures_failure
    · next allowed =>
      split
      · exact ensures_failure
      · next room =>
        obtain ⟨phase, later⟩ := not_or.mp allowed
        have shows' := (shows.setNow (gettimeMonFrac t)).setNext (wrap 64 (gettimeMonFrac t + 200 * 4294967296))
        refine (ends_modify.mpr ⟨_, shows', orderly.congr rfl rfl rfl rfl, .iterate phase ?_ ?_⟩).ensures
        · exact shows.now ▸ not_lt.mp later
        · simpa using room
  | reap pid =>
    refine ensures_inPhase fun phase => daemonOnly ((shows.mainReap pid).mono fun _ daemon after => ?_)
    rcases after with ⟨-, after⟩ | ⟨_, _, -, ⟨after, -⟩ | ⟨x, member, -, -, after⟩⟩
    · exact ⟨{ v with children := v.children }, after, orderly, .reapOther phase⟩
    · exact ⟨_, after, orderly.congr rfl rfl rfl rfl, .reapOther phase⟩
    · have forgotten : Orderly (v.forget pid) := orderly.congr rfl rfl rfl rfl
      exact ⟨_, after, forgotten.handleReaped member _, .reap phase member⟩
  | runActive fork =>
    refine ensures_inPhase fun phase => (mainRunActive_spec shows orderly fork).bind ?_
    rintro _ _ ⟨events, daemon, news, rfl, shows', orderly'⟩
    exact (ends_modify.mpr ⟨_, shows', orderly', .runActive phase news⟩).ensures
  | create mem command =>
    refine ensures_inPhase fun phase => (ctlGetArgService_spec shows orderly false mem command).ensures.bind ?_
    rintro ⟨rest, result⟩ s₁ ⟨v₁, shows₁, orderly₁, ⟨message, daemon, -, rfl, rfl⟩ | ⟨x, -, looked, -⟩⟩
    · exact ((ends_pure _).mpr ⟨_, shows₁, orderly₁, .same phase⟩).ensures
    · exact ((ends_pure _).mpr ⟨_, shows₁, orderly₁, .create phase looked⟩).ensures
  | autoUp mem stored command =>
    refine ensures_inPhase fun phase => (ctlCmdSvcAutoUp_moves shows orderly phase mem stored command).bind ?_
    exact fun _ _ moved => ((ends_pure ()).mpr moved).ensures
  | start configured command =>
    refine ensures_inPhase fun phase => (ctlCmdSvcStart_moves sigList shows orderly phase configured command).bind ?_
    exact fun _ _ moved => ((ends_pure ()).mpr moved).ensures
  | delete name =>
    refine ensures_inPhase fun phase => daemonOnly (withService phase fun x member => ?_)
    simp only [ends_bind, ends_svcAt, ends_ite, ends_pure]
    split
    · exact ⟨v, shows, orderly, .same phase⟩
    · have nodup := shows.svcList ▸ shows.indexed.nodup
      exact (shows.delete member).mono fun _ daemon after => ⟨_, after, orderly.delete nodup member, .delete phase member⟩
  | clear command =>
    exact ensures_inPhase fun phase => (ends_modify.mpr ⟨v, shows, orderly, .clear phase⟩).ensures
  | dump name =>
    refine ensures_inPhase fun phase => daemonOnly (withService phase fun x member => ?_)
    exact shows.notify.mono fun _ daemon after => ⟨_, after, orderly.congr rfl rfl rfl rfl, .dump phase member⟩

end DaemonProxy.Proofs
