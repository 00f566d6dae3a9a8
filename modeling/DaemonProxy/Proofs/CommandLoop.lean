import DaemonProxy.Proofs.ServiceCommands

/-! # Commands as steps of the main loop

What a command does to the services and the signals is what a step of the main loop does that is given the same arguments. So
the invariants of the main loop are invariants of the daemon.
-/

namespace DaemonProxy.Proofs

open Lib Model

variable {ι κ : Type} [DecidableEq ι] [DecidableEq κ] {c : Call ι κ} {v : View ι} {α : Type} {sigList : List SigListItem}

/-- What a command does to the main loop. -/
inductive LoopCommand (sigList : List SigListItem) (s : Supervisor ι) : Supervisor ι → Prop
  | same : LoopCommand sigList s s
  | step {event : LoopEvent ι} {s' : Supervisor ι} (step : loopStep sigList s event = some s') : LoopCommand sigList s s'
  /-- `terminate` wakes the main loop. -/
  | wake : LoopCommand sigList s { s with daemon := { s.daemon with next := s.daemon.now } }

/-- The handler does to the main loop what a command does. -/
def Loops (sigList : List SigListItem) (m : CmdM ι κ α) (c : Call ι κ) : Prop :=
  Settles m c (fun _ c' => LoopCommand sigList c.server.loop c'.server.loop)
    fun _ c' => LoopCommand sigList c.server.loop c'.server.loop

theorem Fixes.loops {m : CmdM ι κ α} (fixes : Fixes Server.loop m) (c : Call ι κ) : Loops sigList m c := by
  refine (fixes.maintains _ c rfl).mono ?_ ?_
  · exact fun _ c' same => same.symm ▸ .same
  · exact fun _ c' same => same.symm ▸ .same

theorem onLoop_run {m : LoopM ι α} {refused : Bytes → Call ι κ → Prop} :
    Settles (onLoop m) c (fun a c' => ∃ loop, m.run c.server.loop = some (a, loop) ∧ c' = withLoop c loop) refused :=
  settles_onLoop fun _ loop run => ⟨loop, run, rfl⟩

/-- `ctl_get_arg_service` is the same function in both. -/
theorem getArgService_run (existing : Bool) (mem : Option ι) :
    Settles (getArgService existing mem) c
      (fun x c' => (ctlGetArgService existing mem c.command).run c.server.loop = some ((c'.command, .ok x), c'.server.loop))
      fun _ c' => ∃ message,
        (ctlGetArgService existing mem c.command).run c.server.loop = some ((c'.command, .error message), c'.server.loop) := by
  apply Settles.get_bind
  apply Settles.get_bind
  apply onLoop_run.bind
  rintro ⟨rest, result⟩ _ ⟨loop, run, rfl⟩
  apply Settles.modify_bind
  cases result with
  | error message => exact settles_throw _ ⟨message, run⟩
  | ok x =>
    dsimp only
    split
    · exact .modify_bind (settles_pure x run)
    · exact settles_pure x run

variable {s s' : Supervisor ι}

theorem inPhase_run {phase : Phase} {m : LoopM ι Unit} (here : s.phase = phase)
    (run : m.run s = some ((), s')) : (inPhase phase m).run s = some ((), s') := by
  simp only [inPhase, StateT.run_bind, StateT.run_get, Option.pure_def, Option.bind_eq_bind, Option.bind_some, here, if_true]
  exact run

theorem run_bind_of_run {σ β : Type} {m : StateT σ Option α} {f : α → StateT σ Option β} {s s' : σ} {a : α}
    (run : m.run s = some (a, s')) : (m >>= f).run s = (f a).run s' := by
  rw [StateT.run_bind, run]
  rfl

theorem run_get_bind {σ β : Type} {f : σ → StateT σ Option β} {s : σ} : (get >>= f).run s = (f s).run s := rfl

theorem loopStep_of_run (event : LoopEvent ι) {m : LoopM ι Unit}
    (program : loopProgram sigList event = inPhase .commands m) (phase : s.phase = .commands) (run : m.run s = some ((), s')) :
    loopStep sigList s event = some s' := by
  rw [loopStep, program, inPhase_run phase run]
  rfl

/-- A step of the main loop that runs a command and drops its result. -/
theorem loopCommand_of_run (event : LoopEvent ι) {m : LoopM ι α} {a : α}
    (program : loopProgram sigList event = inPhase .commands (do let _ ← m)) (phase : s.phase = .commands)
    (run : m.run s = some (a, s')) : LoopCommand sigList s s' := by
  refine .step (loopStep_of_run event program phase ?_)
  rw [run_bind_of_run run]
  rfl

/-! ## Variables -/

theorem fixes_svcSetVar (x : ι) (name : Bytes) (value : Option Bytes) (stored : Bool) :
    Fixes Server.loop (svcSetVar x name value stored : CmdM ι κ Bool) :=
  .get_bind fun _ => .ite (.bind (.modifyServer fun _ => rfl) fun _ => .pure _) (.pure _)

theorem fixes_svcSetFds (x : ι) (newFds : Bytes) (stored : Bool) :
    Fixes Server.loop (svcSetFds x newFds stored : CmdM ι κ Bool) := by
  have stores : Fixes Server.loop (storeFds x newFds stored : CmdM ι κ Bool) :=
    .ite (.bind (fixes_svcSetVar ..) fun _ => .pure _) (fixes_svcSetVar ..)
  exact .bind stores fun _ => .ite (.bind (.modifyServer fun _ => rfl) fun _ => .pure _) (.pure _)

/-- The service is looked up or made, as for any command that sets something. -/
theorem getArgService_loops (phase : c.server.loop.phase = .commands) (mem : Option ι) :
    Settles (getArgService false mem) c
      (fun x c' => (ctlGetArgService false mem c.command).run c.server.loop = some ((c'.command, .ok x), c'.server.loop) ∧
        LoopCommand sigList c.server.loop c'.server.loop)
      fun _ c' => LoopCommand sigList c.server.loop c'.server.loop := by
  have created : ∀ {result : StrSeg × Except String ι} {s' : Supervisor ι},
      (ctlGetArgService false mem c.command).run c.server.loop = some (result, s') → LoopCommand sigList c.server.loop s' :=
    loopCommand_of_run (.create mem c.command) rfl phase
  refine (getArgService_run false mem).mono ?_ ?_
  · exact fun _ _ run => ⟨run, created run⟩
  · rintro _ _ ⟨message, run⟩
    exact created run

/-- A command that makes a service if there is none, and then sets variables. -/
theorem loops_created {f : ι → CmdM ι κ α} (phase : c.server.loop.phase = .commands) (mem : Option ι)
    (rest : ∀ x, Fixes Server.loop (f x)) : Loops sigList (getArgService false mem >>= f) c := by
  apply (getArgService_loops phase mem).bind
  rintro x c' ⟨-, move⟩
  refine ((rest x).maintains _ c' rfl).mono ?_ ?_
  · exact fun _ _ same => same.symm ▸ move
  · exact fun _ _ same => same.symm ▸ move

theorem ctlCmdSvcVar_loops (phase : c.server.loop.phase = .commands) (var : SvcVar) (name message : String) (env : CallEnv ι κ) :
    Loops sigList (ctlCmdSvcVar var name message env) c := by
  refine loops_created phase _ fun x => .get_bind fun c => .bind (fixes_svcSetVar ..) fun done => .ite ?_ (.refuse _)
  exact .bind (.svcOf x) fun _ => .bind (.svcGetVar ..) fun _ => .tellAll _

theorem ctlCmdSvcFds_loops (phase : c.server.loop.phase = .commands) (env : CallEnv ι κ) : Loops sigList (ctlCmdSvcFds env) c := by
  refine loops_created phase _ fun x => .get_bind fun c => .bind (.checkFdNames _) fun _ => ?_
  refine .bind (fixes_svcSetFds ..) fun done => .ite ?_ (.refuse _)
  exact .bind (.svcOf x) fun _ => .bind (.svcGetVar ..) fun _ => .tellAll _

/-! ## `service.auto_up` -/

/-- The interval is set, if there is one. -/
def Timed (x : ι) (interval : Option ℤ) (s s' : Supervisor ι) : Prop :=
  match interval with
  | none => s' = s
  | some interval => (onDaemon (svcSetRestartInterval x interval)).run s = some ((), s')

/-- The interval is set as `ctl_cmd_svc_auto_up` does it. -/
theorem takeInterval_run (x : ι) :
    Settles (takeInterval x) c
      (fun _ c' => ∃ interval, autoUpArgs c.command = some (interval, c'.command) ∧
        Timed x interval c.server.loop c'.server.loop ∧ c'.server = { c.server with loop := c'.server.loop })
      fun _ c' => c'.server = c.server ∧ autoUpArgs c.command = none := by
  apply Settles.get_bind
  dsimp only
  generalize number : ctlGetArgInt c.command = taken
  obtain ⟨rest, result⟩ := taken
  apply Settles.modify_bind
  cases result with
  | error message =>
    dsimp only
    split
    case isTrue dash => exact settles_pure _ ⟨none, by simp [autoUpArgs, number, dash], rfl, rfl⟩
    case isFalse other => exact settles_throw _ ⟨rfl, by simp [autoUpArgs, number, other]⟩
  | ok interval =>
    dsimp only
    split
    case isTrue invalid => exact settles_throw _ ⟨rfl, by simp [autoUpArgs, number, invalid]⟩
    case isFalse valid =>
      refine onLoop_run.mono ?_ fun _ _ => id
      rintro _ _ ⟨loop, run, rfl⟩
      exact ⟨some (interval <<< (32 : ℕ)), by rw [autoUpArgs, number]; exact if_neg valid, run, rfl⟩

theorem setTriggers_run (x : ι) (triggers : Bytes) (stored : Bool) {refused : Bytes → Call ι κ → Prop} :
    Settles (setTriggers sigList x triggers stored) c
      (fun done c' => (svcSetTriggers sigList x triggers
          (hasRoom (c.server.vars x) (bytesOf "triggers") (listValue (some triggers)) stored)).run c.server.loop =
            some (done, c'.server.loop) ∧
        (done = false → c'.server = { c.server with loop := c'.server.loop })) refused := by
  apply Settles.get_bind
  apply onLoop_run.bind
  rintro done _ ⟨loop, run, rfl⟩
  cases done with
  | true => exact .modify_bind (settles_pure _ ⟨run, nofun⟩)
  | false => exact settles_pure _ ⟨run, fun _ => rfl⟩

variable {rest : StrSeg} {x : ι}

theorem ctlCmdSvcAutoUp_run {mem : Option ι} {command triggers : StrSeg} {interval : Option ℤ} {done room : Bool}
    {s₁ s₂ s₃ : Supervisor ι} (named : (ctlGetArgService false mem command).run s = some ((rest, .ok x), s₁))
    (args : autoUpArgs rest = some (interval, triggers))
    (timed : Timed x interval s₁ s₂)
    (set : (svcSetTriggers sigList x (triggers.getD []) room).run s₂ = some (done, s₃)) :
    ∃ result, (ctlCmdSvcAutoUp sigList mem room command).run s = some (result, s₃) := by
  have last : ∃ result, (do
      if ← svcSetTriggers sigList x (triggers.getD []) room then return .ok ()
      else return .error "unable to set auto_up triggers" : LoopM ι (Except String Unit)).run s₂ = some (result, s₃) := by
    rw [run_bind_of_run set]
    cases done with
    | true => exact ⟨.ok (), rfl⟩
    | false => exact ⟨.error _, rfl⟩
  rw [ctlCmdSvcAutoUp, run_bind_of_run named]
  rw [autoUpArgs] at args
  dsimp only
  cases number : ctlGetArgInt rest with
  | mk rest' result =>
    rw [number] at args
    cases result with
    | error message =>
      dsimp only at args ⊢
      split at args
      case isTrue dash =>
        cases args
        rw [if_pos dash]
        cases timed
        exact last
      case isFalse => cases args
    | ok value =>
      dsimp only at args ⊢
      split at args
      case isTrue => cases args
      case isFalse valid =>
        cases args
        rw [if_neg valid, run_bind_of_run timed]
        exact last

theorem ctlCmdSvcAutoUp_loops (phase : c.server.loop.phase = .commands) (env : CallEnv ι κ) :
    Loops sigList (Commands.ctlCmdSvcAutoUp sigList env) c := by
  apply (getArgService_loops phase env.svcMem).bind
  rintro x c₁ ⟨named, created⟩
  apply ((takeInterval_run x).mono (fun _ _ => id) fun _ c₂ refused => ?_).bind
  swap
  · rw [refused.1]
    exact created
  rintro _ c₂ ⟨interval, args, timed, -⟩
  apply Settles.get_bind
  apply (setTriggers_run x _ env.stored).bind
  rintro done c₃ ⟨set, -⟩
  obtain ⟨result, run⟩ := ctlCmdSvcAutoUp_run named args timed set
  have move : LoopCommand sigList c.server.loop c₃.server.loop := loopCommand_of_run (.autoUp env.svcMem _ c.command) rfl phase run
  have tells : Fixes Server.loop (if done then do
        let svc ← svcOf x
        tellAll (.svcAutoUp svc.name svc.restartInterval (← svcGetVar x (bytesOf "triggers") []))
      else refuse "unable to set auto_up triggers" : CmdM ι κ Unit) :=
    .ite (.bind (.svcOf x) fun _ => .bind (.svcGetVar ..) fun _ => .tellAll _) (.refuse _)
  refine (tells.maintains _ c₃ rfl).mono ?_ ?_
  · exact fun _ _ same => same.symm ▸ move
  · exact fun _ _ same => same.symm ▸ move

/-! ## `service.start` -/

/-- The end of `ctl_cmd_svc_start`, in the main loop. -/
def loopStart (x : ι) (configured : Bool) (startTime : ℤ) : LoopM ι (Except String Unit) := do
  if configured = false then return .error "no args configured for service"
  else if ← onDaemon (svcHandleStart x startTime) then
    modify fun s => { s with requested := Function.update s.requested x true }
    return .ok ()
  else return .error "service is not startable"

/-- The state afterwards is one that the program of the main loop can end in. -/
def Reaches (m : Bool → LoopM ι (Except String Unit)) (s s' : Supervisor ι) : Prop :=
  ∃ configured result, (m configured).run s = some (result, s')

theorem startService_run (x : ι) (startTime : ℤ) :
    Settles (startService x startTime) c (fun _ c' => Reaches (loopStart x · startTime) c.server.loop c'.server.loop)
      fun _ c' => Reaches (loopStart x · startTime) c.server.loop c'.server.loop := by
  have unconfigured : ∀ s : Supervisor ι, Reaches (loopStart x · startTime) s s := fun s => ⟨false, .error _, rfl⟩
  refine (Fixes.svcGetVar ..).before (fun _ c' same => same ▸ unconfigured _) fun argv c₁ same => ?_
  split
  · exact settles_throw _ (same ▸ unconfigured _)
  apply onLoop_run.bind
  rintro done _ ⟨loop, run, rfl⟩
  rw [same] at run
  cases done with
  | true =>
    refine settles_modify ⟨true, .ok (), ?_⟩
    simp only [loopStart, Bool.true_eq_false, if_false]
    rw [run_bind_of_run run]
    rfl
  | false =>
    refine settles_throw _ ⟨true, .error "service is not startable", ?_⟩
    simp only [loopStart, Bool.true_eq_false, if_false]
    rw [run_bind_of_run run]
    rfl

/-- What `ctl_cmd_svc_start` does once it knows the service. -/
def loopStartArgs (x : ι) (rest : StrSeg) (configured : Bool) : LoopM ι (Except String Unit) := do
  let now := (← get).daemon.now
  match ctlPeekArg rest with
  | none => loopStart x configured now
  | some when =>
      if strsegCmp when (bytesOf "-") = 0 then
        if ← onDaemon (svcCancelStart x) then return .ok ()
        else return .error "no service.start pending"
      else
        match ctlGetArgTs rest with
        | (_, .error _) => return .error "invalid timestamp"
        | (_, .ok startTime) =>
            if wrap 64 (startTime - now) < -100000 then return .error "invalid timestamp"
            else loopStart x configured startTime

variable {configured : Bool}

theorem loopStartArgs_now (peek : ctlPeekArg rest = none) :
    (loopStartArgs x rest configured).run s = (loopStart x configured s.daemon.now).run s := by
  rw [loopStartArgs, run_get_bind, peek]

theorem loopStartArgs_cancel {when : Bytes}
    (peek : ctlPeekArg rest = some when) (dash : strsegCmp when (bytesOf "-") = 0) :
    (loopStartArgs x rest configured).run s = (do
      if ← onDaemon (svcCancelStart x) then return .ok ()
      else return .error "no service.start pending" : LoopM ι (Except String Unit)).run s := by
  rw [loopStartArgs, run_get_bind, peek]
  dsimp only
  rw [if_pos dash]

theorem loopStartArgs_at {when : Bytes}
    (peek : ctlPeekArg rest = some when) (other : strsegCmp when (bytesOf "-") ≠ 0) :
    (loopStartArgs x rest configured).run s = (match (ctlGetArgTs rest).2 with
      | .error _ => return .error "invalid timestamp"
      | .ok startTime =>
          if wrap 64 (startTime - s.daemon.now) < -100000 then return .error "invalid timestamp"
          else loopStart x configured startTime : LoopM ι (Except String Unit)).run s := by
  rw [loopStartArgs, run_get_bind, peek]
  dsimp only
  rw [if_neg other]
  obtain ⟨_, _ | _⟩ := ctlGetArgTs rest <;> rfl

theorem ctlCmdSvcStart_run {command : StrSeg} {s₁ : Supervisor ι}
    (named : (ctlGetArgService true none command).run s = some ((rest, .ok x), s₁)) :
    (ctlCmdSvcStart configured command).run s = (loopStartArgs x rest configured).run s₁ := by
  rw [ctlCmdSvcStart, run_bind_of_run named]
  rfl

theorem ctlCmdSvcStart_loops (phase : c.server.loop.phase = .commands) (env : CallEnv ι κ) :
    Loops sigList (Commands.ctlCmdSvcStart env) c := by
  apply ((getArgService_run true none).mono (fun _ _ => id) ?_).bind
  swap
  · rintro _ c' ⟨message, named⟩
    have run : (ctlCmdSvcStart true c.command).run c.server.loop = some (.error message, c'.server.loop) := by
      rw [ctlCmdSvcStart, run_bind_of_run named]
      rfl
    exact loopCommand_of_run (.start true c.command) rfl phase run
  intro x c₁ named
  have moves : ∀ {s' : Supervisor ι}, Reaches (loopStartArgs x c₁.command) c₁.server.loop s' → LoopCommand sigList c.server.loop s' := by
    rintro s' ⟨configured, result, run⟩
    exact loopCommand_of_run (.start configured c.command) rfl phase ((ctlCmdSvcStart_run named).trans run)
  have starts : ∀ {c₂ : Call ι κ} {startTime : ℤ}, c₂.server = c₁.server →
      (∀ configured, (loopStartArgs x c₁.command configured).run c₁.server.loop = (loopStart x configured startTime).run c₁.server.loop) →
      Settles (startService x startTime) c₂ (fun _ c' => LoopCommand sigList c.server.loop c'.server.loop)
        fun _ c' => LoopCommand sigList c.server.loop c'.server.loop := by
    intro c₂ startTime same args
    refine (startService_run x startTime).mono ?_ ?_
    · rintro _ c' ⟨configured, result, run⟩
      exact moves ⟨configured, result, (args configured).trans (same ▸ run)⟩
    · rintro _ c' ⟨configured, result, run⟩
      exact moves ⟨configured, result, (args configured).trans (same ▸ run)⟩
  apply Settles.get_bind
  apply Settles.get_bind
  cases peek : ctlPeekArg c₁.command with
  | none => exact starts rfl fun configured => loopStartArgs_now peek
  | some when =>
    dsimp only
    split
    case isTrue dash =>
      apply onLoop_run.bind
      rintro done _ ⟨loop, run, rfl⟩
      cases done with
      | true =>
        refine settles_pure _ (moves ⟨true, .ok (), ?_⟩)
        rw [loopStartArgs_cancel peek dash, run_bind_of_run run]
        rfl
      | false =>
        refine settles_throw _ (moves ⟨true, .error "no service.start pending", ?_⟩)
        rw [loopStartArgs_cancel peek dash, run_bind_of_run run]
        rfl
    case isFalse other =>
      apply ((takeArgOr_settles ..).mono (fun _ _ => id) ?_).bind
      swap
      · rintro _ _ ⟨rfl, ⟨message, failed⟩, -⟩
        refine moves ⟨true, .error "invalid timestamp", ?_⟩
        rw [loopStartArgs_at peek other, failed]
        rfl
      rintro startTime _ ⟨found, rfl⟩
      split
      case isTrue early =>
        refine settles_throw _ (moves ⟨true, .error "invalid timestamp", ?_⟩)
        rw [loopStartArgs_at peek other, found]
        exact congrArg (StateT.run · c₁.server.loop) (if_pos early)
      case isFalse timely =>
        refine starts rfl fun configured => ?_
        rw [loopStartArgs_at peek other, found]
        exact congrArg (StateT.run · c₁.server.loop) (if_neg timely)

/-! ## The other commands -/

/-- The service that a command is about is the one with its name. -/
theorem ctlGetArgService_byName (command : StrSeg) (s : Supervisor ι) :
    Ensures (ctlGetArgService true none command) s fun result _ => ∀ x, result.2 = .ok x →
      ∃ name, (svcByName name false none).run s.daemon = some (some x, s.daemon) := by
  rw [ctlGetArgService]
  split
  · exact ensures_pure (by rintro _ ⟨⟩)
  next name rest _ =>
    split
    · exact ensures_pure (by rintro _ ⟨⟩)
    split
    · exact ensures_pure (by rintro _ ⟨⟩)
    refine Ensures.get_bind ?_
    have looked : Ensures (onDaemon (svcByName name (!true) none)) s fun found _ =>
        (svcByName name false none).run s.daemon = some (found, s.daemon) := by
      refine Ensures.zoom fun found daemon run => ?_
      obtain rfl := (peeks_svcByName name).ensures _ _ _ run
      exact run
    refine looked.bind fun found s₁ run => ?_
    cases found with
    | none => exact ensures_pure (by rintro _ ⟨⟩)
    | some x =>
      have same : ∀ s', Ensures (pure (rest, .ok x) : LoopM ι (StrSeg × Except String ι)) s' fun result _ =>
          ∀ y, result.2 = .ok y → ∃ name, (svcByName name false none).run s.daemon = some (some y, s.daemon) := by
        refine fun s' => ensures_pure ?_
        rintro y same
        cases same
        exact ⟨name, run⟩
      dsimp only
      split
      · exact Ensures.modify_bind (same _)
      · exact same _

theorem onDaemon_congr {m m' : SvcM ι α} (same : m.run s.daemon = m'.run s.daemon) :
    (onDaemon m).run s = (onDaemon m').run s := congrArg (Option.map _) same

section Known

variable (shows : Shows c.server.loop.daemon v) (orderly : Orderly v)
include shows orderly

theorem ctlCmdSvcSignal_loops (env : CallEnv ι κ) : Loops sigList (ctlCmdSvcSignal sigList env) c := by
  refine (ctlCmdSvcSignal_settles shows orderly sigList env).mono ?_ ?_
  · exact fun _ c' signals => signals.1 ▸ .same
  · exact fun _ c' signals => signals.1 ▸ .same

theorem ctlCmdSvcDelete_loops (phase : c.server.loop.phase = .commands) (env : CallEnv ι κ) :
    Loops sigList (Commands.ctlCmdSvcDelete env) c := by
  have named : Settles (getArgService true none) c
      (fun x c' => c'.server = c.server ∧ ∃ name, (svcByName name false none).run c.server.loop.daemon = some (some x, c.server.loop.daemon))
      fun _ c' => LoopCommand sigList c.server.loop c'.server.loop := by
    refine ((getArgService_existing shows orderly).and (getArgService_run true none)).mono ?_ ?_
    · rintro x _ ⟨⟨-, name, rest, -, -, rfl⟩, run⟩
      exact ⟨rfl, ctlGetArgService_byName _ _ _ _ run x rfl⟩
    · rintro _ c' ⟨same, -⟩
      exact same ▸ .same
  apply named.bind
  rintro x c₁ ⟨same, name, found⟩
  apply Settles.get_bind
  rw [same]
  split
  case isTrue => exact settles_throw _ (same ▸ .same)
  case isFalse ended =>
    apply Settles.modify_bind
    refine onLoop_run.mono ?_ fun _ _ => id
    rintro _ _ ⟨loop, run, rfl⟩
    have deletes : (ctlCmdSvcDelete name).run c.server.loop.daemon = (svcDelete x).run c.server.loop.daemon := by
      rw [ctlCmdSvcDelete, withService, run_bind_of_run found]
      dsimp only
      rw [run_bind_of_run (show (svcAt x).run c.server.loop.daemon = some (c.server.loop.daemon.objects x, c.server.loop.daemon) from rfl),
        if_neg ended]
    rw [same] at run
    exact .step (loopStep_of_run (.delete name) rfl phase ((onDaemon_congr deletes).trans run))

end Known

theorem ctlCmdSignalClear_loops (phase : c.server.loop.phase = .commands) (env : CallEnv ι κ) :
    Loops sigList (Commands.ctlCmdSignalClear sigList env) c := by
  apply ((takeArg_settles ..).mono (fun _ _ => id) ?_).bind
  swap
  · rintro _ _ ⟨rfl, -⟩
    exact .same
  rintro signum _ ⟨found, rfl⟩
  apply ((takeArg_settles ..).mono (fun _ _ => id) ?_).bind
  swap
  · rintro _ _ ⟨rfl, -⟩
    exact .same
  rintro count _ ⟨number, rfl⟩
  have args : signalClearArgs sigList c.command = .ok (signum, count) := by
    have first : ctlGetArgSignal sigList c.command = (_, .ok signum) := Prod.ext rfl found
    have second : ctlGetArgInt (ctlGetArgSignal sigList c.command).1 = (_, .ok count) := Prod.ext rfl number
    rw [signalClearArgs, first]
    dsimp only
    rw [second]
  have cleared : (ctlCmdSignalClear sigList c.server.loop.sig c.command).1 = sigMarkSeen c.server.loop.sig signum count := by
    rw [ctlCmdSignalClear, args]
  refine settles_modify (.step (loopStep_of_run (.clear c.command) rfl phase ?_))
  dsimp only
  rw [← cleared]
  rfl

theorem ctlCmdTerminate_loops (env : CallEnv ι κ) : Loops sigList (ctlCmdTerminate env) c := by
  have stays : ∀ {c' : Call ι κ}, c'.server = c.server → LoopCommand sigList c.server.loop c'.server.loop := fun same => same ▸ .same
  refine (Fixes.takeArg _).before (fun _ _ => stays) fun x c₁ same₁ => ?_
  apply Settles.get_bind
  apply ((checkGuard_settles ..).mono (fun _ _ => id) fun _ c' refused => stays (refused.1.trans same₁)).bind
  rintro _ c₂ ⟨same₂, -⟩
  have same := same₂.trans same₁
  apply Settles.get_bind
  split
  · exact settles_throw _ (stays same)
  · refine settles_modify ?_
    dsimp only
    rw [same]
    exact .wake

/-- What a command does to the main loop is a step of it. -/
theorem serverHandler_loops (shows : Shows c.server.loop.daemon v) (orderly : Orderly v) (phase : c.server.loop.phase = .commands)
    (passed : Option ℤ) (env : CallEnv ι κ) (command : ServerCommand) :
    Loops sigList (serverHandler sigList passed env command) c := by
  have handles : FreeOfHandles (Server.loop : Server ι κ → Supervisor ι) := fun _ _ _ _ _ => rfl
  cases command with
  | svcTags | svcArgs => exact ctlCmdSvcVar_loops phase ..
  | svcFds => exact ctlCmdSvcFds_loops phase env
  | svcAutoUp => exact ctlCmdSvcAutoUp_loops phase env
  | svcStart => exact ctlCmdSvcStart_loops phase env
  | svcSignal => exact ctlCmdSvcSignal_loops shows orderly env
  | svcDelete => exact ctlCmdSvcDelete_loops shows orderly phase env
  | signalClear => exact ctlCmdSignalClear_loops phase env
  | terminate => exact ctlCmdTerminate_loops env
  | terminateGuard => exact (Fixes.ctlCmdTerminateGuard (fun _ _ _ => rfl) env).loops c
  | terminateExecArgs => exact (Fixes.ctlCmdTerminateExecArgs (fun _ _ _ => rfl) env).loops c
  | socketCreate => exact (Fixes.ctlCmdSocketCreate handles.sockets env).loops c
  | socketDelete => exact (Fixes.ctlCmdSocketDelete handles.sockets env).loops c
  | fdPipe => exact (Fixes.ctlCmdFdPipe handles env).loops c
  | fdOpen => exact (Fixes.ctlCmdFdOpen handles env).loops c
  | fdSocket => exact (Fixes.ctlCmdFdSocket handles env).loops c
  | fdDelete => exact (Fixes.ctlCmdFdDelete handles env).loops c
  | fdTake =>
    cases passed with
    | none => exact (Fixes.refuse _).loops c
    | some fd => exact (Fixes.ctlCmdFdTake handles fd env).loops c
  | chdir => exact (Fixes.ctlCmdChdir env).loops c
  | logFilter => exact (Fixes.ctlCmdLogFilter handles.sockets env).loops c
  | logDest => exact (Fixes.ctlCmdLogDest handles.sockets env).loops c

end DaemonProxy.Proofs
