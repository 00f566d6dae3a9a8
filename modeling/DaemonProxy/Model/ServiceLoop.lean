import DaemonProxy.Model.ServiceVars
import DaemonProxy.Model.SignalLoops

/-! # Triggers and the main loop (`service.c`, `daemonproxy.c`)

`svc_run_active` wakes services by the signals that came in and runs the services of the active list. Two machines use it:
one makes the calls of `service.c` in any order, with any answers about signals; the other follows `main`, which reaps
children, runs the services and then executes commands, and takes the answers from the signal tables.

Left out are the events that `service.auto_up` and the other commands send, apart from `service.state`, and whether the
variables of a service can be stored or name a program, which is given with each command.
-/

namespace DaemonProxy.Model

open Lib

/-! ## `svc_run_active` -/

section RunActive

variable {ι : Type} [DecidableEq ι]

/-- The loop over the sigwake list for one signal. -/
def svcWake (signum : ℤ) : SvcM ι Unit := do
  let s ← get
  let _ ← Links.each Daemon.sigwakeList (fun x => do
      if (← svcAt x).autostartSignals signum then
        let _ ← svcHandleStart x (← get).now)
    s.svcList.length s.sigwakeList.head

/-- The loop over the new signals. -/
def svcWakeAll : List ℤ → SvcM ι Unit
  | [] => pure ()
  | signum :: later => do
      svcWake signum
      svcWakeAll later

/-- `svc_run`; `check` is the answer of `svc_check_sigwake`, if there is one. -/
def svcRunChecked (check : Service → Option Bool) (fork : ι → Option ℤ) (x : ι) : SvcM ι Unit := do
  let svc ← svcAt x
  if svc.state = .reaped ∧ svc.autoRestart = false then
    match check svc with
    | some triggered => svcRun x (fork x) triggered
    | none => failure
  else svcRun x (fork x) false

/-- The loop over the active list, with the services that were run. -/
def svcRunServices (check : Service → Option Bool) (fork : ι → Option ℤ) : SvcM ι (List ι) := do
  let s ← get
  Links.each Daemon.activeList (svcRunChecked check fork) s.svcList.length s.activeList.head

/-- The first part of `svc_run_active`; `signals` are those that `sig_get_new_events` returns one after the other. -/
def svcWakeNew (signals : List ℤ) : SvcM ι Unit := do
  if (← get).sigwakeList.head.isSome then svcWakeAll signals

def svcRunActive (signals : List ℤ) (check : Service → Option Bool) (fork : ι → Option ℤ) : SvcM ι (List ι) := do
  svcWakeNew signals
  svcRunServices check fork

end RunActive

/-! ## The calls of `service.c` in any order -/

section Calls

variable {ι : Type} [DecidableEq ι]

inductive SvcCall (ι : Type) where
  | create (name : Bytes) (mem : Option ι)
  | handleStart (x : ι) (when : ℤ)
  | cancelStart (x : ι)
  | handleReaped (x : ι) (wstat : ℤ)
  | run (x : ι) (fork : Option ℤ) (triggered : Bool)
  | runActive (signals : List ℤ) (check : Service → Bool) (fork : ι → Option ℤ)
  | setTriggers (x : ι) (autostart : Bool) (signals : ℤ → Bool) (enableSigs triggered : Bool)
  | delete (x : ι)
  | clock (now : ℤ)
  /-- What the kernel knows of the children changes. -/
  | children (table : ℤ → Option (Child ι))

/-- A call with the address of a service. -/
def onService (x : ι) (call : SvcM ι Unit) : SvcM ι Unit := do
  if x ∈ (← get).svcList then call else failure

def svcCallProgram : SvcCall ι → SvcM ι Unit
  | .create name mem => do
      if name ≠ [] then let _ ← svcByName name true mem
  | .handleStart x when => onService x do let _ ← svcHandleStart x when
  | .cancelStart x => onService x do let _ ← svcCancelStart x
  | .handleReaped x wstat => onService x (svcHandleReaped x wstat)
  | .run x fork triggered => onService x (svcRun x fork triggered)
  | .runActive signals check fork => do let _ ← svcRunActive signals (fun svc => some (check svc)) fork
  | .setTriggers x autostart signals enableSigs triggered =>
      onService x (svcApplyTriggers x autostart signals enableSigs triggered)
  | .delete x => onService x (svcDelete x)
  | .clock now => modify fun s => { s with now }
  | .children table => modify fun s => { s with children := table }

def svcCallStep (s : Daemon ι) (call : SvcCall ι) : Option (Daemon ι) := ((svcCallProgram call).run s).map Prod.snd

end Calls

/-! ## The main loop -/

/-- Where `main` is in its loop. -/
inductive Phase where
  /-- Before the first iteration. -/
  | idle
  /-- In front of `svc_run_active`. -/
  | reaping
  /-- In `ctl_run`. -/
  | commands
deriving DecidableEq, Repr

/-- A fork that succeeded. -/
structure ForkRecord (ι : Type) where
  service : ι
  time : ℤ
  /-- The time of the last fork for the same service, before it, that `service.start` had not asked for. -/
  previous : Option ℤ
  /-- It was `service.start` that asked for it. -/
  requested : Bool
  /-- The service has a trigger. -/
  triggered : Bool
  interval : ℤ
deriving DecidableEq, Repr

structure Supervisor (ι : Type) where
  daemon : Daemon ι
  sig : SigState
  svcLastSignalTs : ℤ
  phase : Phase
  /-- The time of the last fork for a service that `service.start` had not asked for. -/
  lastAutomatic : ι → Option ℤ
  /-- The last start of a service that was accepted was by `service.start`. -/
  requested : ι → Bool
  forks : List (ForkRecord ι)

abbrev LoopM (ι : Type) := StateT (Supervisor ι) Option

section MainLoop

variable {ι : Type} [DecidableEq ι]

def onDaemon {α : Type} (m : SvcM ι α) : LoopM ι α := zoom Supervisor.daemon (fun daemon s => { s with daemon }) m

/-- The answer of `svc_check_sigwake`, whose loop sees every slot at most once. -/
def Supervisor.checkSigwake (s : Supervisor ι) (svc : Service) : Option Bool :=
  svcCheckSigwake s.sig.signals.slots svc.sigwake svc.autostartSignals (signalStatusSlots + 1)

/-- The events that the loop of `svc_run_active` gets from `sig_get_new_events`. -/
def newEventsSince (slots : List SigStatus) : ℕ → ℤ → Option (List SigStatus)
  | 0, _ => none
  | budget + 1, since =>
      match sigGetNewEvents slots since with
      | none => some []
      | some event => (newEventsSince slots budget event.lastReceivedTs).map (event :: ·)

/-- The service is to be started by one of the events. -/
def wokenBy (events : List SigStatus) (svc : Service) : Bool :=
  svc.sigwake ∧ (svc.state = .down ∨ svc.state = .start) ∧ events.any fun event => svc.autostartSignals event.signum

def Service.hasTrigger (svc : Service) : Bool := svc.autoRestart || svc.sigwake

/-- Whether the start that a service waits for is one that `service.start` asked for, once the events have woken their
services and those that were reaped have been started again. -/
def requestedAfter (events : List SigStatus) (objects : ι → Service) (requested : ι → Bool) (x : ι) : Bool :=
  if wokenBy events (objects x) ∨ (objects x).state = .reaped then false else requested x

/-- Keeps account of the starts and forks of `svc_run_active`, from the services before and after. -/
def Supervisor.noteRun (before : ι → Service) (events : List SigStatus) (s : Supervisor ι) : Supervisor ι :=
  let after := s.daemon.objects
  let requested := requestedAfter events before s.requested
  let forked := s.daemon.svcList.filter fun x => (before x).state ≠ .up ∧ (after x).state = .up
  { s with
    requested
    lastAutomatic := fun x => if x ∈ forked ∧ requested x = false then some s.daemon.now else s.lastAutomatic x
    forks := s.forks ++ forked.map fun x =>
      ⟨x, s.daemon.now, s.lastAutomatic x, requested x, Service.hasTrigger (after x), (after x).restartInterval⟩ }

/-- `svc_run_active`, as `main` calls it. -/
def mainRunActive (fork : ι → Option ℤ) : LoopM ι Unit := do
  let s ← get
  let events := if s.daemon.sigwakeList.head.isSome then
      newEventsSince s.sig.signals.slots (signalStatusSlots + 1) s.svcLastSignalTs
    else some []
  match events with
  | none => failure
  | some events =>
      let _ ← onDaemon (svcRunActive (events.map SigStatus.signum) s.checkSigwake fork)
      modify fun s => { s with svcLastSignalTs := (events.getLast?.map SigStatus.lastReceivedTs).getD s.svcLastSignalTs }
      modify (Supervisor.noteRun s.daemon.objects events)

/-! ## Commands -/

def ctlGetArgService (existing : Bool) (mem : Option ι) (command : StrSeg) : LoopM ι (StrSeg × Except String ι) := do
  match strsegTokNext command tab with
  | none => return (command, .error "Expected service name")
  | some (name, rest) =>
      if name = [] then return (rest, .error "Expected service name")
      else if svcCheckName name = false then return (rest, .error "Invalid service name")
      else
        let before := (← get).daemon.svcList
        match ← onDaemon (svcByName name (!existing) mem) with
        | none => return (rest, .error (if existing then "No such service" else "Unable to allocate new service"))
        | some x =>
            -- A new service has no past.
            if x ∉ before then
              modify fun s => { s with
                lastAutomatic := Function.update s.lastAutomatic x none, requested := Function.update s.requested x false }
            return (rest, .ok x)

def svcSetRestartInterval (x : ι) (interval : ℤ) : SvcM ι Unit := do
  if interval >>> (32 : ℕ) < 1 then return ()
  else updateSvc x fun svc => { svc with restartInterval := interval }

/-- `svc_set_triggers`; `stored` says whether `svc_set_var` succeeds. -/
def svcSetTriggers (sigList : List SigListItem) (x : ι) (triggersTsv : Bytes) (stored : Bool) : LoopM ι Bool := do
  match Bytewise.parseTriggers sigList (triggersTsv.length + 2) (some triggersTsv) with
  | none => return false
  | some (autostart, sigs) =>
      if stored = false then return false
      else
        let s ← get
        let svc := s.daemon.objects x
        let enableSigs := !sigs.isEmpty
        let check := if autostart then some false
          else svcCheckSigwake s.sig.signals.slots enableSigs (· ∈ sigs) (signalStatusSlots + 1)
        match check with
        | none => failure
        | some triggered =>
            onDaemon (svcApplyTriggers x autostart (· ∈ sigs) enableSigs triggered)
            if (autostart || triggered) ∧ (svc.state = .down ∨ svc.state = .start) then
              modify fun s => { s with requested := Function.update s.requested x false }
            return true

/-- The interval `-`, which stands for the one that was set before. -/
def isDash : StrSeg → Bool
  | some [45] => true
  | some (45 :: 9 :: _) => true
  | _ => false

def ctlCmdSvcAutoUp (sigList : List SigListItem) (mem : Option ι) (stored : Bool) (command : StrSeg) :
    LoopM ι (Except String Unit) := do
  match ← ctlGetArgService false mem command with
  | (_, .error message) => return .error message
  | (rest, .ok x) =>
      let setTriggers (triggers : StrSeg) : LoopM ι (Except String Unit) := do
        if ← svcSetTriggers sigList x (triggers.getD []) stored then return .ok ()
        else return .error "unable to set auto_up triggers"
      match ctlGetArgInt rest with
      | (triggers, .error message) => if isDash rest then setTriggers triggers else return .error message
      | (triggers, .ok interval) =>
          if interval < 1 ∨ interval >>> (31 : ℕ) ≠ 0 then return .error "invalid interval"
          else
            onDaemon (svcSetRestartInterval x (interval <<< (32 : ℕ)))
            setTriggers triggers

def ctlGetArgTs (command : StrSeg) : StrSeg × Except String ℤ :=
  match ctlGetArgInt command with
  | (rest, .error message) => (rest, .error message)
  | (rest, .ok value) => (rest, .ok (wrap 64 (value <<< (32 : ℕ))))

/-- `ctl_cmd_svc_start`; `configured` says whether the service has arguments. -/
def ctlCmdSvcStart (configured : Bool) (command : StrSeg) : LoopM ι (Except String Unit) := do
  match ← ctlGetArgService true none command with
  | (_, .error message) => return .error message
  | (rest, .ok x) =>
      let now := (← get).daemon.now
      let start (startTime : ℤ) : LoopM ι (Except String Unit) := do
        if configured = false then return .error "no args configured for service"
        else if ← onDaemon (svcHandleStart x startTime) then
          modify fun s => { s with requested := Function.update s.requested x true }
          return .ok ()
        else return .error "service is not startable"
      match ctlPeekArg rest with
      | none => start now
      | some when =>
          if strsegCmp when (bytesOf "-") = 0 then
            if ← onDaemon (svcCancelStart x) then return .ok ()
            else return .error "no service.start pending"
          else
            match ctlGetArgTs rest with
            | (_, .error _) => return .error "invalid timestamp"
            | (_, .ok startTime) =>
                if wrap 64 (startTime - now) < -100000 then return .error "invalid timestamp"
                else start startTime

/-! ## The machine -/

/-- A pending count cannot be raised without an overflow, which is undefined for an `int`. -/
def countsFull (slots : List SigStatus) (sig : ℤ) : Bool :=
  slots.any fun slot => slot.signum = sig ∧ slot.numberPending = 2147483647

inductive LoopEvent (ι : Type) where
  /-- A signal for which `sig_handler` is installed. -/
  | arrive (sig : ℤ) (positive : 0 < sig) (t : Timespec)
  | exit (pid wstat : ℤ)
  | adopt (pid : ℤ)
  /-- The next iteration begins; the clock is monotonic. -/
  | iterate (t : Timespec)
  | reap (pid : ℤ)
  | runActive (fork : ι → Option ℤ)
  /-- `service.args` and the other commands that may create a service. -/
  | create (mem : Option ι) (command : StrSeg)
  | autoUp (mem : Option ι) (stored : Bool) (command : StrSeg)
  | start (configured : Bool) (command : StrSeg)
  | delete (name : Bytes)
  | clear (command : StrSeg)
  /-- The line about a service in a statedump. -/
  | dump (name : Bytes)

def inPhase (phase : Phase) (m : LoopM ι Unit) : LoopM ι Unit := do
  if (← get).phase = phase then m else failure

/-- The top of the loop: the time, and `sig_run`. -/
def mainIterate (t : Timespec) : LoopM ι Unit := do
  let s ← get
  let now := gettimeMonFrac t
  if s.phase = .reaping ∨ now < s.daemon.now then failure
  else if s.sig.newSignals.slots.any fun slot => slot.numberPending ≠ 0 ∧ countsFull s.sig.signals.slots slot.signum then
    failure
  else
    modify fun s => { s with
      daemon := { s.daemon with now, next := wrap 64 (now + 200 * 4294967296) }
      sig := mergeNewSignals s.sig
      phase := .reaping }

def loopProgram (sigList : List SigListItem) : LoopEvent ι → LoopM ι Unit
  | .arrive sig _ t => do
      if countsFull (← get).sig.newSignals.slots sig then failure
      else modify fun s => { s with sig := sigHandler s.sig sig t }
  | .exit pid wstat => onDaemon (svcProgram (.exit pid wstat))
  | .adopt pid => onDaemon (svcProgram (.adopt pid))
  | .iterate t => mainIterate t
  | .reap pid => inPhase .reaping (onDaemon (mainReap pid))
  | .runActive fork => inPhase .reaping do
      mainRunActive fork
      modify fun s => { s with phase := .commands }
  | .create mem command => inPhase .commands do let _ ← ctlGetArgService false mem command
  | .autoUp mem stored command => inPhase .commands do let _ ← ctlCmdSvcAutoUp sigList mem stored command
  | .start configured command => inPhase .commands do let _ ← ctlCmdSvcStart configured command
  | .delete name => inPhase .commands (onDaemon (ctlCmdSvcDelete name))
  | .clear command => inPhase .commands (modify fun s => { s with sig := (ctlCmdSignalClear sigList s.sig command).1 })
  | .dump name => inPhase .commands (onDaemon (withService name svcNotifyState))

def loopStep (sigList : List SigListItem) (s : Supervisor ι) (event : LoopEvent ι) : Option (Supervisor ι) :=
  ((loopProgram sigList event).run s).map Prod.snd

def Supervisor.init : Supervisor ι where
  daemon := .init
  sig := .init
  svcLastSignalTs := 0
  phase := .idle
  lastAutomatic _ := none
  requested _ := false
  forks := []

end MainLoop

end DaemonProxy.Model
