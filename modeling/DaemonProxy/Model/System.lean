import DaemonProxy.Model.Commands

/-! # The whole daemon

The controllers, the services, the handles and the log together. Here the state functions of the controllers take their
lines from the other modules: pending signals, the answers of commands, and what `statedump` lists. A step is one action of
`main`: it does the things of one iteration in the order of the source, but calls the state functions of the controllers in
any order and as often as it likes, between `svc_run_active` and the second loop of `ctl_run`.

Both halves of the daemon read and set `wake->next`, which is kept with the controllers. The descriptors of the controllers
and of the handles are kept apart. Left out are the greeting of an interactive session and what becomes of the handles
`stdin` and `stdout` when it starts.
-/

namespace DaemonProxy.Model

open Lib

/-- The lines of `statedump` about a service, in their order. -/
inductive DumpPart
  | state | tags | args | fds | autoUp
  deriving DecidableEq, Repr

/-- The lines from one on. -/
def DumpPart.onwards : DumpPart → List DumpPart
  | .state => [.state, .tags, .args, .fds, .autoUp]
  | .tags => [.tags, .args, .fds, .autoUp]
  | .args => [.args, .fds, .autoUp]
  | .fds => [.fds, .autoUp]
  | .autoUp => [.autoUp]

/-- Where `statedump` stands: `statedump_current`, and `command_substate` if it is not 0. -/
structure DumpPos where
  current : Bytes := []
  substate : Option DumpPart := none
deriving DecidableEq, Repr

section Iterators

variable {ι κ : Type} [DecidableEq ι] [DecidableEq κ] {α : Type}

/-- The object of a node. -/
def Ref.object? : Ref ι → Option ι
  | .node x => some x
  | _ => none

/-- `fd_iter_next` and `svc_iter_next`, on their index. -/
def iterNext (fuel : ℕ) (compare : Bytes → ι → ℤ) (current : Option ι) (fromName : Bytes) : TreeM ι (Option ι) := do
  match current with
  | some x => return (← rbTreeNodeGetNext fuel (.node x)).object?
  | none =>
      let found ← rbTreeFind fuel compare fromName
      if found.nearest = .null then return none
      else if found.relation < 0 then return found.nearest.object?
      else return (← rbTreeNodeGetNext fuel found.nearest).object?

def fdIterNext (current : Option κ) (fromName : Bytes) : FdM κ (Option κ) := do
  let s ← get
  onFdIndex fun fuel => iterNext fuel (fdByNameCompare s.objects) current fromName

def svcIterNext (svc : Option ι) (fromName : Bytes) : SvcM ι (Option ι) := do
  let s ← get
  onByName fun fuel => iterNext fuel (svcByNameCompare s.objects) svc fromName

def onFdTable (m : FdM κ α) : StateT (Server ι κ) Option α := zoom Server.fds (fun fds s => { s with fds }) m

def onSvcTable (m : SvcM ι α) : StateT (Server ι κ) Option α :=
  zoom (fun s => s.loop.daemon) (fun daemon s => { s with loop := { s.loop with daemon } }) m

/-- The value of a variable in a line of `statedump`. -/
def varText (x : ι) (name unset : Bytes) : StateT (Server ι κ) Option Bytes := do
  match packedGet ((← get).vars x) name with
  | some value => return value.getD unset
  | none => failure

/-- A line about a service. -/
def dumpNotice (x : ι) (part : DumpPart) : StateT (Server ι κ) Option Notice := do
  let daemon := (← get).loop.daemon
  let svc := daemon.objects x
  match part with
  | .state =>
      onSvcTable (svcNotifyState x)
      return .svcState daemon.now ⟨svc.name, svc.startTime, svc.reapTime, svc.waitStatus, svc.pid⟩
  | .tags => return .svcVar .tags svc.name (← varText x (bytesOf "tags") [])
  | .args => return .svcVar .args svc.name (← varText x (bytesOf "args") [])
  | .fds => return .svcVar .fds svc.name (← varText x (bytesOf "fds") Bytewise.nullFds)
  | .autoUp => return .svcAutoUp svc.name svc.restartInterval (← varText x (bytesOf "triggers") [])

end Iterators

structure System (n : ℕ) (ι κ : Type) where
  world : World n
  server : Server ι κ
  /-- `last_signal_ts`. -/
  lastSignalTs : Fin n → ℤ
  dump : Fin n → DumpPos
  /-- `interactive_controller`. -/
  interactive : Option (Fin n)
  /-- The iteration is over, but for `select`. -/
  waiting : Bool

abbrev SysM (n : ℕ) (ι κ : Type) := StateT (System n ι κ) Option

namespace System

variable {n : ℕ} {ι κ : Type} [DecidableEq ι] [DecidableEq κ] {α : Type}

/-! ## The parts -/

/-- The daemon without its controllers, with `wake->next`. -/
def awakeServer (s : System n ι κ) : Server ι κ :=
  { s.server with loop := { s.server.loop with daemon := { s.server.loop.daemon with next := s.world.next } } }

def setServer (server : Server ι κ) (s : System n ι κ) : System n ι κ :=
  { s with server, world := { s.world with next := server.loop.daemon.next } }

def onServer (m : StateT (Server ι κ) Option α) : SysM n ι κ α := zoom awakeServer setServer m

/-- `main_notify_controller_freed`, for the interactive controller. -/
def mainNotifyControllerFreed (s : System n ι κ) : System n ι κ :=
  if s.server.terminateGuard = 0 then
    { s with interactive := none, server := { s.server with terminate := true }, world := { s.world with next := s.world.now } }
  else { s with interactive := none }

/-- The controller was free, and now is not. -/
def allocated (before after : World n) (i : Fin n) : Bool := (before.client i).stateFn.isNone && (after.client i).stateFn.isSome

/-- The controller is free now, and was not. -/
def freed (before after : World n) (i : Fin n) : Bool := allocated after before i

/-- New controllers are zero-filled, and `main` hears of those that were freed. -/
def noteClients (before : World n) (s : System n ι κ) : System n ι κ :=
  let s := { s with
    lastSignalTs := fun i => if allocated before s.world i then 0 else s.lastSignalTs i
    dump := fun i => if allocated before s.world i then {} else s.dump i }
  if s.interactive.any (freed before s.world) then s.mainNotifyControllerFreed else s

/-- A function on the controllers. -/
def onWorld (m : CtlM n α) : SysM n ι κ α := do
  let before := (← get).world
  let result ← zoom System.world (fun world s => { s with world }) m
  modify (noteClients before)
  return result

/-! ## State functions -/

section States

variable (sigList : List SigListItem)

/-- A message to one controller. -/
def tell (i : Fin n) (notice : Notice) : SysM n ι κ Unit := onWorld (ctlWrite (some i) (notice.message sigList))

/-- A message for each change of state that a part of the main loop reports. -/
def broadcast : List Notice → SysM n ι κ Unit
  | [] => return ()
  | notice :: rest => do
      onWorld (ctlWrite none (notice.message sigList))
      broadcast rest

/-- The loop of `ctl_deliver_signals`, which sees every slot at most once. -/
def deliverLoop (i : Fin n) : ℕ → SysM n ι κ Bool
  | 0 => failure
  | fuel + 1 => do
      let s ← get
      match sigGetNewEvents s.server.loop.sig.signals.slots (s.lastSignalTs i) with
      | none => return true
      | some event =>
          if ← onWorld (ctlOutBufReady i) then
            tell sigList i (.signal event.signum event.lastReceivedTs event.numberPending)
            modify fun s => { s with lastSignalTs := Function.update s.lastSignalTs i event.lastReceivedTs }
            deliverLoop i fuel
          else return false

def ctlDeliverSignals (i : Fin n) : SysM n ι κ Bool := deliverLoop sigList i (signalStatusSlots + 1)

def ctlStateNextCommand (i : Fin n) : SysM n ι κ Bool := do
  if ← ctlDeliverSignals sigList i then onWorld (Model.ctlStateNextCommand i ⟨[], [], none⟩)
  else return false

/-- The command that a controller is to execute, and its arguments. -/
def commandLine (s : System n ι κ) (i : Fin n) : Bytes × StrSeg :=
  splitAtSep 9 ((s.world.client i).recv.buf.take ((s.world.client i).recv.lineLen - 1))

/-- What a handler of another module contributes to the command in the buffer of a controller. -/
def serverCall (env : CallEnv ι κ) (passed : Option ℤ) (name : Bytes) (args : StrSeg) : StateT (Server ι κ) Option CallInput :=
  fun server =>
    match findServerCommand name with
    | none => some (⟨[], [], none⟩, server)
    | some command => (runServerCommand sigList passed env command args server).map fun outcome =>
        (⟨[], outcome.out.map fun (toAll, notice) => (toAll, notice.message sigList), outcome.error⟩, outcome.server)

/-- The line in the buffer is dispatched. -/
def dispatchLine (i : Fin n) (env : CallEnv ι κ) : SysM n ι κ Unit := do
  let s ← get
  let line := s.commandLine i
  let input ← onServer (serverCall sigList env (s.world.client i).recv.ancillaryFd.head? line.1 line.2)
  onWorld (Model.dispatchLine i input)
  if ctlFindCommand line.1 = some .statedump then
    modify fun s => { s with dump := Function.update s.dump i {} }

/-- A line that was longer than the buffer; a comment may be. -/
def rejectLongLine (i : Fin n) : CtlM n Unit := do
  let recv := ((← get).client i).recv
  modify (·.setRecv i { recv with overflow := false })
  if recv.buf.head? ≠ some 35 then
    modify fun w => w.setLog i { w.log i with items := (w.log i).items ++ [.tooLong] }
    ctlNotifyError i (bytesOf "line too long")

def ctlStateRunCommand (i : Fin n) (env : CallEnv ι κ) : SysM n ι κ Bool := do
  if ← onWorld (ctlOutBufReady i) then
    onWorld (modify (·.setState i .endCommand))
    if ((← get).world.client i).recv.overflow then onWorld (rejectLongLine i)
    else dispatchLine sigList i env
    return true
  else return false

/-! ## The states of `statedump` -/

/-- The loop of `ctl_state_dump_fds`, from the call of `fd_iter_next` on; it ends with the handle whose turn it is when the
output is blocked. -/
def dumpFdsLoop (i : Fin n) (fromName : Bytes) : ℕ → Option κ → SysM n ι κ (Option κ)
  | 0, _ => failure
  | fuel + 1, fd => do
      match ← onServer (onFdTable (fdIterNext fd fromName)) with
      | none => return none
      | some x =>
          if ← onWorld (ctlOutBufReady i) then
            tell sigList i (fdNotice (← get).server.fds x)
            dumpFdsLoop i fromName fuel (some x)
          else return some x

/-- The `switch` of `ctl_state_dump_fds`: for a handle whose line is due, it jumps into the loop. -/
def resumeFds (i : Fin n) (pos : DumpPos) (fd : Option κ) : SysM n ι κ (Option κ) := do
  let s ← get
  match fd, pos.substate with
  | some x, some _ =>
      if ← onWorld (ctlOutBufReady i) then
        tell sigList i (fdNotice s.server.fds x)
        dumpFdsLoop sigList i pos.current (s.server.fds.fdList.length + 1) fd
      else return fd
  | _, _ => dumpFdsLoop sigList i pos.current (s.server.fds.fdList.length + 1) fd

def ctlStateDumpFds (i : Fin n) : SysM n ι κ Bool := do
  let s ← get
  let fd ← onServer (onFdTable (fdByName (s.dump i).current))
  match ← resumeFds sigList i (s.dump i) fd with
  | some x =>
      modify fun s => { s with dump := Function.update s.dump i ⟨(s.server.fds.objects x).name, some .state⟩ }
      return false
  | none =>
      modify fun s => { s with dump := Function.update s.dump i {} }
      onWorld (Model.ctlStateDump i .dumpServices ⟨[], [], none⟩)

/-- The lines about a service, from one on; it ends with the line whose turn it is when the output is blocked. -/
def dumpParts (i : Fin n) (x : ι) : List DumpPart → SysM n ι κ (Option DumpPart)
  | [] => return none
  | part :: rest => do
      if ← onWorld (ctlOutBufReady i) then
        tell sigList i (← onServer (dumpNotice x part))
        dumpParts i x rest
      else return some part

/-- The loop of `ctl_state_dump_services`, from the call of `svc_iter_next` on. -/
def dumpServicesLoop (i : Fin n) (fromName : Bytes) : ℕ → Option ι → SysM n ι κ (Option (ι × DumpPart))
  | 0, _ => failure
  | fuel + 1, svc => do
      match ← onServer (onSvcTable (svcIterNext svc fromName)) with
      | none => return none
      | some x =>
          match ← dumpParts sigList i x DumpPart.state.onwards with
          | none => dumpServicesLoop i fromName fuel (some x)
          | some part => return some (x, part)

/-- The `switch` of `ctl_state_dump_services`: for a service with a line that is due, it jumps into the loop. -/
def resumeServices (i : Fin n) (pos : DumpPos) (svc : Option ι) : SysM n ι κ (Option (ι × DumpPart)) := do
  let s ← get
  match svc, pos.substate with
  | some x, some part =>
      match ← dumpParts sigList i x part.onwards with
      | none => dumpServicesLoop sigList i pos.current (s.server.loop.daemon.svcList.length + 1) svc
      | some part => return some (x, part)
  | _, _ => dumpServicesLoop sigList i pos.current (s.server.loop.daemon.svcList.length + 1) svc

def ctlStateDumpServices (i : Fin n) : SysM n ι κ Bool := do
  let s ← get
  let svc ← onServer (onSvcTable (svcByName (s.dump i).current false none))
  match ← resumeServices sigList i (s.dump i) svc with
  | some (x, part) =>
      modify fun s => { s with dump := Function.update s.dump i ⟨(s.server.loop.daemon.objects x).name, some part⟩ }
      return false
  | none =>
      modify fun s => { s with
        lastSignalTs := Function.update s.lastSignalTs i 0, dump := Function.update s.dump i { s.dump i with substate := none } }
      onWorld (Model.ctlStateDump i .dumpSignals ⟨[], [], none⟩)

def ctlStateDumpSignals (i : Fin n) : SysM n ι κ Bool := do
  if ← ctlDeliverSignals sigList i then onWorld (Model.ctlStateDump i .endCommand ⟨[], [], none⟩)
  else return false

/-- A call of the state function. -/
def callState (i : Fin n) (env : CallEnv ι κ) : CtlState → SysM n ι κ Bool
  | .nextCommand => ctlStateNextCommand sigList i
  | .runCommand => ctlStateRunCommand sigList i env
  | .dumpFds => ctlStateDumpFds sigList i
  | .dumpServices => ctlStateDumpServices sigList i
  | .dumpSignals => ctlStateDumpSignals sigList i
  | state => onWorld (Model.callState i state ⟨[], [], none⟩)

/-- One round of the first loop of `ctl_run`, as for the controllers alone. -/
def iterate (i : Fin n) (env : CallEnv ι κ) (last : Bool) : SysM n ι κ Unit := do
  match ((← get).world.client i).stateFn with
  | none => return ()
  | some state =>
      let again ← callState sigList i env state
      if again && !last && decide (((← get).world.client i).stateFn = some .free) then
        let _ ← onWorld (ctlStateFree i)

end States

/-! ## The machine -/

/-- `log_run`, and what it adds to `wake`. -/
def logRun (ready : ℤ → Bool) (replies : List LogReply) : SysM n ι κ Unit := do
  let s ← get
  let wake ← zoom (fun s => s.server.log) (fun log s => { s with server := { s.server with log } }) do
    modify fun log => { log with replies }
    Model.logRun s.world.now ready s.server.fds.fdnum
  match wake with
  | none => return ()
  | some (.time ts) =>
      modify fun s => { s with world := { s.world with next := if 0 < wrap 64 (s.world.next - ts) then ts else s.world.next } }
  | some (.writeable fd) => modify fun s => { s with world := { s.world with wakeWrite := fd :: s.world.wakeWrite } }

/-- `control_socket_run`, when a client waits. -/
def controlSocketRun (accepts nonblock : Bool) : SysM n ι κ Unit := do
  let w := (← get).world
  if (List.finRange n).all fun i => (w.client i).stateFn.isSome then
    let soon := wrap 64 (w.now + 5 * 4294967296)
    modify fun s => { s with world := { s.world with next := if soon < s.world.next then soon else s.world.next } }
  else onWorld (Model.controlSocketRun accepts nonblock)

/-- The second loop of `ctl_run`. -/
def outputAll : List (Fin n) → SysM n ι κ Unit
  | [] => return ()
  | i :: rest => do
      onWorld (outputPhase i)
      outputAll rest

inductive Event (n : ℕ) (ι κ : Type)
  /-- `register_open_fds`, for one descriptor. -/
  | register (i : ℕ) (fdnum : ℤ) (flags : FdFlags) (mem : Option κ)
  /-- The controllers that `main` makes: for a configuration file, and for an interactive session. -/
  | new (recvFd sendFd : ℤ) (isSocket nonblock append : Bool)
  | newInteractive (nonblock : Bool)
  /-- A signal comes in, a process ends, or one is inherited. -/
  | arrive (sig : ℤ) (positive : 0 < sig) (t : Timespec)
  | exit (pid wstat : ℤ)
  | adopt (pid : ℤ)
  | openOther
  | closeOther (fd : ℕ)
  | log (level : LogLevel) (text : Bytes) (replies : List LogReply)
  /-- The top of the loop in `main`. -/
  | iterate (t : Timespec) (ready : ℤ → Bool) (logReplies : List LogReply)
  | reap (pid : ℤ)
  /-- The control socket of a service that is started. -/
  | service (wantRead wantWrite socketpair nonblock fork : Bool)
  | runActive (fork : ι → Option ℤ) (replies : Fin n → List WriteReply)
  | accept (accepts nonblock : Bool)
  | read (i : Fin n) (reply : ReadReply) (garbage : List ℤ)
  | flush (i : Fin n) (replies : Fin n → List WriteReply)
  | call (i : Fin n) (env : CallEnv ι κ) (last : Bool) (replies : Fin n → List WriteReply)
  /-- The state machine of a controller was still running after its last round. -/
  | again
  | finish (replies : Fin n → List WriteReply) (ready : ℤ → Bool) (logReplies : List LogReply)

/-- A step at one point of the main loop. -/
def during (phase : Phase) (m : SysM n ι κ α) : SysM n ι κ α := do
  let s ← get
  if s.server.loop.phase = phase ∧ s.waiting = false then m else failure

/-- A step of the services. -/
def onLoop (m : LoopM ι α) : SysM n ι κ α :=
  onServer (zoom Server.loop (fun loop s => { s with loop }) m)

/-- `main_terminate` is seen at the top of the loop. -/
def mainTop (sigList : List SigListItem) (t : Timespec) (ready : ℤ → Bool) (logReplies : List LogReply) : SysM n ι κ Unit := do
  let s ← get
  if s.server.terminate ∨ ¬(s.server.loop.phase = .idle ∨ s.waiting) then failure
  else
    onLoop (loopProgram sigList (.iterate t))
    modify fun s => { s with waiting := false }
    onWorld (ctlProgram (.clock (gettimeMonFrac t)))
    logRun ready logReplies

/-- The names that `register_open_fds` gives. -/
def registerName : ℕ → Bytes
  | 0 => bytesOf "stdin"
  | 1 => bytesOf "stdout"
  | 2 => bytesOf "stderr"
  | i => bytesOf "fd_" ++ natText i

/-- `register_open_fds` for number `i`; the descriptor is another one when it was not open. -/
def registerFd (i : ℕ) (fdnum : ℤ) (flags : FdFlags) (mem : Option κ) : StateT (Server ι κ) Option Unit := do
  if 1024 ≤ i then failure
  else
    match ← onFdTable (fdProgram (.register (registerName i) fdnum flags mem)) with
    | .ok _ => modify fun s => { s with openFds := if 0 ≤ fdnum then fdnum :: s.openFds else s.openFds }
    | .error _ => failure

/-- `setup_interactive_mode`, for the controller; `main` calls it once. -/
def setupInteractiveMode (nonblock : Bool) : SysM n ι κ Unit := do
  let s ← get
  if s.interactive.isSome then failure
  else
    onWorld (ctlProgram (.new 0 1 false nonblock false))
    modify fun s' => { s' with interactive := (List.finRange n).find? (allocated s.world s'.world) }

def program (sigList : List SigListItem) : Event n ι κ → SysM n ι κ Unit
  | .register i fdnum flags mem => during .idle (onServer (registerFd i fdnum flags mem))
  | .new recvFd sendFd isSocket nonblock append =>
      during .idle (onWorld (ctlProgram (.new recvFd sendFd isSocket nonblock append)))
  | .newInteractive nonblock => during .idle (setupInteractiveMode nonblock)
  | .arrive sig positive t => onLoop (loopProgram sigList (.arrive sig positive t))
  | .exit pid wstat => onLoop (loopProgram sigList (.exit pid wstat))
  | .adopt pid => onLoop (loopProgram sigList (.adopt pid))
  | .openOther => onWorld (ctlProgram .openOther)
  | .closeOther fd => onWorld (ctlProgram (.closeOther fd))
  | .log level text replies =>
      zoom (fun s => s.server.log) (fun log s => { s with server := { s.server with log } })
        (logProgram (.write level text replies))
  | .iterate t ready logReplies => mainTop sigList t ready logReplies
  | .reap pid => during .reaping (onLoop (loopProgram sigList (.reap pid)))
  | .service wantRead wantWrite socketpair nonblock fork =>
      during .reaping (onWorld (ctlProgram (.service wantRead wantWrite socketpair nonblock fork)))
  | .runActive fork replies => during .reaping do
      let before := (← get).server.loop.daemon.history.length
      onLoop (loopProgram sigList (.runActive fork))
      onWorld (modify fun w => { w with replies })
      broadcast sigList (reports ((← get).server.loop.daemon.history.drop before))
  | .accept accepts nonblock => during .commands (controlSocketRun accepts nonblock)
  | .read i reply garbage => during .commands (onWorld (ctlProgram (.read i reply garbage)))
  | .flush i replies => during .commands (onWorld (ctlProgram (.flush i replies)))
  | .call i env last replies => during .commands do
      onWorld (modify fun w => { w with replies })
      iterate sigList i env last
  | .again => during .commands (onWorld (modify fun w => { w with next := w.now }))
  | .finish replies ready logReplies => during .commands do
      onWorld (modify fun w => { w with replies })
      outputAll (List.finRange n)
      logRun ready logReplies
      modify fun s => { s with waiting := true }

def step (sigList : List SigListItem) (s : System n ι κ) (event : Event n ι κ) : Option (System n ι κ) :=
  ((program sigList event).run s).map Prod.snd

/-- The state after the options are read and the special handles are made. -/
def init (standard : ℕ) (fds : FdTable κ) (openFds : List ℤ) (terminateGuard : ℤ) (execOnExit : Bool) : System n ι κ where
  world := .init n standard
  server :=
    { loop := .init, vars := fun _ => [], uses := fun _ => ⟨false, false, false⟩, fds, openFds, log := .init
      terminateGuard, execOnExit, terminate := false, exitcode := 0, controlSocket := -1, kills := [] }
  lastSignalTs _ := 0
  dump _ := {}
  interactive := none
  waiting := false

end System

end DaemonProxy.Model
