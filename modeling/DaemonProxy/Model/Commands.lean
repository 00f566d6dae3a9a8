import DaemonProxy.Model.ControllerRun
import DaemonProxy.Model.Events
import DaemonProxy.Model.Log
import DaemonProxy.Model.ServiceLoop
import DaemonProxy.Model.Variables

/-! # The commands (`controller.c`)

The handlers of the commands that act on more than the controller they came from. A handler works on the daemon, takes
arguments off the command and collects the messages it gives to `ctl_write`; where the source sets `command_error` and
returns false, it ends with that text, and what it has done until then stays. The answers of the kernel and of the
allocators during the call are given with it.

Left out are log messages, the directories that `mkdir` asks for, and what the addresses and paths in system calls lead
to. To read behind the variables of a service is undefined, and has no result.
-/

namespace DaemonProxy.Model

open Lib

/-! ## State -/

/-- A call of `kill`, or of `killpg`. -/
structure KillCall where
  pid : ℤ
  signum : ℤ
  group : Bool
deriving DecidableEq, Repr

/-- The daemon, but for its controllers. -/
structure Server (ι κ : Type) where
  loop : Supervisor ι
  /-- The variables of the services, packed. -/
  vars : ι → Bytes
  /-- `uses_control_socket` and the other two flags. -/
  uses : ι → ControlUses
  fds : FdTable κ
  /-- The descriptors that are open, but for those of controllers. -/
  openFds : List ℤ
  log : LogState
  /-- `opt_terminate_guard`. -/
  terminateGuard : ℤ
  /-- `opt_exec_on_exit`. -/
  execOnExit : Bool
  /-- `main_terminate`. -/
  terminate : Bool
  /-- `main_exitcode`. -/
  exitcode : ℤ
  /-- `control_socket`. -/
  controlSocket : ℤ
  kills : List KillCall

/-- What the kernel and the allocators answer during a command. -/
structure CallEnv (ι κ : Type) where
  /-- What `svc_new` and the calls of `fd_new` get. -/
  svcMem : Option ι := none
  fdMem1 : Option κ := none
  fdMem2 : Option κ := none
  /-- The variables of a service can grow. -/
  stored : Bool := true
  /-- The descriptors that `open`, `socket`, `pipe` or `socketpair` returns, if it does not fail. -/
  newFd1 : Option ℤ := none
  newFd2 : Option ℤ := none
  /-- The calls that succeed. -/
  nonblock1 : Bool := true
  nonblock2 : Bool := true
  setsockopt : Bool := true
  bind : Bool := true
  listen : Bool := true
  chdir : Bool := true
  kill : Bool := true
  removeSocket : Bool := true
  inetPton : Bytes → Bool := fun _ => true
  /-- What `fd_load_flags` finds. -/
  loadedFlags : FdFlags := {}
  /-- `strerror(errno)`, after the call that failed. -/
  strerror : Bytes := []

/-- A command that is being executed. -/
structure Call (ι κ : Type) where
  server : Server ι κ
  /-- `ctl->command`. -/
  command : StrSeg
  /-- The messages so far, to all controllers or to the one the command came from. -/
  out : List (Bool × Notice)

abbrev CallM (ι κ : Type) := StateT (Call ι κ) Option

/-- A handler ends with the text of its error, or with a result. -/
abbrev CmdM (ι κ : Type) := ExceptT Bytes (CallM ι κ)

section Parts

variable {ι κ : Type} [DecidableEq ι] [DecidableEq κ] {α : Type}

/-- `ctl->command_error= message; return false`. -/
def refuse (message : String) : CmdM ι κ α := throw (bytesOf message)

/-- The same for a text that is printed into `command_error_buf`. -/
def refuseWith (text : Bytes) : CmdM ι κ α := throw (errorBuf text)

/-- `ctl_write` to the controller itself. -/
def tell (notice : Notice) : CmdM ι κ Unit := modify fun c => { c with out := c.out ++ [(false, notice)] }

/-- `ctl_write` to all. -/
def tellAll (notice : Notice) : CmdM ι κ Unit := modify fun c => { c with out := c.out ++ [(true, notice)] }

/-- A function that takes an argument off the command, and what becomes of its message when it fails. -/
def takeArgWith (parse : StrSeg → StrSeg × Except String α) (text : String → String) : CmdM ι κ α := do
  let (rest, result) := parse (← get).command
  modify fun c => { c with command := rest }
  match result with
  | .ok value => return value
  | .error message => refuse (text message)

/-- One of the functions that take an argument off the command. -/
def takeArg (parse : StrSeg → StrSeg × Except String α) : CmdM ι κ α := takeArgWith parse id

/-- Such a function, where the handler has its own message for a failure. -/
def takeArgOr (parse : StrSeg → StrSeg × Except String α) (message : String) : CmdM ι κ α := takeArgWith parse fun _ => message

def modifyServer (f : Server ι κ → Server ι κ) : CmdM ι κ Unit := modify fun c => { c with server := f c.server }

/-- The `service.state` events among what happened to services. -/
def reports (history : List (SvcRecord ι)) : List Notice :=
  history.filterMap fun
    | .reported _ _ now svc => some (.svcState now svc)
    | _ => none

/-- A part of the main loop; the state changes that it reports are broadcast. -/
def onLoop (m : LoopM ι α) : CmdM ι κ α := do
  let before := (← get).server.loop.daemon.history.length
  let result ← (zoom (fun c => c.server.loop) (fun loop c => { c with server := { c.server with loop } }) m : CallM ι κ α)
  modify fun c => { c with
    out := c.out ++ (reports (c.server.loop.daemon.history.drop before)).map fun notice => (true, notice) }
  return result

def svcOf (x : ι) : CmdM ι κ Service := return (← get).server.loop.daemon.objects x

/-- Descriptors are closed. If the log goes to one of them, it looks for its destination again. -/
def Server.noteClosed (closed : List ℤ) (s : Server ι κ) : Server ι κ :=
  { s with
    openFds := s.openFds.filter (· ∉ closed)
    log := if s.log.fd ∈ closed then { s.log with fd := -1, blocked := true, blockedNextAttempt := 0 } else s.log }

/-- A function on the table of handles. -/
def onFds (m : FdM κ α) : CmdM ι κ α := do
  let before := (← get).server.fds.closed.length
  let result ← (zoom (fun c => c.server.fds) (fun fds c => { c with server := { c.server with fds } }) m : CallM ι κ α)
  modifyServer fun s => s.noteClosed (s.fds.closed.drop before)
  return result

/-- The number that the kernel gives to a new descriptor: one that is not in use. -/
def Server.newFd (s : Server ι κ) (offered : Option ℤ) : Option ℤ := offered.filter fun fd => 0 ≤ fd ∧ fd ∉ s.openFds

/-- `close` of a descriptor that no handle owns. -/
def Server.close (fd : ℤ) (s : Server ι κ) : Server ι κ := { s with openFds := s.openFds.erase fd }

end Parts

/-! ## Variables of services -/

section Variables

variable {ι κ : Type} [DecidableEq ι] [DecidableEq κ]

/-- `svc_set_var` finds room: it needs some only when the variables grow. -/
def hasRoom (packed name : Bytes) (value : Option Bytes) (stored : Bool) : Bool :=
  (packedSet packed name value).length ≤ packed.length || stored

def svcSetVar (x : ι) (name : Bytes) (value : Option Bytes) (stored : Bool) : CmdM ι κ Bool := do
  let packed := (← get).server.vars x
  if hasRoom packed name value stored then
    modifyServer fun s => { s with vars := Function.update s.vars x (packedSet packed name value) }
    return true
  else return false

/-- `svc_get_tags` and the others, with the value of a variable that is not set. -/
def svcGetVar (x : ι) (name unset : Bytes) : CmdM ι κ Bytes := do
  match packedGet ((← get).server.vars x) name with
  | some value => return value.getD unset
  | none => (failure : CallM ι κ Bytes)

/-- The value that a list of arguments stands for, where an empty one takes the variable away. -/
def listValue (command : StrSeg) : Option Bytes := if command.getD [] = [] then none else command

/-- The flags that `svc_set_fds` sets. -/
def controlUses (newFds : Bytes) : ControlUses :=
  let names := Bytewise.strsegTokens tab (newFds.length + 2) (some newFds)
  ⟨names.contains (bytesOf "control.socket"), names.contains (bytesOf "control.event"),
    names.contains (bytesOf "control.cmd")⟩

/-- The variable that `svc_set_fds` sets; the default is not stored. -/
def storeFds (x : ι) (newFds : Bytes) (stored : Bool) : CmdM ι κ Bool := do
  if strsegCmp newFds Bytewise.nullFds = 0 then
    let _ ← svcSetVar x (bytesOf "fds") none stored
    return true
  else svcSetVar x (bytesOf "fds") (some newFds) stored

def svcSetFds (x : ι) (newFds : Bytes) (stored : Bool) : CmdM ι κ Bool := do
  if ← storeFds x newFds stored then
    modifyServer fun s => { s with uses := Function.update s.uses x (controlUses newFds) }
    return true
  else return false

end Variables

/-! ## Services -/

section Services

variable {ι κ : Type} [DecidableEq ι] [DecidableEq κ]

/-- `ctl_get_arg_service`. A new service has no variables. -/
def getArgService (existing : Bool) (mem : Option ι) : CmdM ι κ ι := do
  let before := (← get).server.loop.daemon.svcList
  let (rest, result) ← onLoop (ctlGetArgService existing mem (← get).command)
  modify fun c => { c with command := rest }
  match result with
  | .error message => refuse message
  | .ok x =>
      if x ∉ before then
        modifyServer fun s => { s with
          vars := Function.update s.vars x [], uses := Function.update s.uses x ⟨false, false, false⟩ }
      return x

/-- `ctl_cmd_svc_tags` and `ctl_cmd_svc_args`, which differ in the variable they set. -/
def ctlCmdSvcVar (var : SvcVar) (name : String) (message : String) (env : CallEnv ι κ) : CmdM ι κ Unit := do
  let x ← getArgService false env.svcMem
  if ← svcSetVar x (bytesOf name) (listValue (← get).command) env.stored then
    tellAll (.svcVar var (← svcOf x).name (← svcGetVar x (bytesOf name) []))
  else refuse message

def ctlCmdSvcTags (env : CallEnv ι κ) : CmdM ι κ Unit := ctlCmdSvcVar .tags "tags" "unable to set tags" env

def ctlCmdSvcArgs (env : CallEnv ι κ) : CmdM ι κ Unit := ctlCmdSvcVar .args "args" "unable to set argv" env

/-- The loop of `ctl_cmd_svc_fds` over the names. -/
def checkFdNames : List Bytes → CmdM ι κ Unit
  | [] => pure ()
  | name :: rest => do
      if svcCheckName name = false then refuse "invalid fd name"
      else
        if (← onFds (fdByName name)).isNone then tell (.fdUndefined name)
        checkFdNames rest

def ctlCmdSvcFds (env : CallEnv ι κ) : CmdM ι κ Unit := do
  let x ← getArgService false env.svcMem
  let spec := (← get).command
  checkFdNames (Bytewise.strsegTokens tab ((spec.getD []).length + 2) spec)
  if ← svcSetFds x (spec.getD []) env.stored then
    tellAll (.svcVar .fds (← svcOf x).name (← svcGetVar x (bytesOf "fds") Bytewise.nullFds))
  else refuse "unable to set file descriptors"

/-- The interval argument of `ctl_cmd_svc_auto_up`. -/
def takeInterval (x : ι) : CmdM ι κ Unit := do
  let command := (← get).command
  let (rest, result) := ctlGetArgInt command
  modify fun c => { c with command := rest }
  match result with
  | .error message => if isDash command then pure () else refuse message
  | .ok interval =>
      if interval < 1 ∨ interval >>> (31 : ℕ) ≠ 0 then refuse "invalid interval"
      else onLoop (onDaemon (svcSetRestartInterval x (interval <<< (32 : ℕ))))

/-- `svc_set_triggers`, with the variable that it sets. -/
def setTriggers (sigList : List SigListItem) (x : ι) (triggers : Bytes) (stored : Bool) : CmdM ι κ Bool := do
  let packed := (← get).server.vars x
  let value := listValue (some triggers)
  if ← onLoop (svcSetTriggers sigList x triggers (hasRoom packed (bytesOf "triggers") value stored)) then
    modifyServer fun s => { s with vars := Function.update s.vars x (packedSet packed (bytesOf "triggers") value) }
    return true
  else return false

def Commands.ctlCmdSvcAutoUp (sigList : List SigListItem) (env : CallEnv ι κ) : CmdM ι κ Unit := do
  let x ← getArgService false env.svcMem
  takeInterval x
  if ← setTriggers sigList x ((← get).command.getD []) env.stored then
    let svc ← svcOf x
    tellAll (.svcAutoUp svc.name svc.restartInterval (← svcGetVar x (bytesOf "triggers") []))
  else refuse "unable to set auto_up triggers"

/-- The end of `ctl_cmd_svc_start`. -/
def startService (x : ι) (startTime : ℤ) : CmdM ι κ Unit := do
  let argv ← svcGetVar x (bytesOf "args") []
  if argv = [] ∨ argv.head? = some tab then refuse "no args configured for service"
  else if ← onLoop (onDaemon (svcHandleStart x startTime)) then
    modifyServer fun s => { s with loop := { s.loop with requested := Function.update s.loop.requested x true } }
  else refuse "service is not startable"

def Commands.ctlCmdSvcStart (_ : CallEnv ι κ) : CmdM ι κ Unit := do
  let x ← getArgService true none
  let now := (← get).server.loop.daemon.now
  match ctlPeekArg (← get).command with
  | none => startService x now
  | some when =>
      if strsegCmp when (bytesOf "-") = 0 then
        if ← onLoop (onDaemon (svcCancelStart x)) then pure () else refuse "no service.start pending"
      else
        let startTime ← takeArgOr ctlGetArgTs "invalid timestamp"
        if wrap 64 (startTime - now) < -100000 then refuse "invalid timestamp"
        else startService x startTime

/-- The options of `service.signal`: true for `group`. -/
def signalOptions : List Bytes → CmdM ι κ Bool
  | [] => return false
  | flag :: rest => do
      if strsegCmp flag (bytesOf "group") = 0 then
        let _ ← signalOptions rest
        return true
      else refuseWith (bytesOf "unknown option \"" ++ cString flag ++ bytesOf "\"")

/-- The optional argument of `service.signal`. -/
def takeGroup : CmdM ι κ Bool := do
  match ctlPeekArg (← get).command with
  | none => return false
  | some flags => signalOptions (Bytewise.strsegTokens 44 (flags.length + 2) (some flags))

def svcSendSignal (x : ι) (signum : ℤ) (group delivered : Bool) : CmdM ι κ Bool := do
  let pid := (← svcOf x).pid
  if pid ≤ 0 then return false
  else
    modifyServer fun s => { s with kills := s.kills ++ [⟨pid, signum, group⟩] }
    return delivered

def ctlCmdSvcSignal (sigList : List SigListItem) (env : CallEnv ι κ) : CmdM ι κ Unit := do
  let x ← getArgService true none
  let signum ← takeArg (ctlGetArgSignal sigList)
  let group ← takeGroup
  let svc ← svcOf x
  if svc.pid ≤ 0 ∨ 0 ≤ svc.waitStatus then refuse "service is not running"
  else if ← svcSendSignal x signum group env.kill then pure ()
  else refuseWith (bytesOf "can't kill " ++ svc.name ++ bytesOf (if group then " (pgid " else " (pid ") ++ intCast svc.pid ++
    bytesOf "): " ++ env.strerror)

def Commands.ctlCmdSvcDelete (_ : CallEnv ι κ) : CmdM ι κ Unit := do
  let x ← getArgService true none
  let svc ← svcOf x
  if svc.pid > 0 then refuse "service is running"
  else
    tellAll (.svcDeleted svc.name)
    onLoop (onDaemon (svcDelete x))

end Services

/-! ## Handles -/

section Handles

variable {ι κ : Type} [DecidableEq ι] [DecidableEq κ]

/-- `ctl_get_arg_fd`: the name, and the handle if there is one. -/
def getArgFd (existing assignable : Bool) : CmdM ι κ (Bytes × Option κ) := do
  match strsegTokNext (← get).command tab with
  | none => refuse "Expected file descriptor name"
  | some (name, rest) =>
      modify fun c => { c with command := rest }
      match ← onFds (ctlGetArgFd name existing assignable) with
      | .error message => refuse message
      | .ok fd => return (name, fd)

/-- The arguments of `ctl_notify_fd_state`. -/
def fdNotice (s : FdTable κ) (x : κ) : Notice :=
  let fd := s.objects x
  .fdState fd.name fd.flags (match fd.attr with
    | .null => none
    | .path text => some text
    | .peer y => some (s.objects y).name)

/-- `ctl_notify_fd_state(NULL, fd)`. -/
def notifyFdState (x : κ) : CmdM ι κ Unit := do tellAll (fdNotice (← get).server.fds x)

/-- A flag that a command does not know. The newline is the source's. -/
def unknownFlag (opt : Bytes) : Bytes := errorBuf (bytesOf "unknown flag \"" ++ cString opt ++ bytesOf "\"\n")

/-- The loop over the flags; an empty one is skipped. -/
def parseFlags (known : Bytes → FdFlags → Except Bytes FdFlags) : List Bytes → FdFlags → Except Bytes FdFlags
  | [], flags => .ok flags
  | [] :: rest, flags => parseFlags known rest flags
  | opt :: rest, flags =>
      match known opt flags with
      | .error text => .error text
      | .ok flags => parseFlags known rest flags

def commaList (opts : Bytes) : List Bytes := Bytewise.strsegTokens 44 (opts.length + 2) (some opts)

/-- A flag of `fd.pipe`. -/
def pipeFlag (opt : Bytes) (flags : FdFlags) : Except Bytes FdFlags :=
  if opt = bytesOf "-" then .ok flags
  else if opt = bytesOf "unix" then .ok { flags with socket := true, sockInet := false }
  else if opt = bytesOf "udp" then .ok { flags with socket := true, sockInet := true, sockDgram := true }
  else if opt = bytesOf "tcp" then .ok { flags with socket := true, sockInet := true, sockDgram := false }
  else if opt = bytesOf "dgram" then .ok { flags with socket := true, sockDgram := true }
  else if opt = bytesOf "inet" then .ok { flags with socket := true, sockInet := true }
  else if opt = bytesOf "inet6" then .ok { flags with socket := true, sockInet6 := true }
  else if opt = bytesOf "stream" then .ok { flags with socket := true, sockDgram := false, sockSeq := false }
  else if opt = bytesOf "seqpacket" then .ok { flags with socket := true, sockSeq := true }
  else if opt = bytesOf "nonblock" then .ok { flags with nonblock := true }
  else .error (unknownFlag opt)

/-- A flag of `fd.open`. -/
def openFlag (opt : Bytes) (flags : FdFlags) : Except Bytes FdFlags :=
  if opt = bytesOf "append" then .ok { flags with append := true }
  else if opt = bytesOf "create" then .ok { flags with create := true }
  else if opt = bytesOf "mkdir" then .ok { flags with mkdir := true }
  else if opt = bytesOf "read" then .ok { flags with read := true }
  else if opt = bytesOf "trunc" then .ok { flags with trunc := true }
  else if opt = bytesOf "write" then .ok { flags with write := true }
  else if opt = bytesOf "nonblock" then .ok { flags with nonblock := true }
  else .error (unknownFlag opt)

/-- The length of the listen queue. -/
def listenValue (optval : StrSeg) : Except Bytes ℕ :=
  match optval with
  | none | some [] => .ok 32
  | some text =>
      match strsegAtoi text with
      | some (val, _) => if val ≥ 65536 ∨ val ≤ 0 then .error (bytesOf "invalid listen queue length") else .ok val.toNat
      | none => .error (bytesOf "invalid listen queue length")

/-- A flag of `fd.socket`, of the form `name` or `name=value`. -/
def socketFlag (option : Bytes) (flags : FdFlags) : Except Bytes FdFlags :=
  let (opt, optval) := splitAtSep 61 option
  if opt = bytesOf "bind" then .ok { flags with bind := true }
  else if opt = bytesOf "listen" then
    match listenValue optval with
    | .ok listen => .ok { flags with bind := true, listen }
    | .error text => .error text
  else if opt = bytesOf "unix" then .ok { flags with sockInet := false }
  else if opt = bytesOf "udp" then .ok { flags with sockInet := true, sockDgram := true }
  else if opt = bytesOf "tcp" then .ok { flags with sockInet := true, sockDgram := false }
  else if opt = bytesOf "dgram" then .ok { flags with sockDgram := true }
  else if opt = bytesOf "inet" then .ok { flags with sockInet := true }
  else if opt = bytesOf "inet6" then .ok { flags with socket := true, sockInet6 := true }
  else if opt = bytesOf "stream" then .ok { flags with sockDgram := false, sockSeq := false }
  else if opt = bytesOf "seqpacket" then .ok { flags with sockSeq := true }
  else if opt = bytesOf "nonblock" then .ok { flags with nonblock := true }
  else if opt = bytesOf "mkdir" then .ok { flags with mkdir := true }
  else .error (unknownFlag opt)

def takeFlags (known : Bytes → FdFlags → Except Bytes FdFlags) (opts : Bytes) (flags : FdFlags) : CmdM ι κ FdFlags :=
  match parseFlags known (commaList opts) flags with
  | .ok flags => return flags
  | .error text => throw text

/-- `pipe` or `socketpair`. -/
def openPair (env : CallEnv ι κ) : CmdM ι κ (Option (ℤ × ℤ)) := do
  let c ← get
  match c.server.newFd env.newFd1, c.server.newFd (env.newFd2.filter (some · ≠ env.newFd1)) with
  | some fd1, some fd2 =>
      modifyServer fun s => { s with openFds := fd1 :: fd2 :: s.openFds }
      return some (fd1, fd2)
  | _, _ => return none

/-- The end of `ctl_cmd_fd_pipe`, once the descriptors are open. -/
def nameFdPair (readSide writeSide : Bytes) (fd1 fd2 : ℤ) (flags : FdFlags) (env : CallEnv ι κ) : CmdM ι κ Unit := do
  match ← onFds (fdNewPipe readSide fd1 writeSide fd2 flags env.fdMem1 env.fdMem2) with
  | none =>
      modifyServer fun s => (s.close fd1).close fd2
      refuse "failed to create pipe"
  | some (f1, f2) =>
      onFds (do recordAssigned f1; recordAssigned f2)
      notifyFdState f1
      notifyFdState f2

/-- The optional flags of `fd.pipe`. -/
def takePipeFlags : CmdM ι κ FdFlags := do
  match ctlGetArg (← get).command with
  | (rest, .ok opts) => do
      modify fun c => { c with command := rest }
      takeFlags pipeFlag opts {}
  | (_, .error _) => return {}

def Commands.ctlCmdFdPipe (env : CallEnv ι κ) : CmdM ι κ Unit := do
  let (readSide, _) ← getArgFd false true
  let (writeSide, _) ← getArgFd false true
  let flags ← takePipeFlags
  match ← openPair env with
  | none => refuseWith (bytesOf (if flags.socket then "socketpair() failed: " else "pipe() failed: ") ++ env.strerror)
  | some (fd1, fd2) =>
      if flags.nonblock ∧ (env.nonblock1 = false ∨ env.nonblock2 = false) then
        refuseWith (bytesOf "fcntl(O_NONBLOCK) failed: " ++ env.strerror)
      else nameFdPair readSide writeSide fd1 fd2 flags env

/-- `open` or `socket`. -/
def openOne (env : CallEnv ι κ) : CmdM ι κ (Option ℤ) := do
  match (← get).server.newFd env.newFd1 with
  | some fd =>
      modifyServer fun s => { s with openFds := fd :: s.openFds }
      return some fd
  | none => return none

/-- The end of `ctl_cmd_fd_open` and of `ctl_cmd_fd_socket`. -/
def nameFd (name : Bytes) (fd : ℤ) (flags : FdFlags) (path : Bytes) (env : CallEnv ι κ) : CmdM ι κ Unit := do
  match ← onFds (fdNewFile name fd flags path env.fdMem1) with
  | none =>
      modifyServer fun s => s.close fd
      refuse "Unable to allocate new file descriptor object"
  | some f =>
      onFds (recordAssigned f)
      notifyFdState f

inductive OpenAccess
  | rdonly | wronly | rdwr
  deriving DecidableEq, Repr

/-- The bits of `open_flags`, but for `O_NOCTTY`, which is always set. -/
structure OpenFlags where
  access : OpenAccess
  append : Bool
  creat : Bool
  trunc : Bool
  nonblock : Bool
deriving DecidableEq, Repr

def FdFlags.openFlags (flags : FdFlags) : OpenFlags where
  access := if flags.write then (if flags.read then .rdwr else .wronly) else .rdonly
  append := flags.append
  creat := flags.create
  trunc := flags.trunc
  nonblock := flags.nonblock

def ctlCmdFdOpen (env : CallEnv ι κ) : CmdM ι κ Unit := do
  let (name, _) ← getArgFd false true
  let opts ← takeArgOr ctlGetArg "missing flags argument"
  let path ← takeArgOr ctlGetArg "missing path argument"
  if (ctlPeekArg (← get).command).isSome then refuse "unexpected argument after path"
  else
    let flags ← takeFlags openFlag opts {}
    match ← openOne env with
    | none => refuseWith (bytesOf "open failed: " ++ env.strerror)
    | some fd => nameFd name fd flags path env

inductive SockDomain
  | unix | inet | inet6
  deriving DecidableEq, Repr

def FdFlags.domain (flags : FdFlags) : SockDomain :=
  if flags.sockInet then .inet else if flags.sockInet6 then .inet6 else .unix

inductive SockType
  | stream | dgram | seqpacket
  deriving DecidableEq, Repr

def FdFlags.sockType (flags : FdFlags) : SockType :=
  if flags.sockDgram then .dgram else if flags.sockSeq then .seqpacket else .stream

/-- `sizeof(a.sun_path)`. -/
def sunPathSize : ℕ := 108

/-- The address part of an IPv4 address with a port, and what follows it. -/
def inetHost (inetPton : Bytes → Bool) (string : Bytes) : Option Bytes :=
  if string.head? = some 42 then some string.tail
  else
    let host := string.takeWhile fun c => c = 46 ∨ (digit? c).isSome
    if host = [] ∨ 255 ≤ host.length ∨ inetPton host = false then none else some (string.drop host.length)

/-- `strseg_parse_sockaddr`: what is left of the string. -/
def strsegParseSockaddr (inetPton : Bytes → Bool) (domain : SockDomain) (string : Bytes) : Option Bytes :=
  if string = [] then none
  else
    match domain with
    | .unix => if sunPathSize ≤ string.length then none else some []
    | .inet => do
        let rest ← inetHost inetPton string
        match rest with
        | 58 :: port => (strsegAtoi port).map Prod.snd
        | _ => some rest
    | .inet6 => none

/-- The address argument of `ctl_cmd_fd_socket`, and the flags with it. -/
def takeAddress (env : CallEnv ι κ) (flags : FdFlags) : CmdM ι κ (Bytes × FdFlags) := do
  match ctlGetArg (← get).command with
  | (rest, .ok addrspec) => do
      modify fun c => { c with command := rest }
      if strsegParseSockaddr env.inetPton flags.domain addrspec = some [] then return (addrspec, { flags with bind := true })
      else refuse "invalid address"
  | (_, .error _) => if flags.bind then refuse "expected address argument" else return ([], flags)

/-- The call that fails after `socket`, if one does. -/
def socketFailure (env : CallEnv ι κ) (flags : FdFlags) : Option String :=
  if flags.bind ∧ env.setsockopt = false then some "setsockopt"
  else if flags.bind ∧ env.bind = false then some "bind"
  else if flags.listen ≠ 0 ∧ env.listen = false then some "listen"
  else if flags.nonblock ∧ env.nonblock1 = false then some "fcntl(O_NONBLOCK)"
  else none

def ctlCmdFdSocket (env : CallEnv ι κ) : CmdM ι κ Unit := do
  let (name, _) ← getArgFd false true
  let opts ← takeArgOr ctlGetArg "missing flags argument"
  let flags ← takeFlags socketFlag opts { socket := true }
  let (addrspec, flags) ← takeAddress env flags
  if (ctlPeekArg (← get).command).isSome then refuse "unexpected argument after address"
  else
    match ← openOne env with
    | none => refuseWith (bytesOf "socket: " ++ env.strerror)
    | some fd =>
        match socketFailure env flags with
        | some failed => do
            modifyServer fun s => s.close fd
            refuseWith (bytesOf failed ++ bytesOf ": " ++ env.strerror)
        | none => nameFd name fd flags addrspec env

/-- `ctl_cmd_fd_take`, for the descriptor that was taken off the queue. -/
def Commands.ctlCmdFdTake (passed : ℤ) (env : CallEnv ι κ) : CmdM ι κ Unit := do
  let (name, _) ← getArgFd false true
  match ← onFds (fdNewUnknown name passed (commandFlags env.loadedFlags) env.fdMem1) with
  | none => refuse "Unable to allocate new file descriptor object"
  | some f =>
      modifyServer fun s => { s with openFds := passed :: s.openFds }
      onFds (recordAssigned f)
      notifyFdState f

def Commands.ctlCmdFdDelete (_ : CallEnv ι κ) : CmdM ι κ Unit := do
  match ← getArgFd true true with
  | (_, none) => refuse "No such file descriptor"
  | (name, some x) =>
      tellAll (.fdDeleted name)
      onFds do
        fdDelete x
        modify fun s => { s with history := s.history ++ [.removed name] }

end Handles

/-! ## The other commands -/

section Others

variable {ι κ : Type} [DecidableEq ι] [DecidableEq κ]

def ctlCmdChdir (env : CallEnv ι κ) : CmdM ι κ Unit := do
  let _ ← takeArgOr ctlGetArg "missing path argument"
  if (ctlPeekArg (← get).command).isSome then refuse "unexpected argument after path"
  else if env.chdir then pure ()
  else refuseWith (bytesOf "chdir failed: " ++ env.strerror)

def logLevelByName (name : Bytes) : Option ℤ := ([-3, -2, -1, 0, 1, 2, 3] : List ℤ).find? fun level => name = filterName level

def onLog {α : Type} (m : LogM α) : CmdM ι κ α :=
  (zoom (fun c => c.server.log) (fun log c => { c with server := { c.server with log } }) m : CallM ι κ α)

/-- The optional argument of `log.filter`. -/
def takeFilter : CmdM ι κ Unit := do
  match ctlPeekArg (← get).command with
  | none => pure ()
  | some arg =>
      let filter := (← get).server.log.filter
      if arg = [43] then onLog (logSetFilter (filter + 1))
      else if arg = [45] then onLog (logSetFilter (filter - 1))
      else
        match logLevelByName arg with
        | some level => onLog (logSetFilter level)
        | none => refuse "Invalid loglevel argument"

def ctlCmdLogFilter (_ : CallEnv ι κ) : CmdM ι κ Unit := do
  takeFilter
  tell (.logFilter (← get).server.log.filter)

/-- The descriptor that a name stands for. -/
def FdTable.fdnum (s : FdTable κ) (name : Bytes) : Option ℤ :=
  match (fdByName name).run s with
  | some (some x, _) => some (s.objects x).fd
  | _ => none

def ctlCmdLogDest (_ : CallEnv ι κ) : CmdM ι κ Unit := do
  let arg ← takeArg ctlGetArg
  if strsegCmp arg (bytesOf "fd") = 0 then
    let (name, fd) ← getArgFd false false
    if fd.isNone then tell (.fdMissing name)
    onLog (logFdSetName name (← get).server.fds.fdnum)
  else refuse "Unknown logging type"

def Commands.ctlCmdSignalClear (sigList : List SigListItem) (_ : CallEnv ι κ) : CmdM ι κ Unit := do
  let signum ← takeArg (ctlGetArgSignal sigList)
  let count ← takeArg ctlGetArgInt
  modifyServer fun s => { s with loop := { s.loop with sig := sigMarkSeen s.loop.sig signum count } }

def Server.controlSocketStop (s : Server ι κ) : Server ι κ :=
  if 0 ≤ s.controlSocket then { s.close s.controlSocket with controlSocket := -1 } else s

def controlSocketStart (path : Bytes) (env : CallEnv ι κ) : CmdM ι κ Bool := do
  if sunPathSize ≤ path.length ∨ path.head?.all (· = 0) then return false
  else
    modifyServer Server.controlSocketStop
    if env.removeSocket = false then return false
    else
      match ← openOne env with
      | none =>
          modifyServer fun s => { s with controlSocket := -1 }
          return false
      | some fd =>
          modifyServer fun s => { s with controlSocket := fd }
          if env.bind ∧ env.listen ∧ env.nonblock1 then return true
          else
            modifyServer Server.controlSocketStop
            return false

def ctlCmdSocketCreate (env : CallEnv ι κ) : CmdM ι κ Unit := do
  let opts ← takeArg ctlGetArg
  let path ← takeArg ctlGetArg
  if opts ≠ [] ∧ opts ≠ [45] then refuse "Invalid options"
  else if ← controlSocketStart path env then pure ()
  else refuse "Failed to create control socket"

def ctlCmdSocketDelete (_ : CallEnv ι κ) : CmdM ι κ Unit := modifyServer Server.controlSocketStop

/-- The code that `terminate` asks for. -/
def checkGuard (guard : ℤ) : CmdM ι κ Unit := do
  if guard = 0 then pure ()
  else
    let code ← takeArgOr ctlGetArgInt "terminate guard code required"
    if guard = code then pure () else refuse "incorrect terminate guard code"

def ctlCmdTerminate (_ : CallEnv ι κ) : CmdM ι κ Unit := do
  let x ← takeArg ctlGetArgInt
  let guard := (← get).server.terminateGuard
  checkGuard guard
  if guard ≠ 0 ∧ (← get).server.execOnExit = false then refuse "cannot exit, and exec-on-exit is not configured"
  else
    modifyServer fun s => { s with
      terminate := true, exitcode := wrap 32 x,
      loop := { s.loop with daemon := { s.loop.daemon with next := s.loop.daemon.now } } }

/-- `sizeof(opt_exec_on_exit_buf)`. -/
def execOnExitBufSize : ℕ := 256

def ctlCmdTerminateExecArgs (_ : CallEnv ι κ) : CmdM ι κ Unit := do
  let args := (← get).command.getD []
  if args = [] then modifyServer fun s => { s with execOnExit := false }
  else if execOnExitBufSize ≤ args.length then refuse "exec arguments exceed buffer size (255)"
  else modifyServer fun s => { s with execOnExit := true }

def ctlCmdTerminateGuard (_ : CallEnv ι κ) : CmdM ι κ Unit := do
  let arg ← takeArgOr ctlGetArg "expected + or -"
  if arg ≠ [43] ∧ arg ≠ [45] then refuse "expected + or -"
  else
    let code ← takeArg ctlGetArgInt
    let guard := (← get).server.terminateGuard
    if code = 0 then refuse "code cannot be 0"
    else if arg = [43] then
      if guard ≠ 0 then refuse "terminate guard code is already set"
      else modifyServer fun s => { s with terminateGuard := code }
    else if guard = 0 then refuse "terminate guard was not set"
    else if code ≠ guard then refuse "incorrect guard code"
    else modifyServer fun s => { s with terminateGuard := 0 }

end Others

/-! ## Dispatch -/

/-- The commands that act on more than their controller. -/
inductive ServerCommand
  | svcTags | svcArgs | svcFds | svcAutoUp | svcStart | svcSignal | svcDelete | socketCreate | socketDelete | fdPipe
  | fdOpen | fdSocket | fdDelete | fdTake | chdir | logFilter | logDest | signalClear | terminateExecArgs
  | terminateGuard | terminate
  deriving DecidableEq, Repr

/-- Their names. -/
def serverCommandTable : List (Bytes × ServerCommand) :=
  [(bytesOf "service.tags", .svcTags), (bytesOf "service.args", .svcArgs), (bytesOf "service.fds", .svcFds),
    (bytesOf "service.auto_up", .svcAutoUp), (bytesOf "service.start", .svcStart), (bytesOf "service.signal", .svcSignal),
    (bytesOf "service.delete", .svcDelete), (bytesOf "socket.create", .socketCreate),
    (bytesOf "socket.delete", .socketDelete), (bytesOf "fd.pipe", .fdPipe), (bytesOf "fd.open", .fdOpen),
    (bytesOf "fd.socket", .fdSocket), (bytesOf "fd.delete", .fdDelete), (bytesOf "fd.take", .fdTake),
    (bytesOf "chdir", .chdir), (bytesOf "log.filter", .logFilter), (bytesOf "log.dest", .logDest),
    (bytesOf "signal.clear", .signalClear), (bytesOf "terminate.exec_args", .terminateExecArgs),
    (bytesOf "terminate.guard", .terminateGuard), (bytesOf "terminate", .terminate)]

/-- `ctl_find_command`, for these commands. -/
def findServerCommand (name : Bytes) : Option ServerCommand :=
  (serverCommandTable.find? fun entry => entry.1 = name).map Prod.snd

section Dispatch

variable {ι κ : Type} [DecidableEq ι] [DecidableEq κ]

/-- The handler of a command; `passed` is the descriptor that `fd.take` takes off the queue. -/
def serverHandler (sigList : List SigListItem) (passed : Option ℤ) (env : CallEnv ι κ) : ServerCommand → CmdM ι κ Unit
  | .svcTags => ctlCmdSvcTags env
  | .svcArgs => ctlCmdSvcArgs env
  | .svcFds => ctlCmdSvcFds env
  | .svcAutoUp => Commands.ctlCmdSvcAutoUp sigList env
  | .svcStart => Commands.ctlCmdSvcStart env
  | .svcSignal => ctlCmdSvcSignal sigList env
  | .svcDelete => Commands.ctlCmdSvcDelete env
  | .socketCreate => ctlCmdSocketCreate env
  | .socketDelete => ctlCmdSocketDelete env
  | .fdPipe => Commands.ctlCmdFdPipe env
  | .fdOpen => ctlCmdFdOpen env
  | .fdSocket => ctlCmdFdSocket env
  | .fdDelete => Commands.ctlCmdFdDelete env
  | .fdTake =>
      match passed with
      | none => refuse "No ancillary file descriptor received"
      | some fd => Commands.ctlCmdFdTake fd env
  | .chdir => ctlCmdChdir env
  | .logFilter => ctlCmdLogFilter env
  | .logDest => ctlCmdLogDest env
  | .signalClear => Commands.ctlCmdSignalClear sigList env
  | .terminateExecArgs => ctlCmdTerminateExecArgs env
  | .terminateGuard => ctlCmdTerminateGuard env
  | .terminate => ctlCmdTerminate env

/-- What a command does: the daemon afterwards, the messages, and the error if it fails. -/
structure Outcome (ι κ : Type) where
  server : Server ι κ
  out : List (Bool × Notice)
  error : Option Bytes

/-- Runs the handler of a command on its arguments. -/
def runServerCommand (sigList : List SigListItem) (passed : Option ℤ) (env : CallEnv ι κ) (command : ServerCommand)
    (args : StrSeg) (server : Server ι κ) : Option (Outcome ι κ) :=
  ((serverHandler sigList passed env command).run.run ⟨server, args, []⟩).map fun (result, c) =>
    ⟨c.server, c.out, match result with
      | .ok _ => none
      | .error text => some text⟩

end Dispatch

end DaemonProxy.Model
