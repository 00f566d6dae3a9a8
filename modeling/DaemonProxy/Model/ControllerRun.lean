import DaemonProxy.Model.Args
import DaemonProxy.Model.Controller

/-! # The controllers' state machine (`controller.c`)

The state functions, reading, construction and destruction, and `ctl_run` as a machine. Of the commands, those that
act on the controller itself are modelled here: `echo`, `exit`, `statedump`, `conn.event_timeout` and, as far as the
queue of passed descriptors is concerned, `fd.take`.
-/

namespace DaemonProxy.Model

open Lib

variable {n : ℕ}

/-! ## Construction and destruction -/

/-- `ctl_alloc`: the first free controller, zero-filled. -/
def ctlAlloc : CtlM n (Option (Fin n)) := do
  let w ← get
  match (List.finRange n).find? fun i => (w.client i).stateFn.isNone with
  | none => return none
  | some i =>
      modify fun w => (w.setClient i { stateFn := some .free }).setLog i {}
      return some i

/-- `ctl_ctor`; `nonblock` says whether the descriptors could be made nonblocking. On success the descriptors belong
to the controller. -/
def ctlCtor (i : Fin n) (recvFd sendFd : ℤ) (isSocket nonblock : Bool) : CtlM n Bool := do
  if (recvFd ≠ -1 ∨ sendFd ≠ -1) ∧ nonblock = false then return false
  modify fun w =>
    let ctl := w.client i
    w.setClient i { ctl with
      stateFn := some .nextCommand
      recv := { ctl.recv with fd := recvFd, isSocket := decide (recvFd ≠ -1) && isSocket }
      send := { ctl.send with fd := sendFd, timeoutReset := writeTimeout / 2, timeoutClose := writeTimeout } }
  if recvFd ≠ -1 then modify (·.setHolder recvFd (some (.controller i)))
  if sendFd ≠ -1 then modify (·.setHolder sendFd (some (.controller i)))
  return true

def ctlDtor (i : Fin n) : CtlM n Unit := do
  let ctl := (← get).client i
  if ctl.recv.fd ≥ 0 then modify (·.closeFd i ctl.recv.fd)
  if ctl.send.fd ≥ 0 ∧ ctl.send.fd ≠ ctl.recv.fd then modify (·.closeFd i ctl.send.fd)
  modify fun w => ctl.recv.ancillaryFd.foldl (fun w fd => w.closeFd i fd) w
  modify (·.setState i .free)

def ctlFree (i : Fin n) : CtlM n Unit := modify fun w => w.setClient i { w.client i with stateFn := none }

/-! ## Input -/

/-- One descriptor that `ctl_read_ancillary_fds` finds: it is queued, or closed when there is no room. -/
def takeAncillary (i : Fin n) (fd : ℤ) (w : World n) : World n :=
  let recv := (w.client i).recv
  if recv.ancillaryFd.length < recvMaxAncillaryFd then w.setRecv i { recv with ancillaryFd := recv.ancillaryFd ++ [fd] }
  else w.closeFd i fd

/-- The kernel opens the descriptors that a message carries. -/
def receiveFds (i : Fin n) : ℕ → World n → List ℤ × World n
  | 0, w => ([], w)
  | passed + 1, w =>
      let (fds, w') := receiveFds i passed (w.openFd (.controller i))
      (w.lowestFree :: fds, w')

/-- Descriptors passed to this process: they are open when `recvmsg` returns, and `ctl_read_ancillary_fds` takes them. -/
def passFds (i : Fin n) (passed : ℕ) (w : World n) : World n :=
  let (fds, w) := receiveFds i passed w
  fds.foldl (fun w fd => takeAncillary i fd w) { w with delivered := w.delivered ++ fds.map fun fd => (i, fd) }

/-- The end of the input, or a failure that is final. -/
def closeInput (i : Fin n) (w : World n) : World n :=
  let recv := (w.client i).recv
  ((w.closeFd i recv.fd).setRecv i { recv with fd := -1 }).setLog i { w.log i with ended := true }

/-- `ctl_read_more`. A failing `recvmsg` leaves `msg_controllen` as it was, so that the control buffer is searched for
descriptors whatever it holds: `garbage` is what is found there. -/
def ctlReadMore (i : Fin n) (reply : ReadReply) (garbage : List ℤ) : CtlM n Bool := do
  let w ← get
  let recv := (w.client i).recv
  if recv.fd < 0 ∨ recvBufSize ≤ recv.buf.length then return false
  modify (·.record .read i recv.fd)
  match if w.holder recv.fd = none then .fatal else reply with
  | .data first rest passed =>
      if recv.isSocket then modify (passFds i passed)
      let bytes := (first :: rest).take (recvBufSize - recv.buf.length)
      modify fun w =>
        let recv := (w.client i).recv
        (w.setRecv i { recv with buf := recv.buf ++ bytes }).setLog i
          { w.log i with stream := (w.log i).stream ++ bytes }
      return true
  | .eof =>
      modify (closeInput i)
      return false
  | .again =>
      if recv.isSocket then modify fun w => garbage.foldl (fun w fd => takeAncillary i fd w) w
      return false
  | .fatal =>
      if recv.isSocket then modify fun w => garbage.foldl (fun w fd => takeAncillary i fd w) w
      modify (closeInput i)
      return false

/-! ## Commands -/

/-- The commands that act on the controller, and the others. -/
inductive Command
  | echo | exit | statedump | eventTimeout | fdTake | other
  deriving DecidableEq

/-- The table of commands. -/
def commandTable : List (Bytes × Command) :=
  [(bytesOf "echo", .echo), (bytesOf "statedump", .statedump), (bytesOf "service.tags", .other),
    (bytesOf "service.args", .other), (bytesOf "service.fds", .other), (bytesOf "service.auto_up", .other),
    (bytesOf "service.start", .other), (bytesOf "service.signal", .other), (bytesOf "service.delete", .other),
    (bytesOf "socket.create", .other), (bytesOf "socket.delete", .other), (bytesOf "fd.pipe", .other),
    (bytesOf "fd.open", .other), (bytesOf "fd.socket", .other), (bytesOf "fd.delete", .other),
    (bytesOf "fd.take", .fdTake), (bytesOf "chdir", .other), (bytesOf "exit", .exit), (bytesOf "log.filter", .other),
    (bytesOf "log.dest", .other), (bytesOf "conn.event_timeout", .eventTimeout), (bytesOf "signal.clear", .other),
    (bytesOf "terminate.exec_args", .other), (bytesOf "terminate.guard", .other), (bytesOf "terminate", .other)]

def ctlFindCommand (name : Bytes) : Option Command :=
  (commandTable.find? fun entry => entry.1 = name).map Prod.snd

/-- What the rest of the daemon contributes to a call of a state function. -/
structure CallInput where
  /-- The lines that new signals, or what `statedump` still has to list, give. -/
  lines : List Message
  /-- What a command of another module writes, to all clients or to this one. -/
  writes : List (Bool × Message)
  /-- The error of a command of another module; with `fd.take` it also means that the descriptor is closed. -/
  error : Option Bytes

/-- Writes what a command of another module writes. -/
def writeList (i : Fin n) : List (Bool × Message) → CtlM n Unit
  | [] => return ()
  | (toAll, msg) :: rest => do
      ctlWrite (if toAll then none else some i) msg
      writeList i rest

/-- `ctl_cmd_echo`; printing stops at a NUL. -/
def ctlCmdEcho (i : Fin n) (command : StrSeg) : CtlM n (Option Bytes) := do
  match command with
  | some (c :: text) => ctlWrite (some i) ⟨(c :: text).takeWhile (· ≠ 0)⟩
  | _ => pure ()
  return none

def ctlCmdExit (i : Fin n) : CtlM n (Option Bytes) := do
  let recv := ((← get).client i).recv
  if recv.fd ≥ 0 then modify (·.closeFd i recv.fd)
  modify fun w => (w.setRecv i { recv with fd := -1 }).setState i .close
  return none

def ctlCmdStatedump (i : Fin n) : CtlM n (Option Bytes) := do
  modify (·.setState i .dumpFds)
  return none

def ctlCmdEventPipeTimeout (i : Fin n) (command : StrSeg) : CtlM n (Option Bytes) := do
  match ctlGetArgInt command with
  | (_, .error message) => return some (bytesOf message)
  | (rest, .ok reset) =>
      match ctlGetArgInt rest with
      | (_, .error message) => return some (bytesOf message)
      | (_, .ok close) =>
          if reset > 0x7FFFFFFF ∨ reset < 0 ∨ close > 0x7FFFFFFF ∨ close < 0 then
            return some (bytesOf "invalid timeout (must be 0..7FFFFFFF)")
          else if reset > close then return some (bytesOf "reset timeout is greater than close timeout")
          else
            modify fun w => (w.setSend i { (w.client i).send with
              timeoutReset := reset * 4294967296, timeoutClose := close * 4294967296 }).setLog i
                { w.log i with timeouts := (w.log i).timeouts ++ [(reset, close)] }
            return none

/-- `ctl_cmd_fd_take`, for the queue of descriptors: the first one goes to the table of handles, or is closed. -/
def takeQueuedFd (i : Fin n) (input : CallInput) : CtlM n (Option Bytes) := do
  let recv := ((← get).client i).recv
  match recv.ancillaryFd with
  | [] => return some (bytesOf "No ancillary file descriptor received")
  | fd :: rest =>
      modify (·.setRecv i { recv with ancillaryFd := rest })
      match input.error with
      | some error =>
          modify (·.closeFd i fd)
          return some error
      | none =>
          modify (·.setHolder fd (some .other))
          writeList i input.writes
          return none

/-- The handler of a command; the result is its error, if it fails. -/
def runHandler (i : Fin n) (command : Command) (rest : StrSeg) (input : CallInput) : CtlM n (Option Bytes) :=
  match command with
  | .echo => ctlCmdEcho i rest
  | .exit => ctlCmdExit i
  | .statedump => ctlCmdStatedump i
  | .eventTimeout => ctlCmdEventPipeTimeout i rest
  | .fdTake => takeQueuedFd i input
  | .other => do
      writeList i input.writes
      return input.error

/-! ## State functions -/

/-- Emits lines to one client as long as its buffer is ready, as `ctl_deliver_signals` and the dump states do. -/
def emitLines (i : Fin n) : List Message → CtlM n Bool
  | [] => return true
  | msg :: rest => do
      if ← ctlOutBufReady i then
        ctlWrite (some i) msg
        emitLines i rest
      else return false

namespace World

/-- The line up to `eol` is the next command. -/
def parkLine (i : Fin n) (buf : Bytes) (eol : ℕ) (w : World n) : World n :=
  (w.setRecv i { (w.client i).recv with buf := buf.set eol 0, lineLen := eol + 1 }).setState i .runCommand

/-- A line that fills the buffer is cut to its first byte. -/
def cutLine (i : Fin n) (w : World n) : World n :=
  w.setRecv i { (w.client i).recv with buf := (w.client i).recv.buf.take 1, overflow := true }

end World

def ctlStateNextCommand (i : Fin n) (input : CallInput) : CtlM n Bool := do
  if ← emitLines i input.lines then
    let recv := ((← get).client i).recv
    if 0 ≤ recv.fd then
      match recv.buf.findIdx? (· = 10) with
      | some eol =>
          modify (·.parkLine i recv.buf eol)
          return true
      | none =>
          if recvBufSize ≤ recv.buf.length then
            modify (·.cutLine i)
            return true
          else return false
    else if recv.buf = [] then
      modify (·.setState i .close)
      return true
    else if recv.buf.getLast? ≠ some 10 ∧ recv.appendFinalNewline then
      modify (·.parkLine i (recv.buf ++ [10]) recv.buf.length)
      return true
    else
      match recv.buf.findIdx? (· = 10) with
      | some eol =>
          modify (·.parkLine i recv.buf eol)
          return true
      | none =>
          modify fun w => (w.setRecv i { recv with buf := [] }).setState i .close
          return true
  else return false

def entirelyWhitespace (text : Bytes) : Bool := text.all fun c => c ∈ [32, 9, 13, 10, 0]

/-- The text of the error that reports a failed command. -/
def failureText (error : Bytes) (recv : RecvSide) : Bytes :=
  error ++ bytesOf ", for command \"" ++ (recv.buf.take (min recv.lineLen 30)).takeWhile (· ≠ 0) ++
    (if 30 < recv.lineLen then bytesOf "..." else []) ++ bytesOf "\""

/-- The line in the buffer is dispatched. -/
def dispatchLine (i : Fin n) (input : CallInput) : CtlM n Unit := do
  let recv := ((← get).client i).recv
  let line := recv.buf.take (recv.lineLen - 1)
  modify fun w => w.setLog i { w.log i with items := (w.log i).items ++ [.line line] }
  let (name, rest) := splitAtSep 9 line
  match ctlFindCommand name with
  | none =>
      if recv.buf.head? = some 35 then return ()
      else if entirelyWhitespace line then return ()
      else ctlNotifyError i (bytesOf "Unknown command: " ++ name.takeWhile (· ≠ 0))
  | some command =>
      match ← runHandler i command rest input with
      | none => return ()
      | some error => ctlNotifyError i (failureText error recv)

def ctlStateRunCommand (i : Fin n) (input : CallInput) : CtlM n Bool := do
  if ← ctlOutBufReady i then
    modify (·.setState i .endCommand)
    let recv := ((← get).client i).recv
    if recv.overflow then
      modify (·.setRecv i { recv with overflow := false })
      if recv.buf.head? ≠ some 35 then
        modify fun w => w.setLog i { w.log i with items := (w.log i).items ++ [.tooLong] }
        ctlNotifyError i (bytesOf "line too long")
    else dispatchLine i input
    return true
  else return false

def ctlStateEndCommand (i : Fin n) : CtlM n Bool := do
  modify fun w =>
    let recv := (w.client i).recv
    (w.setRecv i { recv with buf := recv.buf.drop recv.lineLen, lineLen := 0 }).setState i .nextCommand
  return true

def ctlStateClose (i : Fin n) : CtlM n Bool := do
  if ((← get).client i).send.fd ≥ 0 then
    if ← ctlFlushOutbuf i then
      ctlDtor i
      return true
    else return false
  else
    ctlDtor i
    return true

def ctlStateFree (i : Fin n) : CtlM n Bool := do
  ctlFree i
  return false

/-- The states of `statedump`: they list what they have to and go on to the next state. -/
def ctlStateDump (i : Fin n) (following : CtlState) (input : CallInput) : CtlM n Bool := do
  if ← emitLines i input.lines then
    modify (·.setState i following)
    return true
  else return false

/-- A call of the state function. -/
def callState (i : Fin n) (state : CtlState) (input : CallInput) : CtlM n Bool :=
  match state with
  | .nextCommand => ctlStateNextCommand i input
  | .runCommand => ctlStateRunCommand i input
  | .endCommand => ctlStateEndCommand i
  | .close => ctlStateClose i
  | .free => ctlStateFree i
  | .dumpFds => ctlStateDump i .dumpServices input
  | .dumpServices => ctlStateDump i .dumpSignals input
  | .dumpSignals => ctlStateDump i .endCommand input

/-! ## The machine -/

/-- One round of the first loop of `ctl_run`. A controller that has just been destroyed is freed in the next round,
unless this was the `last` of the ten. -/
def iterate (i : Fin n) (input : CallInput) (last : Bool) : CtlM n Unit := do
  match ((← get).client i).stateFn with
  | none => return ()
  | some state =>
      let again ← callState i state input
      if again && !last && decide (((← get).client i).stateFn = some .free) then
        let _ ← ctlStateFree i

/-- What the second loop of `ctl_run` does when output is still blocked; false when the client was destroyed. -/
def checkTimeout (i : Fin n) : CtlM n Bool := do
  let w ← get
  let ctl := w.client i
  let lateness := wrap 64 (w.now - ctl.send.blockedTs)
  if ctl.send.timeoutClose ≤ lateness then
    ctlDtor i
    ctlFree i
    return false
  else
    let late := decide (ctl.send.timeoutReset ≤ lateness)
    if late ∧ recvBufSize ≤ ctl.recv.buf.length then
      modify fun w => { w.setSend i { ctl.send with overflow := true } with next := w.now }
    let check := wrap 64 (ctl.send.blockedTs + if late then ctl.send.timeoutClose else ctl.send.timeoutReset)
    modify fun w => { w with
      next := if 0 < wrap 64 (w.next - check) then check else w.next
      wakeWrite := ctl.send.fd :: w.wakeWrite }
    return true

/-- The second loop of `ctl_run`, for one client. -/
def outputPhase (i : Fin n) : CtlM n Unit := do
  if ((← get).client i).stateFn.isSome then
    let send := ((← get).client i).send
    let mut allocated := true
    if send.fd ≥ 0 ∧ send.buf ≠ [] then
      let flushed ← ctlFlushOutbuf i
      let ctl := (← get).client i
      if flushed = false ∧ ctl.send.fd ≥ 0 then allocated ← checkTimeout i
      else if ctl.recv.buf ≠ [] then modify fun w => { w with next := w.now }
    if allocated then
      let recv := ((← get).client i).recv
      if recv.fd ≥ 0 ∧ recv.buf.length < recvBufSize then
        modify fun w => { w with wakeRead := recv.fd :: w.wakeRead }

/-- `ctl_new`, as the program start calls it, with descriptors of its own. -/
def ctlNew (recvFd sendFd : ℤ) (isSocket nonblock append : Bool) : CtlM n Unit := do
  match ← ctlAlloc with
  | none => return ()
  | some i =>
      if ← ctlCtor i recvFd sendFd isSocket nonblock then
        modify fun w => w.setRecv i { (w.client i).recv with appendFinalNewline := append }
      else
        let _ ← ctlStateFree i

/-- The part of `svc_do_fork` that gives a service its control socket. -/
def svcControlSocket (wantRead wantWrite socketpair nonblock fork : Bool) : CtlM n Unit := do
  match ← ctlAlloc with
  | none => failure
  | some i =>
      if socketpair then
        let ours := (← get).lowestFree
        modify (·.openFd .other)
        let theirs := (← get).lowestFree
        modify (·.openFd .other)
        let constructed ← ctlCtor i (if wantWrite then ours else -1) (if wantRead then ours else -1) true nonblock
        if !(constructed && fork) then
          ctlDtor i
          ctlFree i
        modify (·.setHolder theirs none)
      else
        ctlDtor i
        ctlFree i

/-- The `control.*` handles that a service uses. -/
structure ControlUses where
  socket : Bool
  event : Bool
  cmd : Bool

/-- The code after `fail:` in `svc_do_fork`; `sockets` are the ends of the pair, ours first. -/
def svcDoForkFail (ctl : Option (Fin n)) (sockets : Option (ℕ × ℕ)) : CtlM n Bool := do
  match ctl, sockets with
  | some i, _ =>
      ctlDtor i
      ctlFree i
  | none, some (ours, _) => modify (·.setHolder ours none)
  | none, none => pure ()
  match sockets with
  | some (_, theirs) => modify (·.setHolder theirs none)
  | none => pure ()
  return false

/-- `svc_do_fork` in the parent, for its descriptors and its controller. The last arguments say whether `socketpair`,
making the socket nonblocking and `fork` succeed; a null pointer is followed where there is no controller. -/
def svcDoForkControl (uses : ControlUses) (socketpair nonblock fork : Bool) : CtlM n Bool := do
  let wantRead := uses.socket || uses.event
  let wantWrite := uses.socket || uses.cmd
  if uses.socket || uses.event || uses.cmd then
    match ← ctlAlloc with
    | none => failure
    | some i =>
        if socketpair then
          let ours := (← get).lowestFree
          modify (·.openFd .other)
          let theirs := (← get).lowestFree
          modify (·.openFd .other)
          if ← ctlCtor i (if wantWrite then ours else -1) (if wantRead then ours else -1) true nonblock then
            if fork then
              modify (·.setHolder theirs none)
              return true
            else svcDoForkFail (some i) (some (ours, theirs))
          else svcDoForkFail (some i) (some (ours, theirs))
        else svcDoForkFail (some i) none
  else if fork then return true
  else svcDoForkFail none none

/-- `control_socket_run`, when a client waits. -/
def controlSocketRun (accepts nonblock : Bool) : CtlM n Unit := do
  match ← ctlAlloc with
  | none => return ()
  | some i =>
      if accepts then
        let client := (← get).lowestFree
        modify (·.openFd .other)
        if ← ctlCtor i client client true nonblock then return ()
        ctlDtor i
        ctlFree i
        modify (·.setHolder client none)
      else
        ctlFree i
        let _ ← ctlCtor i (-1) (-1) true nonblock

/-- The steps of the machine. The replies are those of `write` during the step. -/
inductive CtlEvent (n : ℕ)
  | clock (now : ℤ)
  | openOther
  | closeOther (fd : ℕ)
  | new (recvFd sendFd : ℤ) (isSocket nonblock append : Bool)
  | service (wantRead wantWrite socketpair nonblock fork : Bool)
  | accept (accepts nonblock : Bool)
  | notify (msg : Message) (replies : Fin n → List WriteReply)
  | read (i : Fin n) (reply : ReadReply) (garbage : List ℤ)
  | flush (i : Fin n) (replies : Fin n → List WriteReply)
  | iterate (i : Fin n) (input : CallInput) (last : Bool) (replies : Fin n → List WriteReply)
  | output (i : Fin n) (replies : Fin n → List WriteReply)

/-- A descriptor that is not used, or that some other part of the daemon holds. -/
def World.given (w : World n) (fd : ℤ) : Bool := fd = -1 ∨ w.holder fd = some .other

def ctlProgram : CtlEvent n → CtlM n Unit
  | .clock now => modify fun w => { w with now, next := wrap 64 (now + 200 * 4294967296), wakeRead := [], wakeWrite := [] }
  | .openOther => modify (·.openFd .other)
  | .closeOther fd => modify fun w => if w.holder fd = some .other then w.setHolder fd none else w
  | .new recvFd sendFd isSocket nonblock append => do
      let w ← get
      if w.given recvFd && w.given sendFd then ctlNew recvFd sendFd isSocket nonblock append
  | .service wantRead wantWrite socketpair nonblock fork => do
      if wantRead || wantWrite then svcControlSocket wantRead wantWrite socketpair nonblock fork
  | .accept accepts nonblock => controlSocketRun accepts nonblock
  | .notify msg replies => do
      modify fun w => { w with replies }
      ctlWrite none msg
  | .read i reply garbage => do
      if ((← get).client i).stateFn.isSome then let _ ← ctlReadMore i reply garbage
  | .flush i replies => do
      modify fun w => { w with replies }
      let ctl := (← get).client i
      if ctl.stateFn.isSome && decide (ctl.send.fd ≥ 0) then let _ ← ctlFlushOutbuf i
  | .iterate i input last replies => do
      modify fun w => { w with replies }
      iterate i input last
  | .output i replies => do
      modify fun w => { w with replies }
      outputPhase i

/-- One step of the machine; nothing is reached when a null pointer is followed. -/
def ctlStep (w : World n) (event : CtlEvent n) : Option (World n) := ((ctlProgram event).run w).map Prod.snd

/-- The state `ctl_init` leaves behind, with the descriptors the process was started with. -/
def World.init (n standard : ℕ) : World n where
  client _ := {}
  log _ := {}
  fds := List.replicate standard (some .other)
  sys := []
  delivered := []
  replies _ := []
  now := 0
  next := 0
  wakeRead := []
  wakeWrite := []

end DaemonProxy.Model
