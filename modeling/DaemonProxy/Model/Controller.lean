import Mathlib.Data.List.FinRange
import DaemonProxy.Lib.Total
import DaemonProxy.Model.StrSeg

/-! # Controllers (`controller.c`)

The controllers of the static pool, the descriptors of the process, and the two halves of `ctl_run`: one step of the
machine reads from a controller's descriptor, flushes its output, calls its state function once, or runs the output
phase for it. A step carries what the kernel and the other parts of the daemon contribute: what `write` and `read`
return, what `sig_get_new_events` and the iterators of `statedump` find, and what a command that belongs to another
module writes. Buffers are lists of bytes, as long as the position counters say.

Every message ends in a newline, as the format strings do. Beside the state proper, each client has a record of what
went in and out, and each system call on a descriptor is recorded with the holder the descriptor had at that time. So are
the descriptors that the kernel delivers with the input.
-/

namespace DaemonProxy.Model

open Lib

/-! ## State -/

/-- `CONTROLLER_RECV_BUF_SIZE`. -/
def recvBufSize : ℕ := 1024

/-- `CONTROLLER_SEND_BUF_SIZE`. -/
def sendBufSize : ℕ := 2048

/-- `CONTROLLER_LARGEST_WRITE`. -/
def largestWrite : ℕ := 1024

/-- `CONTROLLER_RECV_MAX_ANCILLARY_FD`. -/
def recvMaxAncillaryFd : ℕ := 2

/-- `CONTROLLER_WRITE_TIMEOUT`. -/
def writeTimeout : ℤ := 30 * 4294967296

/-- The state functions. -/
inductive CtlState
  | nextCommand | runCommand | endCommand | close | free | dumpFds | dumpServices | dumpSignals
  deriving DecidableEq, Repr

/-- The input half of `struct controller_s`; `buf` is `recv_buf` up to `recv_buf_pos`. -/
structure RecvSide where
  fd : ℤ := 0
  isSocket : Bool := false
  appendFinalNewline : Bool := false
  buf : Bytes := []
  overflow : Bool := false
  ancillaryFd : List ℤ := []
  lineLen : ℕ := 0

/-- The output half of `struct controller_s`; `buf` is `send_buf` up to `send_buf_pos`. -/
structure SendSide where
  fd : ℤ := 0
  buf : Bytes := []
  overflow : Bool := false
  timeoutReset : ℤ := 0
  timeoutClose : ℤ := 0
  blockedTs : ℤ := 0

/-- `struct controller_s`; the defaults are the zero-filled object. `none` is the null `state_fn` of a free one. -/
structure Controller where
  stateFn : Option CtlState := none
  recv : RecvSide := {}
  send : SendSide := {}

/-- Text for a client: one or more lines, the last of which is ended by the newline of the format string. -/
structure Message where
  body : Bytes

def Message.text (msg : Message) : Bytes := msg.body ++ [10]

/-- What `ctl_state_run_command` makes of a line. -/
inductive Item
  | line (text : Bytes)
  | tooLong
  deriving DecidableEq, Repr

/-- The outcome of `write`: it takes `more + 1` bytes, or all; it fails for now; it fails for good. -/
inductive WriteReply
  | accepted (more : ℕ)
  | again
  | fatal
  deriving DecidableEq

/-- What went through a client since it was constructed. -/
structure ClientLog where
  /-- The bytes read, and whether the end of the input was seen. -/
  stream : Bytes := []
  ended : Bool := false
  items : List Item := []
  /-- The messages `ctl_write` was given for the client while it was connected. -/
  offered : List Message := []
  /-- The bytes that `write` took. -/
  accepted : Bytes := []
  /-- The calls of `write`: the time of each, and its outcome. -/
  writes : List (ℤ × WriteReply) := []
  /-- The timeouts that `conn.event_timeout` has set. -/
  timeouts : List (ℤ × ℤ) := []

/-- Who an open descriptor belongs to. -/
inductive Holder (n : ℕ)
  | controller (i : Fin n)
  | other
  deriving DecidableEq

inductive SysOp
  | read | write | close
  deriving DecidableEq

/-- A system call of controller `client` on a descriptor that `holder` held. -/
structure SysCall (n : ℕ) where
  op : SysOp
  client : Fin n
  fd : ℤ
  holder : Option (Holder n)

/-- The outcome of `read` or `recvmsg`: some bytes, with a number of descriptors passed; the end; a failure. -/
inductive ReadReply
  | data (first : UInt8) (rest : Bytes) (passed : ℕ)
  | eof
  | again
  | fatal
  deriving DecidableEq

/-- The static pool of `n` controllers, and the process around it. `fds` lists the holders of the descriptors from
0 on. -/
structure World (n : ℕ) where
  client : Fin n → Controller
  log : Fin n → ClientLog
  fds : List (Option (Holder n))
  sys : List (SysCall n)
  /-- The descriptors that came in with `recvmsg`, and to whom. -/
  delivered : List (Fin n × ℤ)
  /-- What the next calls of `write` return, for each client. -/
  replies : Fin n → List WriteReply
  now : ℤ
  next : ℤ
  wakeRead : List ℤ
  wakeWrite : List ℤ

abbrev CtlM (n : ℕ) := StateT (World n) Option

variable {n : ℕ}

namespace World

def setClient (i : Fin n) (ctl : Controller) (w : World n) : World n :=
  { w with client := Function.update w.client i ctl }

def setRecv (i : Fin n) (recv : RecvSide) (w : World n) : World n :=
  w.setClient i { w.client i with recv }

def setSend (i : Fin n) (send : SendSide) (w : World n) : World n :=
  w.setClient i { w.client i with send }

def setState (i : Fin n) (state : CtlState) (w : World n) : World n :=
  w.setClient i { w.client i with stateFn := some state }

def setLog (i : Fin n) (log : ClientLog) (w : World n) : World n :=
  { w with log := Function.update w.log i log }

/-- Who holds descriptor `fd`. -/
def holder (w : World n) (fd : ℤ) : Option (Holder n) :=
  if fd < 0 then none else (w.fds[fd.toNat]?).join

/-- Gives descriptor `fd` to a holder, or frees it. -/
def setHolder (fd : ℤ) (holder : Option (Holder n)) (w : World n) : World n :=
  { w with fds := w.fds.set fd.toNat holder }

/-- The lowest free number. -/
def lowestFree (w : World n) : ℕ := w.fds.findIdx (·.isNone)

/-- Opens a descriptor with the lowest free number. -/
def openFd (holder : Holder n) (w : World n) : World n :=
  { w with fds := if w.lowestFree < w.fds.length then w.fds.set w.lowestFree (some holder) else w.fds ++ [some holder] }

/-- Records a system call. -/
def record (op : SysOp) (i : Fin n) (fd : ℤ) (w : World n) : World n :=
  { w with sys := w.sys ++ [⟨op, i, fd, w.holder fd⟩] }

/-- `close(fd)` in controller `i`; it fails on a number that is not open. -/
def closeFd (i : Fin n) (fd : ℤ) (w : World n) : World n :=
  let w := w.record .close i fd
  if w.holder fd = none then w else w.setHolder fd none

end World

/-! ## Output -/

def overflowLine : Bytes := bytesOf "overflow\n"

/-- The outcome of the next `write` to a client: what the script says, but `EBADF` on a number that is not open. -/
def World.writeReply (i : Fin n) (w : World n) : WriteReply :=
  if w.holder (w.client i).send.fd = none then .fatal else (w.replies i).headD .again

/-- The length of the buffer up to its last newline. -/
def throughEol (buf : Bytes) : ℕ := (buf.reverse.dropWhile (· ≠ 10)).length

namespace World

/-- The bookkeeping of one call of `write`. -/
def callWrite (i : Fin n) (w : World n) : World n :=
  let log := { w.log i with writes := (w.log i).writes ++ [(w.now, w.writeReply i)] }
  let w := (w.record .write i (w.client i).send.fd).setLog i log
  { w with replies := Function.update w.replies i (w.replies i).tail }

/-- `write` took `count` bytes. -/
def acceptBytes (i : Fin n) (count : ℕ) (w : World n) : World n :=
  let send := (w.client i).send
  let log := (w.callWrite i).log i
  ((w.callWrite i).setSend i { send with buf := send.buf.drop count, blockedTs := 0 }).setLog i
    { log with accepted := log.accepted ++ send.buf.take count }

/-- `write` failed for now; the time of the first such failure is kept, and is not zero. -/
def blockWrite (i : Fin n) (w : World n) : World n :=
  let send := (w.client i).send
  (w.callWrite i).setSend i
    { send with blockedTs := if send.blockedTs = 0 then (if w.now = 0 then 1 else w.now) else send.blockedTs }

/-- `write` failed for good. -/
def failWrite (i : Fin n) (w : World n) : World n :=
  let send := (w.client i).send
  ((w.callWrite i).closeFd i send.fd).setSend i { send with fd := -1 }

def dropOutput (i : Fin n) (w : World n) : World n := w.setSend i { (w.client i).send with buf := [] }

/-- The overflow flag is turned into a line. -/
def markOverflow (i : Fin n) (w : World n) : World n :=
  w.setSend i { (w.client i).send with buf := overflowLine, overflow := false }

end World

/-- The loop of `ctl_flush_outbuf`, which starts again after an overflow line. -/
def flushLoop (i : Fin n) : ℕ → CtlM n Bool
  | 0 => failure
  | fuel + 1 => do
      let w ← get
      let send := (w.client i).send
      if send.buf = [] then
        if send.overflow then
          modify (·.markOverflow i)
          flushLoop i fuel
        else return true
      else if send.fd = -1 then
        modify (·.dropOutput i)
        flushLoop i fuel
      else if throughEol send.buf = 0 then
        if send.overflow then
          modify (·.dropOutput i)
          flushLoop i fuel
        else return false
      else
        match w.writeReply i with
        | .accepted more =>
            modify (·.acceptBytes i (min (more + 1) (throughEol send.buf)))
            flushLoop i fuel
        | .again =>
            modify (·.blockWrite i)
            return false
        | .fatal =>
            modify (·.failWrite i)
            return true

def ctlFlushOutbuf (i : Fin n) : CtlM n Bool := do
  let w ← get
  flushLoop i ((w.client i).send.buf.length + 12)

def ctlOutBufReady (i : Fin n) : CtlM n Bool := do
  let send := ((← get).client i).send
  if send.buf.length ≤ sendBufSize - largestWrite then return true
  else if send.overflow then return true
  else ctlFlushOutbuf i

namespace World

/-- The client is allocated and has a descriptor to write to. -/
def connected (w : World n) (i : Fin n) : Bool := (w.client i).stateFn.isSome && decide (0 ≤ (w.client i).send.fd)

/-- The message is put into the buffer of the client. -/
def queueText (i : Fin n) (msg : Message) (text : Bytes) (w : World n) : World n :=
  (w.setSend i { (w.client i).send with buf := (w.client i).send.buf ++ text }).setLog i
    { w.log i with offered := (w.log i).offered ++ [msg] }

/-- The message is dropped, and the client marked as overflowed. -/
def refuse (i : Fin n) (msg : Message) (w : World n) : World n :=
  (w.setSend i { (w.client i).send with overflow := true }).setLog i
    { w.log i with offered := (w.log i).offered ++ [msg] }

end World

/-- Where the text of a message already stands: in the buffer of a client, from a position on. -/
abbrev MsgData (n : ℕ) := Option (Fin n × ℕ)

/-- `ctl_write` for one client, from `check_space` on; `msgLen` is `none` as long as it is -1. -/
def writeTo (msg : Message) (i : Fin n) : ℕ → MsgData n → Option ℕ → CtlM n (MsgData n × Option ℕ)
  | 0, _, _ => failure
  | fuel + 1, msgData, msgLen => do
      let pos := ((← get).client i).send.buf.length
      let bufFree := sendBufSize - pos
      if msgLen.any (bufFree ≤ ·) then
        let _ ← ctlFlushOutbuf i
        if pos ≠ ((← get).client i).send.buf.length then writeTo msg i fuel msgData msgLen
        else
          modify (·.refuse i msg)
          return (msgData, msgLen)
      else
        match msgData with
        | some (k, start) =>
            let w ← get
            modify (·.queueText i msg (((w.client k).send.buf.drop start).take (msgLen.getD 0)))
            return (msgData, msgLen)
        | none =>
            -- `vsnprintf` returns the full length, whether it fits or not
            if bufFree ≤ msg.text.length then writeTo msg i fuel none (some msg.text.length)
            else
              modify (·.queueText i msg msg.text)
              return (some (i, pos), some msg.text.length)

/-- The loop of `ctl_write` over its destinations. -/
def writeAll (msg : Message) : List (Fin n) → MsgData n → Option ℕ → CtlM n Unit
  | [], _, _ => return ()
  | i :: rest, msgData, msgLen => do
      let pos := ((← get).client i).send.buf.length
      let found ← writeTo msg i (pos + 3) msgData msgLen
      writeAll msg rest found.1 found.2

/-- `ctl_write` to one client, or to all. Clients with the overflow flag do not get the message. -/
def ctlWrite (singleDest : Option (Fin n)) (msg : Message) : CtlM n Unit := do
  let w ← get
  let addressed := (match singleDest with
    | some i => [i]
    | none => List.finRange n).filter w.connected
  let dest := addressed.filter fun i => !(w.client i).send.overflow
  modify fun w => (addressed.filter fun i => (w.client i).send.overflow).foldl (fun w i => w.refuse i msg) w
  writeAll msg dest none none

def ctlNotifyError (i : Fin n) (text : Bytes) : CtlM n Unit := ctlWrite (some i) ⟨bytesOf "error\t" ++ text⟩

end DaemonProxy.Model
