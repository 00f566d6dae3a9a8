import DaemonProxy.Lib.Total
import DaemonProxy.Model.Format

/-! # Logging (`log.c`)

The log module keeps one buffer of text for a descriptor that may block or go away. What `write` returns is given as
a list of replies, and what `fd_by_name` finds as a function. Beside the state proper, the writes that took something
and the messages that passed the filter are recorded.
-/

namespace DaemonProxy.Model

open Lib

/-- `sizeof(log_buffer)`. -/
def logBufferSize : ℕ := 1024

/-- `LOG_RETRY_DELAY`. -/
def logRetryDelay : ℤ := 2147483648

/-- The levels of messages. -/
inductive LogLevel
  | trace | debug | info | warning | error | fatal
  deriving DecidableEq, Repr

/-- `LOG_LEVEL_TRACE` and the others. -/
def LogLevel.value : LogLevel → ℤ
  | .trace => -2
  | .debug => -1
  | .info => 0
  | .warning => 1
  | .error => 2
  | .fatal => 3

/-- `log_level_name`, for the level of a message. -/
def logLevelName : LogLevel → Bytes
  | .trace => bytesOf "trace"
  | .debug => bytesOf "debug"
  | .info => bytesOf "info"
  | .warning => bytesOf "warning"
  | .error => bytesOf "error"
  | .fatal => bytesOf "fatal"

/-- The outcome of `write`: it takes `more + 1` bytes, or all; it fails. -/
inductive LogReply
  | accepted (more : ℕ)
  | failed
  deriving DecidableEq, Repr

structure LogState where
  filter : ℤ := -1
  /-- `log_dest_fd_name`; empty as long as no destination was named. -/
  destFdName : Bytes := []
  /-- `log_buffer` up to `log_buf_pos`. -/
  buffer : Bytes := []
  fd : ℤ := 2
  msgLost : ℕ := 0
  blocked : Bool := false
  blockedNextAttempt : ℤ := 0
  /-- What the next calls of `write` return. -/
  replies : List LogReply := []
  /-- The writes that took something, with the descriptor. -/
  written : List (ℤ × Bytes) := []
  /-- The messages that passed the filter: the line that was put into the buffer, or none. -/
  history : List (Option Bytes) := []

abbrev LogM := StateT LogState Option

/-! ## Flushing -/

/-- The line that stands for lost messages. -/
def lostLine (count : ℕ) : Bytes := bytesOf "warning: lost " ++ natText count ++ bytesOf " log messages\n"

namespace LogState

/-- `write` took `count` bytes. -/
def takeBytes (count : ℕ) (s : LogState) : LogState :=
  { s with
    buffer := s.buffer.drop count, replies := s.replies.tail, written := s.written ++ [(s.fd, s.buffer.take count)] }

/-- `write` failed. -/
def block (s : LogState) : LogState := { s with replies := s.replies.tail, blocked := true }

/-- Appends the line about lost messages, if there are any and it fits. -/
def appendLost (s : LogState) : LogState :=
  if s.msgLost ≠ 0 ∧ (lostLine s.msgLost).length < logBufferSize - s.buffer.length then
    { s with buffer := s.buffer ++ lostLine s.msgLost, msgLost := 0 }
  else s

end LogState

/-- The loop of `log_flush`. -/
def logFlushLoop : ℕ → LogM Bool
  | 0 => failure
  | fuel + 1 => do
      let s ← get
      if s.buffer = [] then return true
      else
        match s.replies.headD .failed with
        | .failed =>
            modify LogState.block
            return false
        | .accepted more =>
            modify (·.takeBytes (min (more + 1) s.buffer.length))
            modify LogState.appendLost
            logFlushLoop fuel

def logFlush : LogM Bool := do
  let s ← get
  if s.fd < 0 ∨ s.blocked then return false
  else logFlushLoop (s.buffer.length + 64)

/-! ## The destination -/

def logFdReset : LogM Unit := modify fun s => { s with fd := -1, blocked := true, blockedNextAttempt := 0 }

/-- Without a descriptor, takes that of the handle with the name; `fdnum` gives those of the handles that exist. -/
def LogState.findFd (fdnum : Bytes → Option ℤ) (s : LogState) : LogState :=
  { s with fd := if s.fd < 0 ∧ s.destFdName ≠ [] then (fdnum s.destFdName).getD s.fd else s.fd }

def logFdAttach (fdnum : Bytes → Option ℤ) : LogM Bool := do
  modify (·.findFd fdnum)
  if (← get).fd < 0 then
    modify fun s => { s with blocked := true }
    return false
  else
    modify fun s => { s with blocked := false, blockedNextAttempt := 0 }
    if (← get).buffer ≠ [] then let _ ← logFlush
    return true

def logFdSetName (name : Bytes) (fdnum : Bytes → Option ℤ) : LogM Unit := do
  logFdReset
  modify fun s => { s with destFdName := name }
  let _ ← logFdAttach fdnum

/-! ## Messages -/

namespace LogState

/-- A line is put into the buffer. -/
def queue (line : Bytes) (s : LogState) : LogState :=
  { s with buffer := s.buffer ++ line, history := s.history ++ [some line] }

/-- A message is lost. -/
def lose (s : LogState) : LogState := { s with msgLost := s.msgLost + 1, history := s.history ++ [none] }

end LogState

/-- `log_msg_lost++`; the count is an `int`, for which an overflow is undefined. -/
def loseMessage : LogM Unit := do
  if (← get).msgLost = 2147483647 then failure
  else modify LogState.lose

/-- The text of a message in the log. -/
def logLine (level : LogLevel) (text : Bytes) : Bytes := logLevelName level ++ bytesOf ": " ++ text ++ [10]

def logWrite (level : LogLevel) (text : Bytes) : LogM Bool := do
  let s ← get
  if s.filter ≥ level.value then return true
  else if s.msgLost ≠ 0 then
    loseMessage
    return false
  else
    let heading := logLevelName level ++ bytesOf ": "
    let free := logBufferSize - s.buffer.length
    if free ≤ heading.length then
      loseMessage
      return false
    else if free - heading.length ≤ text.length then
      loseMessage
      return false
    else
      modify (·.queue (logLine level text))
      let _ ← logFlush
      return true

def logSetFilter (value : ℤ) : LogM Unit :=
  modify fun s => { s with filter := if value > 3 then 3 else if value < -3 then -3 else value }

/-- What `log_run` asks the main loop to wake on. -/
inductive LogWake
  | time (ts : ℤ)
  | writeable (fd : ℤ)
  deriving DecidableEq, Repr

/-- The attempt of `log_run` to write again. If that fails too, the next one is made after a delay. -/
def logRetry (now : ℤ) : LogM Unit := do
  modify fun s => { s with blocked := false, blockedNextAttempt := 0 }
  let _ ← logFlush
  if (← get).blocked then
    let next := wrap 64 (now + logRetryDelay)
    modify fun s => { s with blockedNextAttempt := if next = 0 then 1 else next }

/-- The part of `log_run` for a log with a descriptor. -/
def logRunBlocked (now : ℤ) (ready : ℤ → Bool) : LogM (Option LogWake) := do
  let s ← get
  if s.blocked = false then return none
  else
    if ready s.fd ∨ s.blockedNextAttempt ≠ 0 ∧ wrap 64 (now - s.blockedNextAttempt) > 0 then logRetry now
    let s ← get
    if s.blocked = false then return none
    else if s.blockedNextAttempt ≠ 0 then return some (.time s.blockedNextAttempt)
    else return some (.writeable s.fd)

/-- `log_run`; `ready` are the descriptors that `select` found writeable. -/
def logRun (now : ℤ) (ready : ℤ → Bool) (fdnum : Bytes → Option ℤ) : LogM (Option LogWake) := do
  if (← get).fd < 0 then
    let attached ← logFdAttach fdnum
    if attached = false then return none
    else logRunBlocked now ready
  else logRunBlocked now ready

/-! ## The machine -/

/-- The calls into the log module, with what `write` returns during the call. -/
inductive LogEvent
  | write (level : LogLevel) (text : Bytes) (replies : List LogReply)
  | setFilter (value : ℤ)
  | reset
  | setName (name : Bytes) (fdnum : Bytes → Option ℤ) (replies : List LogReply)
  | run (now : ℤ) (ready : ℤ → Bool) (fdnum : Bytes → Option ℤ) (replies : List LogReply)

def logProgram : LogEvent → LogM Unit
  | .write level text replies => do
      modify fun s => { s with replies }
      let _ ← logWrite level text
  | .setFilter value => logSetFilter value
  | .reset => logFdReset
  | .setName name fdnum replies => do
      modify fun s => { s with replies }
      logFdSetName name fdnum
  | .run now ready fdnum replies => do
      modify fun s => { s with replies }
      let _ ← logRun now ready fdnum

/-- One step of the machine. -/
def logStep (s : LogState) (event : LogEvent) : Option LogState := ((logProgram event).run s).map Prod.snd

/-- The state after `log_init`. -/
def LogState.init : LogState := {}

end DaemonProxy.Model
