import DaemonProxy.Model.Controller
import DaemonProxy.Model.FdTable
import DaemonProxy.Model.Format

/-! # Events (`controller.c`)

The messages that `ctl_notify_*` and the commands give to `ctl_write`, and their texts without the final newline.
-/

namespace DaemonProxy.Model

open Lib

/-- What `%s` prints. -/
def cString (text : Bytes) : Bytes := text.takeWhile (· ≠ 0)

/-- `sizeof(ctl->command_error_buf)`. -/
def errorBufSize : ℕ := 64

/-- What `snprintf` leaves in `command_error_buf`. -/
def errorBuf (text : Bytes) : Bytes := text.take (errorBufSize - 1)

def sigNameByNum (sigList : List SigListItem) (signum : ℤ) : Option Bytes :=
  (sigList.find? fun item => item.signum = signum).map SigListItem.signame

/-- The name of a signal in an event. -/
def sigText (sigList : List SigListItem) (signum : ℤ) : Bytes :=
  bytesOf "SIG" ++ (sigNameByNum sigList signum).getD (bytesOf "-?")

/-- `%d` of an expression that is cast to `int`. -/
def intCast (value : ℤ) : Bytes := intText (wrap 32 value)

/-- `%d` of `(int)(ts>>32)`. -/
def seconds (ts : ℤ) : Bytes := intCast (ts >>> (32 : ℕ))

/-- `WTERMSIG`, on Linux. -/
def wTermSig (wstat : ℤ) : ℤ := wstat % 128

/-- `WIFEXITED`. -/
def wIfExited (wstat : ℤ) : Bool := wTermSig wstat = 0

/-- `WEXITSTATUS`. -/
def wExitStatus (wstat : ℤ) : ℤ := wstat / 256 % 256

/-- The STATE of a service. -/
inductive StateWord
  | start | up | down
  deriving DecidableEq, Repr

/-- The branch of `ctl_notify_svc_state`, with the wait status where an exit reason is printed. -/
def stateReport (now : ℤ) (svc : SvcNotice) : StateWord × Option ℤ :=
  if svc.startTime = 0 then (.down, none)
  else if 0 ≤ wrap 64 (svc.startTime - now) ∧ svc.pid = 0 then (.start, none)
  else if svc.reapTime = 0 then (.up, none)
  else (.down, some svc.waitStatus)

/-- What `service.state` says after the name. -/
def stateText (sigList : List SigListItem) (now : ℤ) (svc : SvcNotice) : Bytes :=
  match stateReport now svc with
  | (.start, _) => bytesOf "start\t" ++ seconds svc.startTime ++ bytesOf "\t-\t-\t-\t-\t-"
  | (.up, _) =>
      bytesOf "up\t" ++ seconds svc.startTime ++ bytesOf "\t" ++ intCast svc.pid ++ bytesOf "\t-\t-\t" ++
        seconds (wrap 64 (now - svc.startTime)) ++ bytesOf "\t-"
  | (.down, none) => bytesOf "down\t-\t-\t-\t-\t-\t-"
  | (.down, some wstat) =>
      let reason := if wIfExited wstat then bytesOf "exit\t" ++ intText (wExitStatus wstat)
        else bytesOf "signal\t" ++ sigText sigList (wTermSig wstat)
      bytesOf "down\t" ++ seconds svc.reapTime ++ bytesOf "\t" ++ intCast svc.pid ++ bytesOf "\t" ++ reason ++ bytesOf "\t" ++
        seconds (wrap 64 (svc.reapTime - svc.startTime)) ++ bytesOf "\t" ++ seconds (wrap 64 (now - svc.reapTime))

/-- The text if the flag is set. -/
def flagText (flag : Bool) (text : String) : Bytes := if flag then bytesOf text else []

/-- What `fd.state` says after the name. `target` is the name of the peer of a pipe, if it has one, and the path of
anything else. -/
def fdText (flags : FdFlags) (target : Option Bytes) : Bytes :=
  if flags.pipe then
    bytesOf "pipe\t" ++
      (if flags.socket then bytesOf (if flags.sockInet then "inet," else if flags.sockInet6 then "inet6," else "unix,") else []) ++
      (if flags.socket then
        bytesOf (if flags.sockDgram then "dgram," else if flags.sockSeq then "seqpacket," else "stream,") else []) ++
      flagText flags.nonblock "nonblock," ++ bytesOf (if flags.write || flags.socket then "to" else "from") ++ bytesOf "\t" ++
      target.getD (bytesOf "?")
  else if flags.socket then
    bytesOf (if flags.special then "special" else "socket") ++ bytesOf "\t" ++
      bytesOf (if flags.sockInet then "inet" else if flags.sockInet6 then "inet6" else "unix") ++
      bytesOf (if flags.sockDgram then ",dgram" else if flags.sockSeq then ",seqpacket" else ",stream") ++
      flagText flags.bind ",bind" ++ (if flags.listen ≠ 0 then bytesOf ",listen=" ++ natText flags.listen else []) ++
      flagText flags.mkdir ",mkdir" ++ flagText flags.nonblock ",nonblock" ++ bytesOf "\t" ++ cString (target.getD [])
  else
    bytesOf (if flags.special then "special" else "file") ++ bytesOf "\t" ++
      bytesOf (if flags.write then (if flags.read then "read,write" else "write") else "read") ++
      flagText flags.append ",append" ++ flagText flags.create ",create" ++ flagText flags.trunc ",trunc" ++
      flagText flags.nonblock ",nonblock" ++ flagText flags.mkdir ",mkdir" ++ bytesOf "\t" ++ cString (target.getD [])

/-- `log_level_name`, for any level. -/
def filterName (level : ℤ) : Bytes :=
  if level = -3 then bytesOf "none"
  else if level = -2 then bytesOf "trace"
  else if level = -1 then bytesOf "debug"
  else if level = 0 then bytesOf "info"
  else if level = 1 then bytesOf "warning"
  else if level = 2 then bytesOf "error"
  else if level = 3 then bytesOf "fatal"
  else bytesOf "unknown"

/-- The variables of a service that have an event of their own. -/
inductive SvcVar
  | tags | args | fds
  deriving DecidableEq, Repr

def SvcVar.event : SvcVar → Bytes
  | .tags => bytesOf "service.tags"
  | .args => bytesOf "service.args"
  | .fds => bytesOf "service.fds"

/-- The messages. -/
inductive Notice where
  | signal (signum ts count : ℤ)
  | svcState (now : ℤ) (svc : SvcNotice)
  | svcDeleted (name : Bytes)
  | svcVar (var : SvcVar) (name text : Bytes)
  | svcAutoUp (name : Bytes) (interval : ℤ) (triggers : Bytes)
  | fdState (name : Bytes) (flags : FdFlags) (target : Option Bytes)
  | fdDeleted (name : Bytes)
  /-- The warnings of `service.fds` and `log.dest`. -/
  | fdUndefined (name : Bytes)
  | fdMissing (name : Bytes)
  | logFilter (level : ℤ)
deriving DecidableEq

/-- The text of a message, up to the newline at its end. -/
def Notice.body (sigList : List SigListItem) : Notice → Bytes
  | .signal signum ts count =>
      bytesOf "signal\t" ++ sigText sigList signum ++ bytesOf "\t" ++ seconds ts ++ bytesOf "\t" ++ intCast count
  | .svcState now svc => bytesOf "service.state\t" ++ svc.name ++ bytesOf "\t" ++ stateText sigList now svc
  | .svcDeleted name => bytesOf "service.state\t" ++ name ++ bytesOf "\tdeleted\t-\t-\t-\t-\t-\t-"
  | .svcVar var name text => var.event ++ bytesOf "\t" ++ name ++ bytesOf "\t" ++ text
  | .svcAutoUp name interval triggers =>
      if triggers = [] then bytesOf "service.auto_up\t" ++ name ++ bytesOf "\t-"
      else bytesOf "service.auto_up\t" ++ name ++ bytesOf "\t" ++ seconds interval ++ bytesOf "\t" ++ triggers
  | .fdState name flags target => bytesOf "fd.state\t" ++ name ++ bytesOf "\t" ++ fdText flags target
  | .fdDeleted name => bytesOf "fd.state\t" ++ name ++ bytesOf "\tdeleted"
  | .fdUndefined name => bytesOf "warning: fd \"" ++ name ++ bytesOf "\" is not yet defined"
  | .fdMissing name => bytesOf "warning\tfd \"" ++ name ++ bytesOf "\" does not exist"
  | .logFilter level => bytesOf "log.filter\t" ++ filterName level

def Notice.message (sigList : List SigListItem) (notice : Notice) : Message := ⟨notice.body sigList⟩

end DaemonProxy.Model
