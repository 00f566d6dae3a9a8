import Mathlib.Data.List.DropRight
import Mathlib.Data.List.SplitOn
import DaemonProxy.Model.Args

/-! # The client library (`Daemonproxy::Protocol`)

What a controller script knows of the daemon: `process_event` with its handlers, over the state that they build, and `send`,
with the commands whose completion the library waits for. A hash is a function, and a key that is not in it has no value. An
undefined value is the empty string where it is a key.

Left out are the accessors of the state, `tags_hash`, which they fill, and the handles that are read from and written to.
`_get_cmd_watcher` calls `weaken`, which the package does not import; the entry it makes is there by then.
-/

namespace DaemonProxy.Model

/-! ## State -/

/-- The entry of a service in the state. -/
structure ClientService where
  state : Option Bytes := none
  timestamp : Option Bytes := none
  pid : Option Bytes := none
  exitReason : Option Bytes := none
  exitValue : Option Bytes := none
  uptime : Option Bytes := none
  downtime : Option Bytes := none
  restartInterval : Option Bytes := none
  triggers : Option (List Bytes) := none
  args : Option (List Bytes) := none
  tags : Option (List Bytes) := none
  fds : Option (List Bytes) := none
  deriving DecidableEq, Repr

structure ClientFd where
  type : Option Bytes := none
  flags : Option Bytes := none
  descrip : Option Bytes := none
  deriving DecidableEq, Repr

/-- The state, and the commands by their identifiers: those in `pending_commands`, and those that are complete. -/
structure Client where
  services : Bytes → Option ClientService := fun _ => none
  fds : Bytes → Option ClientFd := fun _ => none
  pendingCommands : Bytes → Bool := fun _ => false
  complete : Bytes → Bool := fun _ => false

namespace Client

/-- Assigns to fields of a service, which is added if it is not there. -/
def updateService (c : Client) (name : Bytes) (f : ClientService → ClientService) : Client :=
  { c with services := Function.update c.services name (some (f ((c.services name).getD {}))) }

/-! ## Events -/

/-- A dash is an undefined value. -/
def defined (text : Bytes) : Option Bytes := if text = bytesOf "-" then none else some text

def processEventServiceState (c : Client) (args : List Bytes) : Client :=
  let serviceName := args.headD []
  let value (k : ℕ) := args.tail[k]?.bind defined
  let c := c.updateService serviceName fun svc => { svc with
    state := value 0, timestamp := value 1, pid := value 2, exitReason := value 3, exitValue := value 4
    uptime := value 5, downtime := value 6 }
  if value 0 = some (bytesOf "deleted") then { c with services := Function.update c.services serviceName none } else c

def processEventServiceAutoUp (c : Client) (args : List Bytes) : Client :=
  let triggers := args.tail.tail
  c.updateService (args.headD []) fun svc => { svc with
    restartInterval := args.tail[0]?.bind defined, triggers := if triggers = [] then none else some triggers }

def processEventServiceArgs (c : Client) (args : List Bytes) : Client :=
  c.updateService (args.headD []) fun svc => { svc with args := some args.tail }

def processEventServiceTags (c : Client) (args : List Bytes) : Client :=
  c.updateService (args.headD []) fun svc => { svc with tags := some args.tail }

def processEventServiceFds (c : Client) (args : List Bytes) : Client :=
  c.updateService (args.headD []) fun svc => { svc with fds := some args.tail }

def processEventFdState (c : Client) (args : List Bytes) : Client :=
  { c with fds := Function.update c.fds (args.headD []) (some ⟨args.tail[0]?, args.tail[1]?, args.tail[2]?⟩) }

/-- The first argument is skipped. A command that is waited for is complete, and is not waited for any more. -/
def processEventEcho (c : Client) (args : List Bytes) : Except String Client :=
  match args.tail with
  | [] => .ok c
  | first :: rest =>
      if first = bytesOf "--cmd-complete--" then
        match rest with
        | [] => .error "No command id in --cmd-complete-- event"
        | id :: _ =>
            if c.pendingCommands id then
              .ok { c with
                pendingCommands := Function.update c.pendingCommands id false, complete := Function.update c.complete id true }
            else .ok c
      else .ok c

/-- The methods whose names start with `process_event_`. -/
inductive EventMethod
  | serviceState | serviceAutoUp | serviceArgs | serviceTags | serviceFds | fdState | echo
  deriving DecidableEq, Repr

/-- Their names, without `process_event_`. -/
def eventMethods : List (Bytes × EventMethod) :=
  [(bytesOf "service_state", .serviceState), (bytesOf "service_auto_up", .serviceAutoUp), (bytesOf "service_args", .serviceArgs),
    (bytesOf "service_tags", .serviceTags), (bytesOf "service_fds", .serviceFds), (bytesOf "fd_state", .fdState),
    (bytesOf "echo", .echo)]

/-- `can`, for the method of an event; the dots of its name are underscores. -/
def eventMethod (eventId : Bytes) : Option EventMethod :=
  (eventMethods.find? fun entry => entry.1 = eventId.map fun c => if c = 46 then 95 else c).map Prod.snd

def callMethod (c : Client) (args : List Bytes) : EventMethod → Except String Client
  | .serviceState => .ok (c.processEventServiceState args)
  | .serviceAutoUp => .ok (c.processEventServiceAutoUp args)
  | .serviceArgs => .ok (c.processEventServiceArgs args)
  | .serviceTags => .ok (c.processEventServiceTags args)
  | .serviceFds => .ok (c.processEventServiceFds args)
  | .fdState => .ok (c.processEventFdState args)
  | .echo => c.processEventEcho args

def chomp (text : Bytes) : Bytes := if text.getLast? = some 10 then text.dropLast else text

/-- `split /\t/`, which leaves out empty fields at the end. -/
def splitTabs (text : Bytes) : List Bytes := (text.splitOn tab).rdropWhile (· = [])

/-- The fields of an event are dispatched. An event without a method is only logged. -/
def processFields (c : Client) : List Bytes → Except String Client
  | [] => .ok c
  | eventId :: args =>
      match eventMethod eventId with
      | some method => c.callMethod args method
      | none => .ok c

def processEvent (c : Client) (text : Bytes) : Except String Client := c.processFields (splitTabs (chomp text))

/-! ## Commands -/

/-- What `send` prints. -/
def send (fields : List Bytes) : Bytes := [tab].intercalate fields ++ [10]

/-- What `_get_cmd_watcher` prints, and what it leaves, where `id` is the new command as a string. -/
def getCmdWatcher (c : Client) (id : Bytes) : Bytes × Client :=
  (send [bytesOf "echo", bytesOf "--cmd-complete--", id],
    { c with pendingCommands := Function.update c.pendingCommands id true, complete := Function.update c.complete id false })

/-- What `reset` leaves; it prints the line `statedump`. -/
def reset (c : Client) : Client := { c with services := fun _ => none, fds := fun _ => none }

end Client

end DaemonProxy.Model
