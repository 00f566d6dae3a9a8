import DaemonProxy.Model.Commands

/-! # control-socket.c: the file of the control socket

The commands know of the control socket by its descriptor. Here is what `control_socket_start` and `control_socket_stop` do to the
file system: an entry of a directory has the mode and the owner that `stat` reports, and other processes may change the entries
between the commands, and before `bind`.
-/

namespace DaemonProxy.Model.ControlSocket

/-- `S_IFMT`. -/
def sIfmt : ℕ := 0o170000

/-- `S_IFSOCK`. -/
def sIfsock : ℕ := 0o140000

/-- `S_IFDIR`. -/
def sIfdir : ℕ := 0o040000

/-- `struct stat`, as far as it is read. -/
structure Stat where
  mode : ℕ
  uid : ℕ
deriving DecidableEq, Repr

/-- An entry of a directory. For a link that leads nowhere `stat` fails. -/
structure Entry where
  stat : Option Stat
deriving DecidableEq, Repr

/-- The entries, by path. -/
abbrev Files := Bytes → Option Entry

def stat (files : Files) (path : Bytes) : Option Stat := (files path).bind Entry.stat

structure State where
  files : Files
  /-- `control_socket`. -/
  controlSocket : ℤ
  /-- `control_socket_addr.sun_path`, up to the first zero. -/
  sunPath : Bytes

/-- The result of a function, with the entries that its calls of `unlink` removed. -/
structure Outcome (α : Type) where
  result : α
  state : State
  removed : List (Bytes × Stat)

/-- What the kernel answers while a socket is made. -/
structure Replies where
  /-- The calls of `unlink` for the last path, for the new path, and after a failure. -/
  unlinkLast : Bool := true
  unlink : Bool := true
  unlinkFailed : Bool := true
  /-- What `socket` returns, if it does not fail. -/
  socket : Option ℕ := some 3
  /-- The entries when `bind` is called. -/
  filesAtBind : Files := fun _ => none
  bind : Bool := true
  /-- The permissions that the umask leaves. -/
  permissions : Fin 4096 := 0
  listen : Bool := true
  nonblock : Bool := true

/-- `remove_any_socket`; `unlink` never removes a directory. -/
def removeAnySocket (euid : ℕ) (unlink : Bool) (path : Bytes) (s : State) : Outcome Bool :=
  match stat s.files path with
  | none => ⟨true, s, []⟩
  | some st =>
      if st.mode &&& sIfsock = 0 ∨ ¬(st.uid = euid ∨ st.uid = euid) then ⟨false, s, []⟩
      else if unlink = true ∧ st.mode &&& sIfmt ≠ sIfdir then
        ⟨true, { s with files := Function.update s.files path none }, [(path, st)]⟩
      else ⟨false, s, []⟩

def controlSocketStop (euid : ℕ) (unlink : Bool) (s : State) : Outcome Unit :=
  if 0 ≤ s.controlSocket then
    let tidied := removeAnySocket euid unlink s.sunPath { s with controlSocket := -1 }
    ⟨(), tidied.state, tidied.removed⟩
  else ⟨(), s, []⟩

/-- `bind` makes the entry, if there is none. -/
def bindSocket (euid : ℕ) (replies : Replies) (s : State) : Option State :=
  if replies.bind = true ∧ s.files s.sunPath = none then
    some { s with files := Function.update s.files s.sunPath (some ⟨some ⟨sIfsock ||| replies.permissions, euid⟩⟩) }
  else none

/-- `control_socket_start`, from `socket` on. -/
def listenAt (euid : ℕ) (replies : Replies) (s : State) : Outcome Bool :=
  match replies.socket with
  | none => ⟨false, { s with controlSocket := -1 }, []⟩
  | some fd =>
      let opened := { s with controlSocket := fd, files := replies.filesAtBind }
      let failed (s : State) : Outcome Bool :=
        let stopped := controlSocketStop euid replies.unlinkFailed s
        ⟨false, stopped.state, stopped.removed⟩
      match bindSocket euid replies opened with
      | none => failed opened
      | some bound => if replies.listen = true ∧ replies.nonblock = true then ⟨true, bound, []⟩ else failed bound

/-- `control_socket_start`, up to `socket`. -/
def clearPath (euid : ℕ) (path : Bytes) (replies : Replies) (s : State) : Outcome Bool :=
  let stopped := controlSocketStop euid replies.unlinkLast s
  let cleared := removeAnySocket euid replies.unlink path { stopped.state with sunPath := path }
  ⟨cleared.result, cleared.state, stopped.removed ++ cleared.removed⟩

def controlSocketStart (euid : ℕ) (path : Bytes) (replies : Replies) (s : State) : Outcome Bool :=
  if sunPathSize ≤ path.length ∨ path.head?.all (· = 0) then ⟨false, s, []⟩
  else
    let cleared := clearPath euid (cString path) replies s
    if cleared.result = true then
      let started := listenAt euid replies cleared.state
      ⟨started.result, started.state, cleared.removed ++ started.removed⟩
    else cleared

/-- `socket.create` and the option `-S`, `socket.delete`, and what other processes do to the files. -/
inductive Event where
  | start (path : Bytes) (replies : Replies)
  | stop (unlink : Bool)
  | others (files : Files)

/-- What is removed, and whether a start succeeds. -/
def run (euid : ℕ) (s : State) : Event → Outcome Bool
  | .start path replies => controlSocketStart euid path replies s
  | .stop unlink => ⟨true, (controlSocketStop euid unlink s).state, (controlSocketStop euid unlink s).removed⟩
  | .others files => ⟨true, { s with files }, []⟩

def step (euid : ℕ) (s : State) (event : Event) : State := (run euid s event).state

/-- `control_socket_init`. -/
def init (files : Files) : State := ⟨files, -1, []⟩

end DaemonProxy.Model.ControlSocket
