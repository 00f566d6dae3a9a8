import DaemonProxy.Model.Service

/-! # Named file descriptors (`fd.c`)

A handle object is an address `ι`; memory keeps its contents when an object is deleted, as it does in
an object pool. Objects are numbered in the order of their creation, the numbers of the objects passed
to `fd_delete` are recorded, and so is which object a command gave to a name: these three records only
serve to state what the table should be. The calls that open a descriptor come before an object is
made, and the commands here start from their results.
-/

namespace DaemonProxy.Model

open Lib

/-- `fd_flags_t`. -/
structure FdFlags where
  read : Bool := false
  write : Bool := false
  create : Bool := false
  append : Bool := false
  mkdir : Bool := false
  trunc : Bool := false
  nonblock : Bool := false
  pipe : Bool := false
  socket : Bool := false
  sockInet : Bool := false
  sockInet6 : Bool := false
  sockDgram : Bool := false
  sockSeq : Bool := false
  bind : Bool := false
  special : Bool := false
  isConst : Bool := false
  listen : ℕ := 0
deriving DecidableEq, Repr

/-- `union attr_union_u`: null, `file.path` or `pipe.peer`. -/
inductive FdAttr (ι : Type) where
  | null
  | path (text : Bytes)
  | peer (x : ι)
deriving DecidableEq, Repr

/-- `struct fd_s`, with the number of the object. -/
structure FdObj (ι : Type) where
  size : ℕ
  flags : FdFlags
  fd : ℤ
  attr : FdAttr ι
  name : Bytes
  serial : ℕ
deriving DecidableEq, Repr

/-- What a command did to a name. -/
inductive FdChange where
  | assigned (name : Bytes) (serial : ℕ)
  | removed (name : Bytes)
deriving DecidableEq, Repr

structure FdTable (ι : Type) where
  objects : ι → FdObj ι
  /-- `fd_list[0 .. fd_list_count)`. -/
  fdList : List ι
  byName : Heap ι
  /-- `fd_obj_pool_size_each`, if there is a pool. -/
  poolSize : Option ℕ
  /-- The arguments of the calls of `close`. -/
  closed : List ℤ
  created : ℕ
  deleted : List ℕ
  history : List FdChange

abbrev FdM (ι : Type) := StateT (FdTable ι) Option

/-- `sizeof(fd_t)`, with 64-bit pointers. -/
def sizeofFd : ℕ := 72

section Objects

variable {ι : Type} [DecidableEq ι]

def fdAt (x : ι) : FdM ι (FdObj ι) := return (← get).objects x

def updateFd (x : ι) (f : FdObj ι → FdObj ι) : FdM ι Unit :=
  modify fun s => { s with objects := Function.update s.objects x (f (s.objects x)) }

/-- A tree function on `fd_by_name_index`, which holds each object at most once. -/
def onFdIndex {α : Type} (m : ℕ → TreeM ι α) : FdM ι α := do
  zoom FdTable.byName (fun h s => { s with byName := h }) (m ((← get).fdList.length + 2))

def fdByNameCompare (objects : ι → FdObj ι) (name : Bytes) (x : ι) : ℤ := strsegCmp name (objects x).name

def fdByName (name : Bytes) : FdM ι (Option ι) := do
  let s ← get
  return (← onFdIndex fun fuel => rbTreeFind fuel (fdByNameCompare s.objects) name).object?

/-- `fd_new`; `mem` is what the allocator or the pool offers, which is never memory that is in use. -/
def fdNew (size : ℕ) (name : Bytes) (mem : Option ι) : FdM ι (Option ι) := do
  let s ← get
  match mem with
  | none => return none
  | some x =>
      if x ∈ s.fdList then return none
      else if ∃ each ∈ s.poolSize, each < sizeofFd + name.length + 1 then return none
      else
        let size := s.poolSize.getD size
        modify fun s => { s with fdList := s.fdList ++ [x], created := s.created + 1 }
        updateFd x fun _ => { size, flags := {}, fd := -1, attr := .null, name, serial := s.created }
        onFdIndex fun _ => store (.node x) fun _ => ⟨.null, .null, .null, .unassigned⟩
        onFdIndex fun _ => rbTreeNodeInit (.node x)
        let s ← get
        let _ ← onFdIndex fun fuel => rbTreeAdd fuel (fdByNameCompare s.objects) (.node x) name
        return some x

/-- `fd->attr.pipe.peer->attr.pipe.peer= NULL`, for a pipe with a peer. -/
def dropPeer (fd : FdObj ι) : FdM ι Unit := do
  if fd.flags.pipe then
    match fd.attr with
    | .null => return ()
    | .peer y => updateFd y fun peer => { peer with attr := .null }
    | .path _ => failure

def fdDelete (x : ι) : FdM ι Unit := do
  let fd ← fdAt x
  modify fun s => { s with deleted := fd.serial :: s.deleted }
  dropPeer fd
  if fd.fd ≥ 0 then modify fun s => { s with closed := s.closed ++ [fd.fd] }
  let _ ← onFdIndex fun fuel => rbTreeNodePrune fuel (.node x)
  modify fun s => { s with fdList := swapRemove x s.fdList }

/-- `old && old->flags.is_const`. -/
def isConstFd (old : Option ι) : FdM ι Bool := do
  match old with
  | none => return false
  | some x => return (← fdAt x).flags.isConst

/-- `if (old) fd_delete(old)`. -/
def deleteOld (old : Option ι) : FdM ι Unit := do
  match old with
  | none => return ()
  | some x => fdDelete x

/-- `append_elipses`: as much of the text as fits, marked when it is cut. -/
def appendElipses (bufsize : ℤ) (source : Bytes) : Bytes :=
  if source.length < bufsize then source
  else if bufsize ≥ 4 then source.take (bufsize - 4).toNat ++ bytesOf "..."
  else bytesOf "..."

def fdNewFile (name : Bytes) (fdnum : ℤ) (flags : FdFlags) (path : Bytes) (mem : Option ι) : FdM ι (Option ι) := do
  let old ← fdByName name
  if ← isConstFd old then return none
  else
    match ← fdNew (sizeofFd + name.length + 1 + path.length + 1) name mem with
    | none => return none
    | some f =>
        deleteOld old
        updateFd f fun fd => { fd with
          fd := fdnum, flags, attr := .path (appendElipses (fd.size - sizeofFd - name.length - 1) path) }
        return some f

/-- `fd_new_unknown`; `flags` is what `fd_load_flags` finds. -/
def fdNewUnknown (name : Bytes) (fdnum : ℤ) (flags : FdFlags) (mem : Option ι) : FdM ι (Option ι) :=
  fdNewFile name fdnum flags (bytesOf "unknown") mem

/-- `fd_new_pipe`. The last assignment to `read` is to the first object, as in the source. -/
def fdNewPipe (name1 : Bytes) (num1 : ℤ) (name2 : Bytes) (num2 : ℤ) (flags : FdFlags) (mem1 mem2 : Option ι) :
    FdM ι (Option (ι × ι)) := do
  let old1 ← fdByName name1
  let old2 ← fdByName name2
  let const1 ← isConstFd old1
  let const2 ← isConstFd old2
  if const1 || const2 then return none
  else
    match ← fdNew (sizeofFd + name1.length + 1) name1 mem1 with
    | none => return none
    | some f1 =>
        match ← fdNew (sizeofFd + name2.length + 1) name2 mem2 with
        | none =>
            fdDelete f1
            return none
        | some f2 =>
            deleteOld old1
            deleteOld old2
            updateFd f1 fun fd => { fd with
              flags := { flags with pipe := true, write := flags.socket, read := flags.socket }
              fd := num1, attr := .peer f2 }
            updateFd f2 fun fd => { fd with
              flags := { flags with pipe := true, write := true }, fd := num2, attr := .peer f1 }
            return some (f1, f2)

end Objects

section Commands

variable {ι : Type} [DecidableEq ι]

/-- `ctl_get_arg_fd` for a name that was taken off the command. -/
def ctlGetArgFd (name : Bytes) (existing assignable : Bool) : FdM ι (Except String (Option ι)) := do
  if name = [] then return .error "Expected file descriptor name"
  else if !svcCheckName name then return .error "Invalid file descriptor name"
  else
    let fd ← fdByName name
    if assignable && (← isConstFd fd) then return .error "File descriptor cannot be altered"
    else if existing && fd.isNone then return .error "No such file descriptor"
    else return .ok fd

/-- The entry in the history for an object that a command made. -/
def recordAssigned (x : ι) : FdM ι Unit :=
  modify fun s => { s with history := s.history ++ [.assigned (s.objects x).name (s.objects x).serial] }

/-- The flags a command can ask for. -/
def commandFlags (flags : FdFlags) : FdFlags := { flags with pipe := false, special := false, isConst := false }

/-- The end of `ctl_cmd_fd_open` and `ctl_cmd_fd_socket`, once the descriptor is open. -/
def ctlCmdFdFile (name : Bytes) (fdnum : ℤ) (flags : FdFlags) (path : Bytes) (mem : Option ι) :
    FdM ι (Except String Unit) := do
  match ← ctlGetArgFd name false true with
  | .error message => return .error message
  | .ok _ =>
      match ← fdNewFile name fdnum (commandFlags flags) path mem with
      | none => return .error "Unable to allocate new file descriptor object"
      | some f =>
          recordAssigned f
          return .ok ()

/-- `ctl_cmd_fd_take`, for a descriptor that was received. -/
def ctlCmdFdTake (name : Bytes) (fdnum : ℤ) (flags : FdFlags) (mem : Option ι) : FdM ι (Except String Unit) := do
  match ← ctlGetArgFd name false true with
  | .error message => return .error message
  | .ok _ =>
      match ← fdNewUnknown name fdnum (commandFlags flags) mem with
      | none => return .error "Unable to allocate new file descriptor object"
      | some f =>
          recordAssigned f
          return .ok ()

/-- The two handle arguments of `ctl_cmd_fd_pipe`. -/
def pipeNames (readSide writeSide : Bytes) : FdM ι (Except String Unit) := do
  match ← ctlGetArgFd (ι := ι) readSide false true with
  | .error message => return .error message
  | .ok _ =>
      match ← ctlGetArgFd (ι := ι) writeSide false true with
      | .error message => return .error message
      | .ok _ => return .ok ()

/-- `ctl_cmd_fd_pipe`, once the two ends are open. -/
def ctlCmdFdPipe (readSide : Bytes) (num1 : ℤ) (writeSide : Bytes) (num2 : ℤ) (flags : FdFlags)
    (mem1 mem2 : Option ι) : FdM ι (Except String Unit) := do
  match ← pipeNames readSide writeSide with
  | .error message => return .error message
  | .ok _ =>
      match ← fdNewPipe readSide num1 writeSide num2 (commandFlags flags) mem1 mem2 with
      | none => return .error "failed to create pipe"
      | some (f1, f2) =>
          recordAssigned f1
          recordAssigned f2
          return .ok ()

def ctlCmdFdDelete (name : Bytes) : FdM ι (Except String Unit) := do
  match ← ctlGetArgFd (ι := ι) name true true with
  | .error message => return .error message
  | .ok none => return .error "No such file descriptor"
  | .ok (some x) =>
      fdDelete x
      modify fun s => { s with history := s.history ++ [.removed name] }
      return .ok ()

/-- What happens to the table. `register` is the call for a descriptor that is open at start-up. -/
inductive FdEvent (ι : Type) where
  | register (name : Bytes) (fdnum : ℤ) (flags : FdFlags) (mem : Option ι)
  | file (name : Bytes) (fdnum : ℤ) (flags : FdFlags) (path : Bytes) (mem : Option ι)
  | take (name : Bytes) (fdnum : ℤ) (flags : FdFlags) (mem : Option ι)
  | pipe (readSide : Bytes) (num1 : ℤ) (writeSide : Bytes) (num2 : ℤ) (flags : FdFlags) (mem1 mem2 : Option ι)
  | delete (name : Bytes)

def fdProgram : FdEvent ι → FdM ι (Except String Unit)
  | .register name fdnum flags mem => do
      match ← fdNewUnknown name fdnum (commandFlags flags) mem with
      | none => return .error "Not enough FD objects to register all open FDs"
      | some f =>
          recordAssigned f
          return .ok ()
  | .file name fdnum flags path mem => ctlCmdFdFile name fdnum flags path mem
  | .take name fdnum flags mem => ctlCmdFdTake name fdnum flags mem
  | .pipe readSide num1 writeSide num2 flags mem1 mem2 =>
      ctlCmdFdPipe readSide num1 writeSide num2 flags mem1 mem2
  | .delete name => ctlCmdFdDelete name

def fdStep (s : FdTable ι) (event : FdEvent ι) : Option (FdTable ι) := ((fdProgram event).run s).map Prod.snd

/-- The table that `fd_init` and `fd_preallocate` leave behind. -/
def FdTable.empty (poolSize : Option ℕ) : FdTable ι where
  objects _ := ⟨0, {}, 0, .null, [], 0⟩
  fdList := []
  byName := rbTreeInit fun
    | .sentinel => ⟨.sentinel, .sentinel, .sentinel, .black⟩
    | _ => ⟨.null, .null, .null, .unassigned⟩
  poolSize
  closed := []
  created := 0
  deleted := []
  history := []

/-- One of the handles of `fd_init_special_handles`; they are made with `is_const`. -/
def specialHandle (name : Bytes) (fdnum : ℤ) (flags : FdFlags) (path : Bytes) (mem : Option ι) : FdM ι Bool := do
  match ← fdNewFile name fdnum { flags with special := true, isConst := true } path mem with
  | none => return false
  | some f =>
      recordAssigned f
      return true

def fdInitSpecialHandles (fdDevNull : ℤ) (mem : Fin 4 → Option ι) : FdM ι Bool := do
  if ← specialHandle (bytesOf "null") fdDevNull { read := true, write := true } (bytesOf "/dev/null") (mem 0) then
    if ← specialHandle (bytesOf "control.cmd") (-1) { write := true } (bytesOf "daemonproxy command pipe") (mem 1) then
      if ← specialHandle (bytesOf "control.event") (-1) { read := true } (bytesOf "daemonproxy event stream") (mem 2) then
        specialHandle (bytesOf "control.socket") (-1) { read := true, write := true }
          (bytesOf "daemonproxy control socket") (mem 3)
      else return false
    else return false
  else return false

end Commands

end DaemonProxy.Model
