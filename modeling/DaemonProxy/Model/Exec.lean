import DaemonProxy.Lib.FileTable
import DaemonProxy.Model.Commands

/-! # Starting the program of a service (`service.c`)

`svc_do_exec`, which runs in the child: it resolves the names of the handles to descriptors, moves these into their places,
closes the rest, and splits the arguments in place. Its two lists are filled after a pass that only counts, into buffers of
the size that the counting gives.

Left out are the signal mask, log messages, and `execvp` itself. The getters of the variables stand here too, since a child
reads what they lead to.
-/

namespace DaemonProxy.Model

open Lib

/-! ## Getters -/

def svcGetTags (vars : Bytes) : Option Bytes := (packedGet vars (bytesOf "tags")).map (·.getD [])

def svcGetArgv (vars : Bytes) : Option Bytes := (packedGet vars (bytesOf "args")).map (·.getD [])

def svcGetFds (vars : Bytes) : Option Bytes := (packedGet vars (bytesOf "fds")).map (·.getD Bytewise.nullFds)

def svcGetTriggers (vars : Bytes) : Option Bytes := (packedGet vars (bytesOf "triggers")).map (·.getD [])

/-! ## Descriptors -/

/-- A child that moves its descriptors; it may end by `abort`. -/
abbrev ExecM (F : Type) := ExceptT Unit (StateT (FileTable F) Option)

/-- `FD_SETSIZE`. -/
def fdSetSize : ℕ := 1024

section Descriptors

variable {F : Type}

/-- The tokens of the descriptor list. -/
def fdNames (fdSpec : Bytes) : List Bytes := Bytewise.strsegTokens tab (fdSpec.length + 2) (some fdSpec)

/-- The pass that fills `fd_list`: an empty name is ignored, a dash means closed. It ends early, with true, at a name that
does not exist. -/
def fillFdList (fdByName : Bytes → Option ℤ) : List Bytes → List ℤ × Bool
  | [] => ([], false)
  | name :: rest =>
      let (fdList, missing) := fillFdList fdByName rest
      if name = [] then (fdList, missing)
      else if name = [45] then (-1 :: fdList, missing)
      else
        match fdByName name with
        | some fd => (fd :: fdList, missing)
        | none => ([], true)

/-- `fd_list`, as it is filled. -/
def fdListOf (fdByName : Bytes → Option ℤ) (fdSpec : Bytes) : List ℤ × Bool :=
  if fdSpec = [] then ([], false) else fillFdList fdByName (fdNames fdSpec)

/-- `dup`, where a failure is fatal. -/
def execDup (limit : ℕ) (fd : ℤ) : ExecM F ℤ := do
  match (← get).dup limit fd.toNat with
  | some (i, t) => do
      set t
      return i
  | none => throw ()

/-- The `while` loop around `dup`, for one element of `fd_list`. -/
def raiseFd (limit count : ℕ) : ℕ → ℤ → ExecM F ℤ
  | 0, _ => (failure : StateT (FileTable F) Option ℤ)
  | fuel + 1, fd => do
      if 0 ≤ fd ∧ fd < count then raiseFd limit count fuel (← execDup limit fd) else return fd

/-- The first loop: it takes the descriptors out of the way. No number below `count` is handed out twice. -/
def raiseFds (limit count : ℕ) : List ℤ → ExecM F (List ℤ)
  | [] => return []
  | fd :: rest => do
      let fd ← raiseFd limit count (count + 2) fd
      return fd :: (← raiseFds limit count rest)

/-- One round of the second loop. -/
def placeFd (limit i : ℕ) (fd : ℤ) : ExecM F Unit := do
  if 0 ≤ fd then
    match (← get).dup2 limit fd.toNat i with
    | some t => set t
    | none => throw ()
  else modify (·.close i)

/-- The second loop, from the place `i` on. -/
def placeFds (limit : ℕ) : ℕ → List ℤ → ExecM F Unit
  | _, [] => return ()
  | i, fd :: rest => do
      placeFd limit i fd
      placeFds limit (i + 1) rest

/-- The descriptors of a child; `limit` is the number of descriptors that it may have. -/
def execFds (limit : ℕ) (fdByName : Bytes → Option ℤ) (fdSpec : Bytes) : ExecM F Unit := do
  let (fdList, missing) := fdListOf fdByName fdSpec
  if missing then throw ()
  else
    placeFds limit 0 (← raiseFds limit fdList.length fdList)
    modify (·.closeFrom fdList.length (fdSetSize - fdList.length))

end Descriptors

/-! ## Arguments -/

/-- The loop that fills `argv`, from the position `p` on: the pointers behind `argv[0]`, and the string as it leaves it. -/
def splitArgs (p : ℕ) : Bytes → List ℕ × Bytes
  | [] => ([], [])
  | c :: rest =>
      let (pointers, text) := splitArgs (p + 1) rest
      if c = tab then ((p + 1) :: pointers, 0 :: text) else (pointers, c :: text)

/-- The elements of `argv`, where `none` is the null pointer at its end. -/
def argvPointers (argSpec : Bytes) : List (Option ℕ) := some 0 :: (splitArgs 0 argSpec).1.map some ++ [none]

/-- The strings that `argv` points to. -/
def argvStrings (argSpec : Bytes) : List Bytes :=
  (argvPointers argSpec).filterMap fun pointer => pointer.map fun p => cString ((splitArgs 0 argSpec).2.drop p)

/-- `svc_do_exec`, up to `execvp`, whose arguments are the result. -/
def svcDoExec {F : Type} (limit : ℕ) (fdByName : Bytes → Option ℤ) (vars : Bytes) : ExecM F (List Bytes) := do
  match svcGetFds vars, svcGetArgv vars with
  | some fdSpec, some argSpec =>
      execFds limit fdByName fdSpec
      return argvStrings argSpec
  | _, _ => (failure : StateT (FileTable F) Option (List Bytes))

/-! ## The buffers -/

/-- What the counting pass counts for `fd_list`. -/
def countFds (fdSpec : Bytes) : ℕ := if fdSpec = [] then 0 else (fdNames fdSpec).length

/-- The bytes of `alloca(fd_count)`. -/
def fdListReserved (fdSpec : Bytes) : ℕ := countFds fdSpec

/-- What the counting pass counts for `argv`. -/
def countArgs (argSpec : Bytes) : ℕ := 1 + argSpec.count tab

/-- The bytes of `alloca(arg_count+1)`. -/
def argvReserved (argSpec : Bytes) : ℕ := countArgs argSpec + 1

/-- Every element of an array, of `size` bytes each, lies inside the bytes that are reserved. -/
def StoresInside {α : Type} (reserved size : ℕ) (stored : List α) : Prop :=
  ∀ i < stored.length, size * i + size ≤ reserved

end DaemonProxy.Model
