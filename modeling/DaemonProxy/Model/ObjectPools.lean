import DaemonProxy.Lib.SlotPool
import DaemonProxy.Model.Pool

/-! # Objects from a pool (`service.c`, `fd.c`)

With a pool, `svc_list` and `fd_list` have one entry for every slot of the pool: the first entries are the objects that exist,
and the others the free slots. `svc_new` and `fd_new` take the first free slot, and `svc_delete` and `fd_delete` put the slot of
the object back behind the last one that is left.
-/

namespace DaemonProxy.Model

open Lib

/-- A module together with the array of its pool. -/
structure Pooled (σ ι : Type) where
  state : σ
  pool : SlotPool ι

abbrev PoolM (σ ι : Type) := StateT (Pooled σ ι) Option

section Pool

variable {σ ι α : Type}

/-- A program that does not touch the array. -/
def apart (m : StateT σ Option α) : PoolM σ ι α := zoom Pooled.state (fun state s => { s with state }) m

/-- The allocation in `svc_new` and `fd_new`: if the array has a free slot, the object is made there. -/
def newFromPool (make : Option ι → StateT σ Option (Option ι)) : PoolM σ ι (Option ι) := do
  match (← get).pool.next? with
  | none => return none
  | some slot =>
      match ← apart (make (some slot)) with
      | none => return none
      | some x =>
          modify fun s => { s with pool := s.pool.advance }
          return some x

/-- The end of `svc_delete` and `fd_delete`: the loop that finds the object among those that exist. -/
def deleteToPool [DecidableEq ι] (delete : ι → StateT σ Option Unit) (x : ι) : PoolM σ ι Unit := do
  apart (delete x)
  modify fun s => { s with pool := s.pool.release x }

end Pool

/-- A name that the assertions of `svc_new` and `fd_new` let pass. -/
abbrev ShortName := { name : Bytes // name.length < nameBufSize }

section Services

variable {ι : Type} [DecidableEq ι]

def svcNewPooled (name : ShortName) : PoolM (Daemon ι) ι (Option ι) := newFromPool (svcNew name)

def svcDeletePooled (x : ι) : PoolM (Daemon ι) ι Unit := deleteToPool svcDelete x

/-- What can happen to a service while it exists. -/
inductive SvcUse where
  | handleStart (when : ℤ)
  | cancelStart
  | handleReaped (wstat : ℤ)
  | run (fork : Option ℤ) (triggered : Bool)
  | setTriggers (autostart : Bool) (signals : ℤ → Bool) (enableSigs triggered : Bool)

def SvcUse.program (x : ι) : SvcUse → SvcM ι Unit
  | .handleStart when => do let _ ← svcHandleStart x when
  | .cancelStart => do let _ ← svcCancelStart x
  | .handleReaped wstat => svcHandleReaped x wstat
  | .run fork triggered => svcRun x fork triggered
  | .setTriggers autostart signals enableSigs triggered => svcApplyTriggers x autostart signals enableSigs triggered

inductive SvcPoolOp where
  | create (name : ShortName)
  /-- The service is one that `svc_by_name` finds. -/
  | delete (name : Bytes)
  | use (name : Bytes) (use : SvcUse)

/-- The service that `svc_by_name` finds, if there is one. -/
def withPooled (name : Bytes) (act : ι → PoolM (Daemon ι) ι Unit) : PoolM (Daemon ι) ι Unit := do
  match ← apart (svcByName name false none) with
  | none => return ()
  | some x => act x

def svcPoolProgram : SvcPoolOp → PoolM (Daemon ι) ι Unit
  | .create name => do
      let _ ← svcNewPooled name
  | .delete name => withPooled name svcDeletePooled
  | .use name use => withPooled name fun x => apart (use.program x)

def svcPoolStep (s : Pooled (Daemon ι) ι) (op : SvcPoolOp) : Option (Pooled (Daemon ι) ι) := ((svcPoolProgram op).run s).map Prod.snd

/-- The state after `svc_preallocate`, for a pool of `n` slots. -/
def svcPoolInit (n : ℕ) : Pooled (Daemon (Fin n)) (Fin n) := ⟨.init, List.finRange n, 0⟩

end Services

section Handles

variable {ι : Type} [DecidableEq ι]

def fdNewPooled (size : ℕ) (name : ShortName) : PoolM (FdTable ι) ι (Option ι) := newFromPool (fdNew size name)

def fdDeletePooled (x : ι) : PoolM (FdTable ι) ι Unit := deleteToPool fdDelete x

/-- `if (old) fd_delete(old)`. -/
def deleteOldPooled (old : Option ι) : PoolM (FdTable ι) ι Unit := do
  match old with
  | none => return ()
  | some x => fdDeletePooled x

/-- `fd_new_file`. -/
def fdNewFilePooled (name : ShortName) (fdnum : ℤ) (flags : FdFlags) (path : Bytes) : PoolM (FdTable ι) ι (Option ι) := do
  let old ← apart (fdByName name)
  if ← apart (isConstFd old) then return none
  else
    match ← fdNewPooled (sizeofFd + name.1.length + 1 + path.length + 1) name with
    | none => return none
    | some f =>
        deleteOldPooled old
        apart (updateFd f fun fd => { fd with
          fd := fdnum, flags, attr := .path (appendElipses (fd.size - sizeofFd - name.1.length - 1) path) })
        return some f

/-- `fd_new_pipe`. -/
def fdNewPipePooled (name1 : ShortName) (num1 : ℤ) (name2 : ShortName) (num2 : ℤ) (flags : FdFlags) :
    PoolM (FdTable ι) ι (Option (ι × ι)) := do
  let old1 ← apart (fdByName name1)
  let old2 ← apart (fdByName name2)
  let const1 ← apart (isConstFd old1)
  let const2 ← apart (isConstFd old2)
  if const1 || const2 then return none
  else
    match ← fdNewPooled (sizeofFd + name1.1.length + 1) name1 with
    | none => return none
    | some f1 =>
        match ← fdNewPooled (sizeofFd + name2.1.length + 1) name2 with
        | none =>
            fdDeletePooled f1
            return none
        | some f2 =>
            deleteOldPooled old1
            deleteOldPooled old2
            apart (updateFd f1 fun fd => { fd with
              flags := { flags with pipe := true, write := flags.socket, read := flags.socket }
              fd := num1, attr := .peer f2 })
            apart (updateFd f2 fun fd => { fd with
              flags := { flags with pipe := true, write := true }, fd := num2, attr := .peer f1 })
            return some (f1, f2)

inductive FdPoolOp where
  /-- Every caller of `fd_new_file` leaves `pipe` unset. -/
  | file (name : ShortName) (fdnum : ℤ) (flags : { flags : FdFlags // flags.pipe = false }) (path : Bytes)
  | pipe (name1 : ShortName) (num1 : ℤ) (name2 : ShortName) (num2 : ℤ) (flags : FdFlags)
  /-- The handle is one that `fd_by_name` finds. -/
  | delete (name : Bytes)

def fdPoolProgram : FdPoolOp → PoolM (FdTable ι) ι Unit
  | .file name fdnum flags path => do
      let _ ← fdNewFilePooled name fdnum flags path
  | .pipe name1 num1 name2 num2 flags => do
      let _ ← fdNewPipePooled name1 num1 name2 num2 flags
  | .delete name => do
      match ← apart (fdByName name) with
      | none => return ()
      | some x => fdDeletePooled x

def fdPoolStep (s : Pooled (FdTable ι) ι) (op : FdPoolOp) : Option (Pooled (FdTable ι) ι) := ((fdPoolProgram op).run s).map Prod.snd

/-- The size of an object in a pool for paths of `data` bytes. -/
def fdPoolSizeEach (data : ℕ) : ℕ := (sizeofFd + nameBufSize + data + 15) / 16 * 16

/-- The state after `fd_preallocate`, for a pool of `n` slots. -/
def fdPoolInit (n data : ℕ) : Pooled (FdTable (Fin n)) (Fin n) := ⟨.empty (some (fdPoolSizeEach data)), List.finRange n, 0⟩

end Handles

end DaemonProxy.Model
