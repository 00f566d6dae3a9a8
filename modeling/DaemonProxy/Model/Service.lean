import DaemonProxy.Lib.LinkedList
import DaemonProxy.Model.RBTree
import DaemonProxy.Model.Signal

/-! # Services (`service.c`) and their processes

A service object is an address `ι`. The daemon keeps the objects, the vector `svc_list`, the two
indexes and the pointers of the two linked lists. The state also holds what the kernel knows of the
children, with the service each was forked for, and a record of what happened to the services.

Left out are the variables and the `control.*` flags of a service: whether `svc_do_fork` succeeds is
given with each call, and so is the answer of `svc_check_sigwake`, whose loop is modelled with the
other loops over signals.
-/

namespace DaemonProxy.Model

open Lib

/-- `SVC_STATE_*`. -/
inductive SvcState where
  | undef
  | down
  | start
  | up
  | reaped
deriving DecidableEq, Repr

/-- `struct service_s`. -/
structure Service where
  state : SvcState
  name : Bytes
  pid : ℤ
  autoRestart : Bool
  sigwake : Bool
  waitStatus : ℤ
  startTime : ℤ
  reapTime : ℤ
  restartInterval : ℤ
  autostartSignals : ℤ → Bool

/-- The zero-filled object. -/
def Service.zero : Service := ⟨.undef, [], 0, false, false, 0, 0, 0, 0, fun _ => false⟩

/-- The arguments of `ctl_notify_svc_state`. -/
structure SvcNotice where
  name : Bytes
  startTime : ℤ
  reapTime : ℤ
  waitStatus : ℤ
  pid : ℤ
deriving DecidableEq, Repr

/-- What happens to a service. -/
inductive SvcRecord (ι : Type) where
  | created (x : ι)
  | started (x : ι)
  | reaped (x : ι)
  /-- `ctl_notify_svc_state` is called for a service in a state, at the time `wake->now`. -/
  | reported (x : ι) (state : SvcState) (now : ℤ) (notice : SvcNotice)
deriving DecidableEq, Repr

/-- A child that has not been reaped, and the service it was forked for. A child without one was
inherited from a process that ended. -/
inductive Child (ι : Type) where
  | running (owner : Option ι)
  | zombie (owner : Option ι) (wstat : ℤ)
deriving DecidableEq, Repr

def Child.owner {ι : Type} : Child ι → Option ι
  | .running owner => owner
  | .zombie owner _ => owner

structure Daemon (ι : Type) where
  objects : ι → Service
  /-- `svc_list[0 .. svc_list_count)`. -/
  svcList : List ι
  byName : Heap ι
  byPid : Heap ι
  /-- `svc_active_list`, and the fields `active_next` and `active_prev_ptr` of the services. -/
  activeList : Links ι
  /-- `svc_sigwake_list`, and the fields `sigwake_next` and `sigwake_prev_ptr` of the services. -/
  sigwakeList : Links ι
  /-- `wake->now`. -/
  now : ℤ
  /-- `wake->next`. -/
  next : ℤ
  history : List (SvcRecord ι)
  children : ℤ → Option (Child ι)

abbrev SvcM (ι : Type) := StateT (Daemon ι) Option

section Objects

variable {ι : Type} [DecidableEq ι]

def svcAt (x : ι) : SvcM ι Service := return (← get).objects x

def Daemon.setSvc (s : Daemon ι) (x : ι) (svc : Service) : Daemon ι :=
  { s with objects := Function.update s.objects x svc }

def updateSvc (x : ι) (f : Service → Service) : SvcM ι Unit := modify fun s => s.setSvc x (f (s.objects x))

/-- A bound for the loops of the tree functions: an index holds each service at most once. -/
def Daemon.treeFuel (s : Daemon ι) : ℕ := s.svcList.length + 2

/-- A tree function on `svc_by_name_index`. -/
def onByName {α : Type} (m : ℕ → TreeM ι α) : SvcM ι α := do
  zoom Daemon.byName (fun h s => { s with byName := h }) (m (← get).treeFuel)

/-- A tree function on `svc_by_pid_index`. -/
def onByPid {α : Type} (m : ℕ → TreeM ι α) : SvcM ι α := do
  zoom Daemon.byPid (fun h s => { s with byPid := h }) (m (← get).treeFuel)

def svcByNameCompare (objects : ι → Service) (name : Bytes) (x : ι) : ℤ := strsegCmp name (objects x).name

def comparePid (a b : ℤ) : ℤ := if a < b then -1 else if a > b then 1 else 0

def svcByPidCompare (objects : ι → Service) (pid : ℤ) (x : ι) : ℤ := comparePid pid (objects x).pid

/-- `s.Relation == 0? s.Nearest->Object : NULL`. -/
def RBTreeSearch.object? (found : RBTreeSearch ι) : Option ι :=
  match found.relation, found.nearest with
  | 0, .node x => some x
  | _, _ => none

def svcByPid (pid : ℤ) : SvcM ι (Option ι) := do
  let s ← get
  return (← onByPid fun fuel => rbTreeFind fuel (svcByPidCompare s.objects) pid).object?

/-- `if (svc->pid) RBTreeNode_Prune( &svc->pid_index_node )`. -/
def prunePid (x : ι) : SvcM ι Unit := do
  if (← svcAt x).pid ≠ 0 then
    let _ ← onByPid fun fuel => rbTreeNodePrune fuel (.node x)

def svcChangePid (x : ι) (pid : ℤ) : SvcM ι Unit := do
  prunePid x
  updateSvc x fun svc => { svc with pid }
  if pid ≠ 0 then
    onByPid fun _ => rbTreeNodeInit (.node x)
    let s ← get
    let _ ← onByPid fun fuel => rbTreeAdd fuel (svcByPidCompare s.objects) (.node x) pid

def svcSetActive (x : ι) (activate : Bool) : SvcM ι Unit :=
  modify fun s => { s with activeList := s.activeList.set x activate }

def svcSetSigwake (x : ι) (sigwake : Bool) : SvcM ι Unit := do
  updateSvc x fun svc => { svc with sigwake }
  modify fun s => { s with sigwakeList := s.sigwakeList.set x sigwake }

def record (entry : SvcRecord ι) : SvcM ι Unit := modify fun s => { s with history := s.history ++ [entry] }

def svcNotifyState (x : ι) : SvcM ι Unit := do
  let svc ← svcAt x
  record (.reported x svc.state (← get).now ⟨svc.name, svc.startTime, svc.reapTime, svc.waitStatus, svc.pid⟩)

end Objects

section Lifetime

variable {ι : Type} [DecidableEq ι]

/-- One character test of `svc_check_name`. -/
def isNameChar (c : UInt8) : Bool :=
  (97 ≤ c ∧ c ≤ 122) ∨ (65 ≤ c ∧ c ≤ 90) ∨ (48 ≤ c ∧ c ≤ 57) ∨ c = 46 ∨ c = 95 ∨ c = 45

/-- `NAME_BUF_SIZE`. -/
def nameBufSize : ℕ := 32

def svcCheckName (name : Bytes) : Bool := name.length < nameBufSize ∧ name.all isNameChar

def svcCtor (x : ι) (name : Bytes) : SvcM ι Unit := do
  updateSvc x fun _ => { Service.zero with state := .down, name }
  modify fun s => { s with activeList := s.activeList.clear x, sigwakeList := s.sigwakeList.clear x }
  record (.created x)
  onByName fun _ => store (.node x) fun _ => ⟨.null, .null, .null, .unassigned⟩
  onByPid fun _ => store (.node x) fun _ => ⟨.null, .null, .null, .unassigned⟩
  onByName fun _ => rbTreeNodeInit (.node x)
  onByPid fun _ => rbTreeNodeInit (.node x)
  let s ← get
  let _ ← onByName fun fuel => rbTreeAdd fuel (svcByNameCompare s.objects) (.node x) name

/-- `svc_new`; `mem` is what the allocator offers, which is never memory that is in use. -/
def svcNew (name : Bytes) (mem : Option ι) : SvcM ι (Option ι) := do
  match mem with
  | none => return none
  | some x =>
      if x ∈ (← get).svcList then return none
      else
        modify fun s => { s with svcList := s.svcList ++ [x] }
        svcCtor x name
        return some x

def svcByName (name : Bytes) (create : Bool) (mem : Option ι) : SvcM ι (Option ι) := do
  let s ← get
  match (← onByName fun fuel => rbTreeFind fuel (svcByNameCompare s.objects) name).object? with
  | some x => return some x
  | none => if create && svcCheckName name then svcNew name mem else return none

def svcDtor (x : ι) : SvcM ι Unit := do
  svcSetActive x false
  svcSetSigwake x false
  prunePid x
  let _ ← onByName fun fuel => rbTreeNodePrune fuel (.node x)

/-- The last element takes the place of `x`, and the vector gets shorter by one. -/
def swapRemove (x : ι) (list : List ι) : List ι :=
  match list.getLast? with
  | some last => if x ∈ list then (list.set (list.idxOf x) last).dropLast else list
  | none => list

def svcDelete (x : ι) : SvcM ι Unit := do
  svcDtor x
  modify fun s => { s with svcList := swapRemove x s.svcList }

end Lifetime

section StateMachine

variable {ι : Type} [DecidableEq ι]

def svcHandleStart (x : ι) (when : ℤ) : SvcM ι Bool := do
  let svc ← svcAt x
  if svc.state ≠ .down ∧ svc.state ≠ .start then return false
  else
    let now := (← get).now
    let when := if tsAfter when now then when else now
    updateSvc x fun svc => { svc with state := .start, startTime := if when = 0 then 1 else when }
    svcChangePid x 0
    updateSvc x fun svc => { svc with reapTime := 0, waitStatus := -1 }
    record (.started x)
    svcSetActive x true
    svcNotifyState x
    modify fun s => { s with next := s.now }
    return true

def svcCancelStart (x : ι) : SvcM ι Bool := do
  if (← svcAt x).state ≠ .start then return false
  else
    updateSvc x fun svc => { svc with state := .down, startTime := 0 }
    svcSetActive x false
    svcNotifyState x
    return true

def svcHandleReaped (x : ι) (wstat : ℤ) : SvcM ι Unit := do
  if (← svcAt x).state = .up then
    let now := (← get).now
    updateSvc x fun svc => { svc with waitStatus := wstat, state := .reaped, reapTime := now }
    record (.reaped x)
    svcSetActive x true
    modify fun s => { s with next := s.now }

/-- The part of `svc_set_triggers` that follows once the triggers are parsed and stored. -/
def svcApplyTriggers (x : ι) (autostart : Bool) (signals : ℤ → Bool) (enableSigs triggered : Bool) : SvcM ι Unit := do
  updateSvc x fun svc => { svc with autoRestart := autostart, autostartSignals := signals }
  svcSetSigwake x enableSigs
  if autostart || triggered then
    let _ ← svcHandleStart x (← get).now

/-- The pid the kernel gives to a new child: a positive one that no child has. -/
def Daemon.newPid (s : Daemon ι) (offered : Option ℤ) : Option ℤ :=
  offered.filter fun pid => 0 < pid ∧ (s.children pid).isNone

/-- `svc_do_fork`, in the parent; `fork` is the pid offered, if nothing fails. -/
def svcDoFork (x : ι) (fork : Option ℤ) : SvcM ι Bool := do
  match (← get).newPid fork with
  | none => return false
  | some pid =>
      modify fun s => { s with children := Function.update s.children pid (some (.running (some x))) }
      svcChangePid x pid
      return true

/-- `FORK_RETRY_DELAY`. -/
def forkRetryDelay : ℤ := 3 * 4294967296

/-- `svc_run`, from `re_switch_state` to the end or to the next `goto`. -/
def svcRunRound (x : ι) (fork : Option ℤ) (triggered : Bool) (_ : Unit) : SvcM ι (Unit ⊕ Unit) := do
  let svc ← svcAt x
  match svc.state with
  | .start =>
      let s ← get
      if tsAfter svc.startTime s.now then
        if wrap 64 (svc.startTime - s.next) < 0 then
          modify fun s => { s with next := svc.startTime }
        svcSetActive x true
        return .inr ()
      else if ← svcDoFork x fork then
        updateSvc x fun svc => { svc with startTime := if s.now ≠ 0 then s.now else 1, state := .up }
        svcNotifyState x
        svcSetActive x false
        return .inr ()
      else
        let _ ← svcHandleStart x (wrap 64 (s.now + forkRetryDelay))
        return .inl ()
  | .up =>
      svcSetActive x false
      return .inr ()
  | .reaped =>
      svcNotifyState x
      updateSvc x fun svc => { svc with state := .down }
      if svc.autoRestart || triggered then
        let now := (← get).now
        let soon := wrap 64 (svc.reapTime - svc.startTime) < svc.restartInterval
        let _ ← svcHandleStart x (if soon then wrap 64 (now + svc.restartInterval) else now)
        svcNotifyState x
      return .inl ()
  | .down =>
      svcSetActive x false
      return .inr ()
  | .undef => failure

/-- `svc_run`. The longest way is a restart after a reap, a fork that fails, and the wait for the
next attempt. -/
def svcRun (x : ι) (fork : Option ℤ) (triggered : Bool) : SvcM ι Unit := loop (svcRunRound x fork triggered) 4 ()

end StateMachine

section Machine

variable {ι : Type} [DecidableEq ι]

/-- The body of the loop around `waitpid` in `main`, for a child that has ended. -/
def mainReap (pid : ℤ) : SvcM ι Unit := do
  match (← get).children pid with
  | some (.zombie _ wstat) =>
      modify fun s => { s with children := Function.update s.children pid none }
      match ← svcByPid pid with
      | some x => svcHandleReaped x wstat
      | none => return ()
  | _ => return ()

/-- A command on an existing service. -/
def withService (name : Bytes) (command : ι → SvcM ι Unit) : SvcM ι Unit := do
  match ← svcByName name false none with
  | some x => command x
  | none => return ()

/-- `ctl_cmd_svc_delete`, which refuses a service with a pid. -/
def ctlCmdSvcDelete (name : Bytes) : SvcM ι Unit :=
  withService name fun x => do
    if (← svcAt x).pid > 0 then return ()
    else svcDelete x

/-- The end of a process: a running child becomes a zombie. -/
def endProcess (wstat : ℤ) : Option (Child ι) → Option (Child ι)
  | some (.running owner) => some (.zombie owner wstat)
  | child => child

/-- What happens to services and processes: commands, the calls that `main` makes through
`svc_run_active` and `waitpid`, and what children do. -/
inductive SvcEvent (ι : Type) where
  | create (name : Bytes) (mem : Option ι)
  | autoUp (name : Bytes) (interval : Option ℤ) (autostart : Bool) (signals : ℤ → Bool) (enableSigs triggered : Bool)
  | start (name : Bytes) (when : ℤ)
  | cancel (name : Bytes)
  | delete (name : Bytes)
  | clock (now : ℤ)
  /-- A signal came in that starts a service of the sigwake list. -/
  | wakeBySignal (x : ι)
  /-- `svc_run` for a service of the active list. -/
  | run (x : ι) (fork : Option ℤ) (triggered : Bool)
  | adopt (pid : ℤ)
  | exit (pid wstat : ℤ)
  | reap (pid : ℤ)

def svcProgram : SvcEvent ι → SvcM ι Unit
  | .create name mem => do
      -- `ctl_get_arg_service` expects a name.
      if name ≠ [] then let _ ← svcByName name true mem
  | .autoUp name interval autostart signals enableSigs triggered => withService name fun x => do
      if let some interval := interval then updateSvc x fun svc => { svc with restartInterval := interval }
      svcApplyTriggers x autostart signals enableSigs triggered
  | .start name when => withService name fun x => do let _ ← svcHandleStart x when
  | .cancel name => withService name fun x => do let _ ← svcCancelStart x
  | .delete name => ctlCmdSvcDelete name
  | .clock now => modify fun s => { s with now, next := wrap 64 (now + 200 * 4294967296) }
  | .wakeBySignal x => do
      let s ← get
      if (s.sigwakeList.prevPtr x).isSome then let _ ← svcHandleStart x s.now
  | .run x fork triggered => do
      if ((← get).activeList.prevPtr x).isSome then svcRun x fork triggered
  | .adopt pid => modify fun s =>
      match s.newPid (some pid) with
      | some pid => { s with children := Function.update s.children pid (some (.running none)) }
      | none => s
  | .exit pid wstat => modify fun s =>
      { s with children := Function.update s.children pid (endProcess wstat (s.children pid)) }
  | .reap pid => mainReap pid

/-- One step of the machine; nothing is reached when a null pointer is followed or an assertion fails. -/
def svcStep (s : Daemon ι) (event : SvcEvent ι) : Option (Daemon ι) := ((svcProgram event).run s).map Prod.snd

/-- The state `svc_init` leaves behind, in zero-filled memory. -/
def Daemon.init : Daemon ι where
  objects _ := .zero
  svcList := []
  byName := rbTreeInit fun
    | .sentinel => ⟨.sentinel, .sentinel, .sentinel, .black⟩
    | _ => ⟨.null, .null, .null, .unassigned⟩
  byPid := rbTreeInit fun
    | .sentinel => ⟨.sentinel, .sentinel, .sentinel, .black⟩
    | _ => ⟨.null, .null, .null, .unassigned⟩
  activeList := .empty
  sigwakeList := .empty
  now := 0
  next := 0
  history := []
  children _ := none

end Machine

end DaemonProxy.Model
