import DaemonProxy.Lib.Refusal
import DaemonProxy.Model.Commands

/-! # What commands do to the exit of the daemon

Three commands set the terminate guard, the program to execute on exit, and the exit flag. All others leave them alone.
-/

set_option linter.unusedSectionVars false

namespace DaemonProxy.Proofs

open Lib Model

variable {command : ServerCommand}

/-- A command that is found has its name in the table. -/
theorem findServerCommand_mem {name : Bytes} (found : findServerCommand name = some command) :
    (name, command) ∈ serverCommandTable := by
  obtain ⟨entry, here, rfl⟩ := Option.map_eq_some_iff.mp found
  have named : entry.1 = name := by simpa using List.find?_some here
  rw [← named]
  exact List.mem_of_find?_eq_some here

/-- `opt_terminate_guard`, `opt_exec_on_exit` and `main_terminate`. -/
structure ExitFlags where
  guard : ℤ
  exec : Bool
  terminate : Bool
deriving DecidableEq, Repr

def exitFlags {ι κ : Type} (s : Server ι κ) : ExitFlags := ⟨s.terminateGuard, s.execOnExit, s.terminate⟩

/-- What `terminate` does. -/
def terminateExits (args : StrSeg) (e : ExitFlags) : ExitFlags :=
  match (ctlGetArgInt args).2 with
  | .error _ => e
  | .ok _ =>
      if e.guard = 0 ∨ (ctlGetArgInt (ctlGetArgInt args).1).2 = .ok e.guard ∧ e.exec then { e with terminate := true } else e

/-- What `terminate.guard` does. -/
def guardExits (args : StrSeg) (e : ExitFlags) : ExitFlags :=
  match (ctlGetArg args).2 with
  | .error _ => e
  | .ok arg =>
      match (ctlGetArgInt (ctlGetArg args).1).2 with
      | .error _ => e
      | .ok code =>
          if code = 0 then e
          else if arg = [43] ∧ e.guard = 0 then { e with guard := code }
          else if arg = [45] ∧ code = e.guard then { e with guard := 0 }
          else e

/-- What `terminate.exec_args` does. -/
def execArgsExits (args : StrSeg) (e : ExitFlags) : ExitFlags :=
  if args.getD [] = [] then { e with exec := false }
  else if execOnExitBufSize ≤ (args.getD []).length then e
  else { e with exec := true }

def commandExits (command : ServerCommand) (args : StrSeg) (e : ExitFlags) : ExitFlags :=
  match command with
  | .terminate => terminateExits args e
  | .terminateGuard => guardExits args e
  | .terminateExecArgs => execArgsExits args e
  | _ => e

theorem guardExits_terminate (args : StrSeg) (e : ExitFlags) : (guardExits args e).terminate = e.terminate := by
  rw [guardExits]
  split
  · rfl
  split
  · rfl
  split_ifs <;> rfl

theorem execArgsExits_of_not_exec (args : StrSeg) (e : ExitFlags) :
    (execArgsExits args e).terminate = e.terminate ∧ (execArgsExits args e).guard = e.guard := by
  rw [execArgsExits]
  split_ifs <;> exact ⟨rfl, rfl⟩

theorem terminateExits_keeps (args : StrSeg) (e : ExitFlags) :
    (terminateExits args e).guard = e.guard ∧ (terminateExits args e).exec = e.exec := by
  rw [terminateExits]
  split
  · exact ⟨rfl, rfl⟩
  · split_ifs <;> exact ⟨rfl, rfl⟩

variable {args : StrSeg}

/-- The exit flag is turned on by `terminate` alone, when it is allowed. -/
theorem commandExits_terminate {e : ExitFlags} (off : e.terminate = false)
    (on : (commandExits command args e).terminate = true) :
    command = .terminate ∧ ∃ x, (ctlGetArgInt args).2 = .ok x ∧
      (e.guard = 0 ∨ (ctlGetArgInt (ctlGetArgInt args).1).2 = .ok e.guard ∧ e.exec = true) := by
  have not_on : e.terminate ≠ true := by simp [off]
  cases command with
  | terminate =>
    refine ⟨rfl, ?_⟩
    rw [commandExits, terminateExits] at on
    split at on
    · exact absurd on not_on
    next x number =>
      split at on
      case isTrue allowed => exact ⟨x, number, allowed⟩
      case isFalse => exact absurd on not_on
  | terminateGuard => exact absurd ((guardExits_terminate args e).symm.trans on) not_on
  | terminateExecArgs => exact absurd ((execArgsExits_of_not_exec args e).1.symm.trans on) not_on
  | _ => exact absurd on not_on

/-- A guard that is set is lifted by `terminate.guard -` with its code, and not changed otherwise. -/
theorem commandExits_guard {e : ExitFlags} (set : e.guard ≠ 0)
    (changed : (commandExits command args e).guard ≠ e.guard) :
    command = .terminateGuard ∧ (ctlGetArg args).2 = .ok [45] ∧ (ctlGetArgInt (ctlGetArg args).1).2 = .ok e.guard ∧
      (commandExits command args e).guard = 0 := by
  cases command with
  | terminate => exact absurd (terminateExits_keeps args e).1 changed
  | terminateGuard =>
    refine ⟨rfl, ?_⟩
    rw [commandExits, guardExits] at changed ⊢
    split at changed
    · exact absurd rfl changed
    next arg found =>
      split at changed
      · exact absurd rfl changed
      next code number =>
        simp only [found, number]
        split_ifs at changed ⊢ with zero plus minus
        · exact absurd rfl changed
        · exact absurd plus.2 set
        · exact ⟨by rw [minus.1], by rw [minus.2], rfl⟩
        · exact absurd rfl changed
  | terminateExecArgs => exact absurd (execArgsExits_of_not_exec args e).2 changed
  | _ => exact absurd rfl changed

variable {ι κ : Type} [DecidableEq ι] [DecidableEq κ] {α β γ : Type}

/-! ## Programs that only read -/

theorem peeks_load (p : Ref ι) : Peeks (load p) := by
  constructor
  intro h cell h' run
  simp only [load, StateT.run] at run
  split at run
  · exact nomatch run
  · cases run
    rfl

theorem peeks_getChild (side : Side) (p : Ref ι) : Peeks (getChild side p) := .bind (peeks_load p) fun _ => .pure _

theorem peeks_rbTreeFind (fuel : ℕ) (compare : β → ι → ℤ) (data : β) : Peeks (rbTreeFind fuel compare data) := by
  have side : ∀ side current i, Peeks (findSide side current i : TreeM ι _) := fun side current i =>
    .bind (peeks_getChild side current) fun next => .ite (.pure _) (.pure _)
  have compared : ∀ current, Peeks (compareWith compare data current) := by
    rintro (_ | _ | _ | x)
    all_goals first | exact .pure _ | exact .failure
  refine .bind (peeks_getChild .left .root) fun current => .ite (.pure _) (.loop (fun current => ?_) fuel current)
  exact .bind (compared current) fun i => .ite (side ..) (.ite (side ..) (.pure _))

theorem peeks_fdByName (name : Bytes) : Peeks (fdByName name : FdM κ (Option κ)) := by
  refine .bind .get fun s => .bind (.bind .get fun s' => ?_) fun _ => .pure _
  exact .zoom (peeks_rbTreeFind ..) fun _ => rfl

theorem peeks_svcByName (name : Bytes) : Peeks (svcByName name false none : SvcM ι (Option ι)) := by
  refine .bind .get fun s => .bind (.bind .get fun _ => .zoom (peeks_rbTreeFind ..) fun _ => rfl) fun found => ?_
  split
  · exact .pure _
  · exact .pure _

theorem peeks_ctlGetArgFd (name : Bytes) (existing assignable : Bool) :
    Peeks (ctlGetArgFd name existing assignable : FdM κ (Except String (Option κ))) := by
  have isConst : ∀ old : Option κ, Peeks (isConstFd old) := by
    rintro (_ | x)
    · exact .pure _
    · exact .bind (.bind .get fun _ => .pure _) fun _ => .pure _
  refine .ite (.pure _) (.ite (.pure _) (.bind (peeks_fdByName name) fun fd => ?_))
  exact .bind (isConst fd) fun _ => .ite (.pure _) (.ite (.pure _) (.pure _))

/-- A look at the handles closes none. -/
theorem onFds_peeks {m : FdM κ α} (peeks : Peeks m) {c : Call ι κ} {refused : Bytes → Call ι κ → Prop} :
    Settles (onFds m) c (fun _ c' => c' = c) refused := by
  have looked : Settles (ExceptT.lift (zoom (fun c : Call ι κ => c.server.fds)
      (fun fds c => { c with server := { c.server with fds } }) m) : CmdM ι κ α) c (fun _ c' => c' = c) refused := by
    refine settles_lift (Ensures.zoom ((peeks.ensures _).mono ?_))
    rintro _ _ rfl
    rfl
  refine .get_bind (looked.bind ?_)
  rintro a _ rfl
  refine .modify_bind (settles_pure a ?_)
  simp [Server.noteClosed]

/-! ## Programs that leave a part of the daemon alone -/

/-- The program leaves a part of the daemon alone. -/
structure Fixes (part : Server ι κ → γ) (m : CmdM ι κ α) : Prop where
  maintains : ∀ k, Maintains (fun c => part c.server = k) m

/-- The program leaves the daemon alone. -/
abbrev Reads (m : CmdM ι κ α) : Prop := Fixes id m

/-- The part does not depend on the services. -/
def FreeOfServices (part : Server ι κ → γ) : Prop :=
  ∀ s loop vars uses kills, part { s with loop, vars, uses, kills } = part s

/-- The part does not depend on the main loop, or on the signals that were sent. -/
def FreeOfLoop (part : Server ι κ → γ) : Prop := ∀ s loop kills, part { s with loop, kills } = part s

theorem FreeOfServices.loop {part : Server ι κ → γ} (free : FreeOfServices part) : FreeOfLoop part := fun s loop kills => free s loop s.vars s.uses kills

/-- The part does not depend on the handles, the log or the control socket. -/
def FreeOfHandles (part : Server ι κ → γ) : Prop :=
  ∀ s fds openFds log controlSocket, part { s with fds, openFds, log, controlSocket } = part s

/-- The part does not depend on the open descriptors, the log or the control socket. -/
def FreeOfSockets (part : Server ι κ → γ) : Prop :=
  ∀ s openFds log controlSocket, part { s with openFds, log, controlSocket } = part s

theorem FreeOfHandles.sockets {part : Server ι κ → γ} (free : FreeOfHandles part) : FreeOfSockets part := fun _ _ _ _ => free ..

/-- The part does not depend on the exit, or on the services. -/
def FreeOfExit (part : Server ι κ → γ) : Prop := ∀ s terminate exitcode loop, part { s with terminate, exitcode, loop } = part s

/-- The part does not depend on the terminate guard or the program to execute on exit. -/
def FreeOfGuard (part : Server ι κ → γ) : Prop := ∀ s terminateGuard execOnExit, part { s with terminateGuard, execOnExit } = part s

namespace Fixes

variable {part : Server ι κ → γ}

theorem pure (a : α) : Fixes part (pure a : CmdM ι κ α) := ⟨fun _ => .pure a⟩

variable {m : CmdM ι κ α}

theorem bind {f : α → CmdM ι κ β} (first : Fixes part m) (second : ∀ a, Fixes part (f a)) : Fixes part (m >>= f) :=
  ⟨fun k => .bind (first.maintains k) fun a => (second a).maintains k⟩

theorem get_bind {f : Call ι κ → CmdM ι κ β} (second : ∀ c, Fixes part (f c)) : Fixes part (get >>= f) :=
  ⟨fun k => .get_bind fun c => (second c).maintains k⟩

theorem ite {c : Prop} [Decidable c] {m' : CmdM ι κ α} (first : Fixes part m) (second : Fixes part m') :
    Fixes part (if c then m else m') := by
  split
  · exact first
  · exact second

theorem modify {f : Call ι κ → Call ι κ} (kept : ∀ c, part (f c).server = part c.server) :
    Fixes part (modify f : CmdM ι κ PUnit) := ⟨fun _ => .modify fun c same => (kept c).trans same⟩

theorem throw (text : Bytes) : Fixes part (throw text : CmdM ι κ α) := ⟨fun _ => .throw _⟩

theorem refuse (message : String) : Fixes part (refuse message : CmdM ι κ α) := throw _

theorem refuseWith (text : Bytes) : Fixes part (refuseWith text : CmdM ι κ α) := throw _

theorem lift {m : CallM ι κ α} (kept : ∀ c, Ensures m c fun _ c' => part c'.server = part c.server) :
    Fixes part (ExceptT.lift m : CmdM ι κ α) := ⟨fun _ => .lift fun c same => (kept c).mono fun _ _ same' => same'.trans same⟩

theorem tell (notice : Notice) : Fixes part (tell notice : CmdM ι κ Unit) := modify fun _ => rfl

theorem tellAll (notice : Notice) : Fixes part (tellAll notice : CmdM ι κ Unit) := modify fun _ => rfl

theorem modifyServer {f : Server ι κ → Server ι κ} (kept : ∀ s, part (f s) = part s) :
    Fixes part (modifyServer f : CmdM ι κ Unit) := modify fun c => kept c.server

theorem takeArgWith (parse : StrSeg → StrSeg × Except String α) (text : String → String) :
    Fixes part (takeArgWith parse text : CmdM ι κ α) := by
  refine get_bind fun c => bind (modify fun _ => rfl) fun _ => ?_
  split
  · exact pure _
  · exact refuse _

theorem takeArg (parse : StrSeg → StrSeg × Except String α) : Fixes part (takeArg parse : CmdM ι κ α) := takeArgWith parse _

theorem takeArgOr (parse : StrSeg → StrSeg × Except String α) (message : String) :
    Fixes part (takeArgOr parse message : CmdM ι κ α) := takeArgWith parse _

/-- Whatever is known of the daemon is known after a program that only reads. -/
theorem settles (reads : Reads m) (c : Call ι κ) :
    Settles m c (fun _ c' => c'.server = c.server) fun _ c' => c'.server = c.server := reads.maintains c.server c rfl

/-- What comes after such a program starts with the same daemon. -/
theorem before {f : α → CmdM ι κ β} {c : Call ι κ} {post : β → Call ι κ → Prop}
    {refused : Bytes → Call ι κ → Prop} (reads : Reads m) (stop : ∀ e c', c'.server = c.server → refused e c')
    (rest : ∀ a c', c'.server = c.server → Settles (f a) c' post refused) : Settles (m >>= f) c post refused :=
  ((settles reads c).mono (fun _ _ same => same) stop).bind rest

theorem of_reads (reads : Reads m) : Fixes part m := by
  refine ⟨fun k c same => (settles reads c).mono ?_ ?_⟩
  · exact fun _ c' same' => (congrArg part same').trans same
  · exact fun _ c' same' => (congrArg part same').trans same

theorem zoom {σ : Type} {field : Call ι κ → σ} {replace : σ → Call ι κ → Call ι κ} (m : StateT σ Option α)
    (kept : ∀ t c, part (replace t c).server = part c.server) :
    Fixes part (ExceptT.lift (zoom field replace m) : CmdM ι κ α) :=
  lift fun c => Ensures.zoom fun _ t _ => kept t c

theorem onLoop (free : FreeOfLoop part) (m : LoopM ι α) : Fixes part (onLoop m : CmdM ι κ α) :=
  get_bind fun _ => bind (zoom m fun _ _ => free ..) fun _ => bind (modify fun _ => rfl) fun _ => pure _

theorem onFds (free : FreeOfHandles part) (m : FdM κ α) : Fixes part (onFds m : CmdM ι κ α) :=
  get_bind fun _ => bind (zoom m fun _ _ => free ..) fun _ => bind (modifyServer fun _ => free ..) fun _ => pure _

theorem lookFds {m : FdM κ α} (peeks : Peeks m) : Fixes part (Model.onFds m : CmdM ι κ α) := by
  refine ⟨fun k c same => (onFds_peeks peeks).mono ?_ fun _ _ => id⟩
  rintro _ _ rfl
  exact same

theorem onLog (free : FreeOfSockets part) (m : LogM α) : Fixes part (onLog m : CmdM ι κ α) := zoom m fun _ _ => free ..

theorem svcOf (x : ι) : Fixes part (svcOf x : CmdM ι κ Service) := get_bind fun _ => pure _

/-! ## Services -/

theorem svcSetVar (free : FreeOfServices part) (x : ι) (name : Bytes) (value : Option Bytes) (stored : Bool) :
    Fixes part (svcSetVar x name value stored : CmdM ι κ Bool) :=
  get_bind fun _ => ite (bind (modifyServer fun _ => free ..) fun _ => pure _) (pure _)

theorem svcGetVar (x : ι) (name unset : Bytes) : Fixes part (svcGetVar x name unset : CmdM ι κ Bytes) := by
  refine get_bind fun c => ?_
  split
  · exact pure _
  · exact ⟨fun _ => .lift fun _ _ => ensures_failure⟩

theorem storeFds (free : FreeOfServices part) (x : ι) (newFds : Bytes) (stored : Bool) : Fixes part (storeFds x newFds stored : CmdM ι κ Bool) :=
  ite (bind (svcSetVar free ..) fun _ => pure _) (svcSetVar free ..)

theorem svcSetFds (free : FreeOfServices part) (x : ι) (newFds : Bytes) (stored : Bool) : Fixes part (svcSetFds x newFds stored : CmdM ι κ Bool) :=
  bind (storeFds free ..) fun _ => ite (bind (modifyServer fun _ => free ..) fun _ => pure _) (pure _)

theorem getArgService (free : FreeOfServices part) (existing : Bool) (mem : Option ι) : Fixes part (getArgService existing mem : CmdM ι κ ι) := by
  refine get_bind fun c => get_bind fun c' => bind (onLoop free.loop _) fun found => bind (modify fun _ => rfl) fun _ => ?_
  split
  · exact refuse _
  · exact ite (bind (modifyServer fun _ => free ..) fun _ => pure _) (pure _)

theorem ctlCmdSvcVar (free : FreeOfServices part) (var : SvcVar) (name message : String) (env : CallEnv ι κ) : Fixes part (ctlCmdSvcVar var name message env) := by
  refine bind (getArgService free ..) fun x => get_bind fun c => bind (svcSetVar free ..) fun done => ite ?_ (refuse _)
  exact bind (svcOf x) fun _ => bind (svcGetVar ..) fun _ => tellAll _

theorem checkFdNames (names : List Bytes) : Fixes part (checkFdNames names : CmdM ι κ Unit) := by
  induction names with
  | nil => exact pure _
  | cons name rest ih =>
    refine ite (refuse _) (bind (lookFds (peeks_fdByName name)) fun found => ?_)
    exact ite (bind (tell _) fun _ => ih) ih

theorem ctlCmdSvcFds (free : FreeOfServices part) (env : CallEnv ι κ) : Fixes part (ctlCmdSvcFds env) := by
  refine bind (getArgService free ..) fun x => get_bind fun c => bind (checkFdNames _) fun _ => ?_
  refine bind (svcSetFds free ..) fun done => ite ?_ (refuse _)
  exact bind (svcOf x) fun _ => bind (svcGetVar ..) fun _ => tellAll _

theorem takeInterval (free : FreeOfLoop part) (x : ι) : Fixes part (takeInterval x : CmdM ι κ Unit) := by
  refine get_bind fun c => bind (modify fun _ => rfl) fun _ => ?_
  split
  · exact ite (pure _) (refuse _)
  · exact ite (refuse _) (onLoop free _)

theorem setTriggers (free : FreeOfServices part) (sigList : List SigListItem) (x : ι) (triggers : Bytes) (stored : Bool) :
    Fixes part (setTriggers sigList x triggers stored : CmdM ι κ Bool) :=
  get_bind fun _ => bind (onLoop free.loop _) fun _ => ite (bind (modifyServer fun _ => free ..) fun _ => pure _) (pure _)

theorem ctlCmdSvcAutoUp (free : FreeOfServices part) (sigList : List SigListItem) (env : CallEnv ι κ) : Fixes part (Commands.ctlCmdSvcAutoUp sigList env) := by
  refine bind (getArgService free ..) fun x => bind (takeInterval free.loop x) fun _ => get_bind fun c => ?_
  refine bind (setTriggers free ..) fun done => ite ?_ (refuse _)
  exact bind (svcOf x) fun _ => bind (svcGetVar ..) fun _ => tellAll _

theorem startService (free : FreeOfLoop part) (x : ι) (startTime : ℤ) : Fixes part (startService x startTime : CmdM ι κ Unit) := by
  refine bind (svcGetVar ..) fun argv => ite (refuse _) (bind (onLoop free _) fun done => ?_)
  exact ite (modifyServer fun s => free s ..) (refuse _)

theorem signalOptions (flags : List Bytes) : Fixes part (signalOptions flags : CmdM ι κ Bool) := by
  induction flags with
  | nil => exact pure _
  | cons flag rest ih => exact ite (bind ih fun _ => pure _) (refuseWith _)

theorem takeGroup : Fixes part (takeGroup : CmdM ι κ Bool) := by
  refine get_bind fun c => ?_
  split
  · exact pure _
  · exact signalOptions _

theorem svcSendSignal (free : FreeOfLoop part) (x : ι) (signum : ℤ) (group delivered : Bool) :
    Fixes part (svcSendSignal x signum group delivered : CmdM ι κ Bool) :=
  bind (svcOf x) fun _ => ite (pure _) (bind (modifyServer fun s => free s ..) fun _ => pure _)

section Existing

/- These commands look for their service, and then touch the main loop only. -/
variable {I : Call ι κ → Prop} (free : FreeOfLoop part) (respects : ∀ c c', part c'.server = part c.server → I c → I c')

include respects in
theorem respected (fixes : Fixes part m) : Maintains I m := by
  refine fun c holds => (fixes.maintains (part c.server) c rfl).mono ?_ ?_
  · exact fun _ c' same => respects c c' same holds
  · exact fun _ c' same => respects c c' same holds

include free respects

theorem ctlCmdSvcStart_of (found : Maintains I (Model.getArgService true none)) (env : CallEnv ι κ) :
    Maintains I (Commands.ctlCmdSvcStart env) := by
  refine .bind found fun x => respected respects (get_bind fun c => get_bind fun c' => ?_)
  split
  · exact startService free x _
  · refine ite (bind (onLoop free _) fun _ => ite (pure _) (refuse _)) (bind (takeArgOr ..) fun startTime => ?_)
    exact ite (refuse _) (startService free x startTime)

theorem ctlCmdSvcSignal_of (found : Maintains I (Model.getArgService true none)) (sigList : List SigListItem) (env : CallEnv ι κ) :
    Maintains I (Model.ctlCmdSvcSignal sigList env) := by
  refine .bind found fun x => respected respects (bind (takeArg _) fun signum => bind takeGroup fun group => ?_)
  refine bind (svcOf x) fun svc => ite (refuse _) (bind (svcSendSignal free ..) fun sent => ?_)
  exact ite (pure _) (refuseWith _)

theorem ctlCmdSvcDelete_of (found : Maintains I (Model.getArgService true none)) (env : CallEnv ι κ) :
    Maintains I (Commands.ctlCmdSvcDelete env) :=
  .bind found fun x => respected respects
    (bind (svcOf x) fun _ => ite (refuse _) (bind (tellAll _) fun _ => onLoop free _))

end Existing

theorem ctlCmdSvcStart (free : FreeOfServices part) (env : CallEnv ι κ) : Fixes part (Commands.ctlCmdSvcStart env) :=
  ⟨fun k => ctlCmdSvcStart_of free.loop (fun _ _ same here => same.trans here) ((getArgService free ..).maintains k) env⟩

theorem ctlCmdSvcSignal (free : FreeOfServices part) (sigList : List SigListItem) (env : CallEnv ι κ) : Fixes part (ctlCmdSvcSignal sigList env) :=
  ⟨fun k => ctlCmdSvcSignal_of free.loop (fun _ _ same here => same.trans here) ((getArgService free ..).maintains k) sigList env⟩

theorem ctlCmdSvcDelete (free : FreeOfServices part) (env : CallEnv ι κ) : Fixes part (Commands.ctlCmdSvcDelete env) :=
  ⟨fun k => ctlCmdSvcDelete_of free.loop (fun _ _ same here => same.trans here) ((getArgService free ..).maintains k) env⟩

/-! ## Handles -/

theorem getArgFd (existing assignable : Bool) : Fixes part (getArgFd existing assignable : CmdM ι κ (Bytes × Option κ)) := by
  refine get_bind fun c => ?_
  split
  · exact refuse _
  · refine bind (modify fun _ => rfl) fun _ => bind (lookFds (peeks_ctlGetArgFd ..)) fun found => ?_
    split
    · exact refuse _
    · exact pure _

theorem takeFlags (known : Bytes → FdFlags → Except Bytes FdFlags) (opts : Bytes) (flags : FdFlags) :
    Fixes part (takeFlags known opts flags : CmdM ι κ FdFlags) := by
  rw [Model.takeFlags]
  split
  · exact pure _
  · exact throw _

theorem notifyFdState (x : κ) : Fixes part (notifyFdState x : CmdM ι κ Unit) := get_bind fun _ => tellAll _

theorem openPair (free : FreeOfSockets part) (env : CallEnv ι κ) : Fixes part (openPair env) := by
  refine get_bind fun c => ?_
  split
  · exact bind (modifyServer fun _ => free ..) fun _ => pure _
  · exact pure _

theorem nameFdPair (free : FreeOfHandles part) (readSide writeSide : Bytes) (fd1 fd2 : ℤ) (flags : FdFlags) (env : CallEnv ι κ) :
    Fixes part (nameFdPair readSide writeSide fd1 fd2 flags env) := by
  refine bind (onFds free _) fun made => ?_
  split
  · exact bind (modifyServer fun s => free s ..) fun _ => refuse _
  · exact bind (onFds free _) fun _ => bind (notifyFdState _) fun _ => notifyFdState _

theorem takePipeFlags : Fixes part (takePipeFlags : CmdM ι κ FdFlags) := by
  refine get_bind fun c => ?_
  split
  · exact bind (modify fun _ => rfl) fun _ => takeFlags ..
  · exact pure _

theorem ctlCmdFdPipe (free : FreeOfHandles part) (env : CallEnv ι κ) : Fixes part (Commands.ctlCmdFdPipe env) := by
  refine bind (getArgFd ..) fun first => bind (getArgFd ..) fun second => bind takePipeFlags fun flags => ?_
  refine bind (openPair free.sockets env) fun pair => ?_
  split
  · exact refuseWith _
  · exact ite (refuseWith _) (nameFdPair free ..)

theorem openOne (free : FreeOfSockets part) (env : CallEnv ι κ) : Fixes part (openOne env) := by
  refine get_bind fun c => ?_
  split
  · exact bind (modifyServer fun _ => free ..) fun _ => pure _
  · exact pure _

theorem nameFd (free : FreeOfHandles part) (name : Bytes) (fd : ℤ) (flags : FdFlags) (path : Bytes) (env : CallEnv ι κ) :
    Fixes part (nameFd name fd flags path env) := by
  refine bind (onFds free _) fun made => ?_
  split
  · exact bind (modifyServer fun s => free s ..) fun _ => refuse _
  · exact bind (onFds free _) fun _ => notifyFdState _

theorem ctlCmdFdOpen (free : FreeOfHandles part) (env : CallEnv ι κ) : Fixes part (ctlCmdFdOpen env) := by
  refine bind (getArgFd ..) fun name => bind (takeArgOr ..) fun opts => bind (takeArgOr ..) fun path => get_bind fun c => ?_
  refine ite (refuse _) (bind (takeFlags ..) fun flags => bind (openOne free.sockets env) fun made => ?_)
  split
  · exact refuseWith _
  · exact nameFd free ..

theorem takeAddress (env : CallEnv ι κ) (flags : FdFlags) : Fixes part (takeAddress env flags) := by
  refine get_bind fun c => ?_
  split
  · exact bind (modify fun _ => rfl) fun _ => ite (pure _) (refuse _)
  · exact ite (refuse _) (pure _)

theorem ctlCmdFdSocket (free : FreeOfHandles part) (env : CallEnv ι κ) : Fixes part (ctlCmdFdSocket env) := by
  refine bind (getArgFd ..) fun name => bind (takeArgOr ..) fun opts => bind (takeFlags ..) fun flags => ?_
  refine bind (takeAddress ..) fun address => get_bind fun c => ite (refuse _) (bind (openOne free.sockets env) fun made => ?_)
  split
  · exact refuseWith _
  · split
    · exact bind (modifyServer fun s => free s ..) fun _ => refuseWith _
    · exact nameFd free ..

theorem ctlCmdFdTake (free : FreeOfHandles part) (passed : ℤ) (env : CallEnv ι κ) : Fixes part (Commands.ctlCmdFdTake passed env) := by
  refine bind (getArgFd ..) fun name => bind (onFds free _) fun made => ?_
  split
  · exact refuse _
  · exact bind (modifyServer fun _ => free ..) fun _ => bind (onFds free _) fun _ => notifyFdState _

theorem ctlCmdFdDelete (free : FreeOfHandles part) (env : CallEnv ι κ) : Fixes part (Commands.ctlCmdFdDelete env) := by
  refine bind (getArgFd ..) fun found => ?_
  split
  · exact refuse _
  · exact bind (tellAll _) fun _ => onFds free _

/-! ## The other commands -/

theorem ctlCmdChdir (env : CallEnv ι κ) : Fixes part (ctlCmdChdir env) :=
  bind (takeArgOr ..) fun _ => get_bind fun _ => ite (refuse _) (ite (pure _) (refuseWith _))

theorem takeFilter (free : FreeOfSockets part) : Fixes part (takeFilter : CmdM ι κ Unit) := by
  refine get_bind fun c => ?_
  split
  · exact pure _
  · refine get_bind fun c' => ite (onLog free _) (ite (onLog free _) ?_)
    split
    · exact onLog free _
    · exact refuse _

theorem ctlCmdLogFilter (free : FreeOfSockets part) (env : CallEnv ι κ) : Fixes part (ctlCmdLogFilter env) :=
  bind (takeFilter free) fun _ => get_bind fun _ => tell _

theorem ctlCmdLogDest (free : FreeOfSockets part) (env : CallEnv ι κ) : Fixes part (ctlCmdLogDest env) := by
  refine bind (takeArg _) fun arg => ite (bind (getArgFd ..) fun found => ?_) (refuse _)
  exact ite (bind (tell _) fun _ => get_bind fun _ => onLog free _) (get_bind fun _ => onLog free _)

theorem ctlCmdSignalClear (free : FreeOfLoop part) (sigList : List SigListItem) (env : CallEnv ι κ) : Fixes part (Commands.ctlCmdSignalClear sigList env) :=
  bind (takeArg _) fun _ => bind (takeArg _) fun _ => modifyServer fun s => free s ..

theorem controlSocketStop (free : FreeOfSockets part) (s : Server ι κ) : part s.controlSocketStop = part s := by
  rw [Server.controlSocketStop]
  split
  · exact free s ..
  · rfl

theorem controlSocketStart (free : FreeOfSockets part) (path : Bytes) (env : CallEnv ι κ) : Fixes part (controlSocketStart path env) := by
  refine ite (pure _) (bind (modifyServer (controlSocketStop free)) fun _ => ite (pure _) (bind (openOne free env) fun made => ?_))
  split
  · exact bind (modifyServer fun _ => free ..) fun _ => pure _
  · refine bind (modifyServer fun _ => free ..) fun _ => ite (pure _) ?_
    exact bind (modifyServer (controlSocketStop free)) fun _ => pure _

theorem ctlCmdSocketCreate (free : FreeOfSockets part) (env : CallEnv ι κ) : Fixes part (ctlCmdSocketCreate env) := by
  refine bind (takeArg _) fun opts => bind (takeArg _) fun path => ite (refuse _) (bind (controlSocketStart free ..) fun made => ?_)
  exact ite (pure _) (refuse _)

theorem ctlCmdSocketDelete (free : FreeOfSockets part) (env : CallEnv ι κ) : Fixes part (ctlCmdSocketDelete env) := modifyServer (controlSocketStop free)

theorem ctlCmdTerminate (free : FreeOfExit part) (env : CallEnv ι κ) : Fixes part (ctlCmdTerminate env) := by
  have checked : ∀ guard, Fixes part (checkGuard guard : CmdM ι κ Unit) := fun guard =>
    ite (pure _) (bind (takeArgOr ..) fun code => ite (pure _) (refuse _))
  refine bind (takeArg _) fun x => get_bind fun c => bind (checked _) fun _ => get_bind fun c' => ite (refuse _) ?_
  exact modifyServer fun s => free s ..

theorem ctlCmdTerminateGuard (free : FreeOfGuard part) (env : CallEnv ι κ) : Fixes part (ctlCmdTerminateGuard env) := by
  refine bind (takeArgOr ..) fun arg => ite (refuse _) (bind (takeArg _) fun code => get_bind fun c => ite (refuse _) ?_)
  refine ite (ite (refuse _) (modifyServer fun s => free s ..)) (ite (refuse _) (ite (refuse _) ?_))
  exact modifyServer fun s => free s ..

theorem ctlCmdTerminateExecArgs (free : FreeOfGuard part) (env : CallEnv ι κ) : Fixes part (ctlCmdTerminateExecArgs env) :=
  get_bind fun _ => ite (modifyServer fun s => free s ..) (ite (refuse _) (modifyServer fun s => free s ..))

end Fixes

/-! ## The three commands -/

/-- The exit afterwards, whether the program refuses or not. -/
def Turns (m : CmdM ι κ α) (c : Call ι κ) (e : ExitFlags) : Prop :=
  Settles m c (fun _ c' => exitFlags c'.server = e) fun _ c' => exitFlags c'.server = e

theorem Fixes.turns {m : CmdM ι κ α} (fixes : Fixes exitFlags m) (c : Call ι κ) : Turns m c (exitFlags c.server) :=
  fixes.maintains _ c rfl

/-- An argument is taken off the command, or the command is refused. -/
theorem takeArgWith_settles (parse : StrSeg → StrSeg × Except String α) (text : String → String) (c : Call ι κ) :
    Settles (takeArgWith parse text) c
      (fun a c' => (parse c.command).2 = .ok a ∧ c' = { c with command := (parse c.command).1 })
      fun e c' => c' = { c with command := (parse c.command).1 } ∧
        ∃ message, (parse c.command).2 = .error message ∧ e = bytesOf (text message) := by
  refine Settles.get_bind (Settles.modify_bind ?_)
  cases result : (parse c.command).2 with
  | ok a => exact settles_pure a ⟨rfl, rfl⟩
  | error message => exact settles_throw _ ⟨rfl, message, rfl, rfl⟩

theorem takeArg_settles (parse : StrSeg → StrSeg × Except String α) (c : Call ι κ) :
    Settles (takeArg parse) c
      (fun a c' => (parse c.command).2 = .ok a ∧ c' = { c with command := (parse c.command).1 })
      fun e c' => c' = { c with command := (parse c.command).1 } ∧ ∃ message, (parse c.command).2 = .error message ∧ e = bytesOf message :=
  takeArgWith_settles parse id c

theorem takeArgOr_settles (parse : StrSeg → StrSeg × Except String α) (message : String) (c : Call ι κ) :
    Settles (takeArgOr parse message) c
      (fun a c' => (parse c.command).2 = .ok a ∧ c' = { c with command := (parse c.command).1 })
      fun e c' => c' = { c with command := (parse c.command).1 } ∧ (∃ message, (parse c.command).2 = .error message) ∧
        e = bytesOf message :=
  (takeArgWith_settles parse _ c).mono (fun _ _ => id) fun _ _ ⟨same, _, failed, text⟩ => ⟨same, ⟨_, failed⟩, text⟩

theorem checkGuard_settles (guard : ℤ) (c : Call ι κ) :
    Settles (checkGuard guard) c
      (fun _ c' => c'.server = c.server ∧ (guard = 0 ∨ (ctlGetArgInt c.command).2 = .ok guard))
      fun _ c' => c'.server = c.server ∧ guard ≠ 0 ∧ (ctlGetArgInt c.command).2 ≠ .ok guard := by
  rw [checkGuard]
  split
  case isTrue unguarded => exact settles_pure _ ⟨rfl, .inl unguarded⟩
  case isFalse guarded =>
    refine Settles.bind ((takeArgOr_settles ..).mono (fun _ _ => id) ?_) ?_
    · rintro _ _ ⟨rfl, ⟨message, failed⟩, -⟩
      exact ⟨rfl, guarded, by simp [failed]⟩
    · rintro code _ ⟨found, rfl⟩
      split
      case isTrue same => exact settles_pure _ ⟨rfl, .inr (by rw [found, same])⟩
      case isFalse other => exact settles_throw _ ⟨rfl, guarded, by simpa [found] using Ne.symm other⟩

theorem ctlCmdTerminate_turns (env : CallEnv ι κ) (c : Call ι κ) :
    Turns (ctlCmdTerminate env) c (terminateExits c.command (exitFlags c.server)) := by
  refine Settles.bind ((takeArg_settles ..).mono (fun _ _ => id) ?_) ?_
  · rintro _ _ ⟨rfl, message, failed, -⟩
    simp only [terminateExits, failed]
  rintro x _ ⟨found, rfl⟩
  refine Settles.get_bind (Settles.bind ((checkGuard_settles ..).mono (fun _ _ => id) ?_) ?_)
  · rintro _ c' ⟨server, guarded, wrong⟩
    simp [terminateExits, found, exitFlags, server, guarded, wrong]
  · rintro _ c' ⟨server, passes⟩
    refine Settles.get_bind ?_
    split
    case isTrue unarmed =>
      refine settles_throw _ ?_
      have guarded : c.server.terminateGuard ≠ 0 := unarmed.1
      have unset : c.server.execOnExit = false := server ▸ unarmed.2
      simp [terminateExits, found, exitFlags, server, guarded, unset]
    case isFalse armed =>
      refine settles_modify ?_
      rw [server] at armed
      have exec : c.server.terminateGuard ≠ 0 → c.server.execOnExit = true := by simpa using armed
      rcases eq_or_ne c.server.terminateGuard 0 with unguarded | guarded
      · simp [terminateExits, found, exitFlags, server, unguarded]
      · have code := passes.resolve_left guarded
        simp [terminateExits, found, exitFlags, server, code, exec guarded]

theorem ctlCmdTerminateGuard_turns (env : CallEnv ι κ) (c : Call ι κ) :
    Turns (ctlCmdTerminateGuard env) c (guardExits c.command (exitFlags c.server)) := by
  refine Settles.bind ((takeArgOr_settles ..).mono (fun _ _ => id) ?_) ?_
  · rintro _ _ ⟨rfl, ⟨message, failed⟩, -⟩
    simp only [guardExits, failed]
  rintro arg _ ⟨found, rfl⟩
  split
  case isTrue other =>
    refine settles_throw _ ?_
    simp only [guardExits, found, other.1, other.2, false_and, if_false, ite_self]
    split <;> rfl
  case isFalse sign =>
    refine Settles.bind ((takeArg_settles ..).mono (fun _ _ => id) ?_) ?_
    · rintro _ _ ⟨rfl, message, failed, -⟩
      simp only [guardExits, found, failed]
    rintro code _ ⟨number, rfl⟩
    refine Settles.get_bind ?_
    simp only [guardExits, found, number, exitFlags]
    split
    case isTrue => exact settles_throw _ (by simp)
    case isFalse nonzero =>
      split
      case isTrue plus =>
        split
        case isTrue guarded => exact settles_throw _ (by simp [plus, guarded])
        case isFalse unguarded => exact settles_modify (by simp [plus, not_not.mp unguarded])
      case isFalse minus =>
        have dash : arg = [45] := by tauto
        split
        case isTrue unguarded => exact settles_throw _ (by simp [nonzero, dash, unguarded])
        case isFalse guarded =>
          split
          case isTrue wrong => exact settles_throw _ (by simp [dash, wrong])
          case isFalse same => exact settles_modify (by simp [dash, not_not.mp same])

theorem ctlCmdTerminateExecArgs_turns (env : CallEnv ι κ) (c : Call ι κ) :
    Turns (ctlCmdTerminateExecArgs env) c (execArgsExits c.command (exitFlags c.server)) := by
  refine Settles.get_bind ?_
  dsimp only
  split
  case isTrue empty => exact settles_modify (by rw [execArgsExits, if_pos empty]; rfl)
  case isFalse given =>
    split
    case isTrue long => exact settles_throw _ (by rw [execArgsExits, if_neg given, if_pos long])
    case isFalse short => exact settles_modify (by rw [execArgsExits, if_neg given, if_neg short]; rfl)

/-- What the handler of a command does to the exit. -/
theorem serverHandler_turns (sigList : List SigListItem) (passed : Option ℤ) (env : CallEnv ι κ) (command : ServerCommand)
    (c : Call ι κ) :
    Turns (serverHandler sigList passed env command) c (commandExits command c.command (exitFlags c.server)) := by
  have services : FreeOfServices (exitFlags : Server ι κ → ExitFlags) := fun _ _ _ _ _ => rfl
  have handles : FreeOfHandles (exitFlags : Server ι κ → ExitFlags) := fun _ _ _ _ _ => rfl
  cases command with
  | terminate => exact ctlCmdTerminate_turns env c
  | terminateGuard => exact ctlCmdTerminateGuard_turns env c
  | terminateExecArgs => exact ctlCmdTerminateExecArgs_turns env c
  | svcTags | svcArgs => exact (Fixes.ctlCmdSvcVar services ..).turns c
  | svcFds => exact (Fixes.ctlCmdSvcFds services env).turns c
  | svcAutoUp => exact (Fixes.ctlCmdSvcAutoUp services sigList env).turns c
  | svcStart => exact (Fixes.ctlCmdSvcStart services env).turns c
  | svcSignal => exact (Fixes.ctlCmdSvcSignal services sigList env).turns c
  | svcDelete => exact (Fixes.ctlCmdSvcDelete services env).turns c
  | socketCreate => exact (Fixes.ctlCmdSocketCreate handles.sockets env).turns c
  | socketDelete => exact (Fixes.ctlCmdSocketDelete handles.sockets env).turns c
  | fdPipe => exact (Fixes.ctlCmdFdPipe handles env).turns c
  | fdOpen => exact (Fixes.ctlCmdFdOpen handles env).turns c
  | fdSocket => exact (Fixes.ctlCmdFdSocket handles env).turns c
  | fdDelete => exact (Fixes.ctlCmdFdDelete handles env).turns c
  | fdTake =>
    cases passed with
    | none => exact (Fixes.refuse _).turns c
    | some fd => exact (Fixes.ctlCmdFdTake handles fd env).turns c
  | chdir => exact (Fixes.ctlCmdChdir env).turns c
  | logFilter => exact (Fixes.ctlCmdLogFilter handles.sockets env).turns c
  | logDest => exact (Fixes.ctlCmdLogDest handles.sockets env).turns c
  | signalClear => exact (Fixes.ctlCmdSignalClear services.loop sigList env).turns c

theorem runServerCommand_exitFlags {sigList : List SigListItem} {passed : Option ℤ} {env : CallEnv ι κ} {server : Server ι κ} {outcome : Outcome ι κ}
    (run : runServerCommand sigList passed env command args server = some outcome) :
    exitFlags outcome.server = commandExits command args (exitFlags server) := by
  obtain ⟨⟨result, c⟩, ran, rfl⟩ := Option.map_eq_some_iff.mp run
  obtain ⟨_, -, same⟩ | ⟨_, -, same⟩ := (serverHandler_turns sigList passed env command ⟨server, args, []⟩).of_run ran
  · exact same
  · exact same

end DaemonProxy.Proofs
