import DaemonProxy.Proofs.Exits

/-! # Termination

While the terminate guard is set, the daemon exits only by a `terminate` command with the right code, and the guard is lifted
only by `terminate.guard -` with that code. As process 1 the daemon starts with the guard set, but once it is lifted nothing
else keeps it from exiting with no program to execute.
-/

namespace DaemonProxy.Soundness

open Lib Model Proofs

variable {n : ℕ} {ι κ : Type}

/-- The command that a step has a controller execute, with its arguments. -/
def executed (s : System n ι κ) : System.Event n ι κ → Option (Bytes × StrSeg)
  | .call i _ _ _ => if (s.world.client i).stateFn = some .runCommand then some (s.commandLine i) else none
  | _ => none

/-- `terminate`, with a second argument that evaluates to the guard, while there is a program to execute on exit. -/
def TerminatesByCode (s : System n ι κ) (event : System.Event n ι κ) : Prop :=
  ∃ args x, executed s event = some (bytesOf "terminate", args) ∧ (ctlGetArgInt args).2 = .ok x ∧
    (ctlGetArgInt (ctlGetArgInt args).1).2 = .ok s.server.terminateGuard ∧ s.server.execOnExit = true

/-- `terminate.guard - c`, where `c` evaluates to the guard. -/
def LiftsGuard (s : System n ι κ) (event : System.Event n ι κ) : Prop :=
  ∃ args, executed s event = some (bytesOf "terminate.guard", args) ∧ (ctlGetArg args).2 = .ok [45] ∧
    (ctlGetArgInt (ctlGetArg args).1).2 = .ok s.server.terminateGuard

section Steps

variable {s s' : System n ι κ} {event : System.Event n ι κ}

theorem terminate_name {name : Bytes} (found : findServerCommand name = some .terminate) : name = bytesOf "terminate" :=
  have table : ∀ entry ∈ serverCommandTable, entry.2 = .terminate → entry.1 = bytesOf "terminate" := by decide
  table _ (findServerCommand_mem found) rfl

theorem terminateGuard_name {name : Bytes} (found : findServerCommand name = some .terminateGuard) :
    name = bytesOf "terminate.guard" :=
  have table : ∀ entry ∈ serverCommandTable, entry.2 = .terminateGuard → entry.1 = bytesOf "terminate.guard" := by decide
  table _ (findServerCommand_mem found) rfl

/-- A line that turns the exit flag on is a `terminate` that is allowed. -/
theorem lineExits_terminate {i : Fin n} (off : s.server.terminate = false) (on : (lineExits s i).terminate = true) :
    (s.commandLine i).1 = bytesOf "terminate" ∧ (lineExits s i).exec = s.server.execOnExit ∧
      ∃ x, (ctlGetArgInt (s.commandLine i).2).2 = .ok x ∧ (s.server.terminateGuard = 0 ∨
        (ctlGetArgInt (ctlGetArgInt (s.commandLine i).2).1).2 = .ok s.server.terminateGuard ∧ s.server.execOnExit = true) := by
  rw [lineExits] at on ⊢
  cases found : findServerCommand (s.commandLine i).1 with
  | none =>
    rw [found] at on
    exact absurd on (by simp [exitFlags, off])
  | some command =>
    rw [found] at on
    obtain ⟨rfl, allowed⟩ := commandExits_terminate off on
    exact ⟨terminate_name found, (terminateExits_keeps ..).2, allowed⟩

/-- A line that changes a guard is the `terminate.guard -` that lifts it. -/
theorem lineExits_guard {i : Fin n} (set : s.server.terminateGuard ≠ 0) (changed : (lineExits s i).guard ≠ s.server.terminateGuard) :
    (s.commandLine i).1 = bytesOf "terminate.guard" ∧ (lineExits s i).guard = 0 ∧ (ctlGetArg (s.commandLine i).2).2 = .ok [45] ∧
      (ctlGetArgInt (ctlGetArg (s.commandLine i).2).1).2 = .ok s.server.terminateGuard := by
  rw [lineExits] at changed ⊢
  cases found : findServerCommand (s.commandLine i).1 with
  | none =>
    rw [found] at changed
    exact absurd rfl changed
  | some command =>
    rw [found] at changed
    obtain ⟨rfl, minus, code, lifted⟩ := commandExits_guard set changed
    exact ⟨terminateGuard_name found, lifted, minus, code⟩

variable [DecidableEq ι] [DecidableEq κ] {sigList : List SigListItem}

/-- The exit flag is turned on by a `terminate` that is allowed, or by the end of the interactive session. -/
theorem step_terminates (step : System.step sigList s event = some s') (off : s.server.terminate = false)
    (on : s'.server.terminate = true) :
    s'.server.execOnExit = s.server.execOnExit ∧
      ((∃ args x, executed s event = some (bytesOf "terminate", args) ∧ (ctlGetArgInt args).2 = .ok x ∧
        (s.server.terminateGuard = 0 ∨
          (ctlGetArgInt (ctlGetArgInt args).1).2 = .ok s.server.terminateGuard ∧ s.server.execOnExit = true)) ∨
      s.server.terminateGuard = 0 ∧ s.interactive ≠ none ∧ s'.interactive = none) := by
  have still : exitFlags s'.server ≠ exitFlags s.server := fun same =>
    absurd ((congrArg ExitFlags.terminate same).symm.trans on) (by simp [exitFlags, off])
  cases step_exits step with
  | session move =>
    cases move with
    | same flags _ => exact absurd flags still
    | ended flags opened closed =>
      split at flags
      case isTrue unguarded => exact ⟨congrArg ExitFlags.exec flags, .inr ⟨unguarded, opened, closed⟩⟩
      case isFalse => exact absurd flags still
  | same flags => exact absurd flags still
  | command i env last replies called parked flags =>
    have turned : (lineExits s i).terminate = true := (congrArg ExitFlags.terminate flags).symm.trans on
    obtain ⟨name, exec, x, number, allowed⟩ := lineExits_terminate off turned
    refine ⟨(congrArg ExitFlags.exec flags).trans exec, .inl ⟨(s.commandLine i).2, x, ?_, number, allowed⟩⟩
    rw [called, executed, if_pos parked, ← name]

/-- A guard that is set is lifted by a command, or stays. -/
theorem step_guard (step : System.step sigList s event = some s') (set : s.server.terminateGuard ≠ 0)
    (changed : s'.server.terminateGuard ≠ s.server.terminateGuard) : s'.server.terminateGuard = 0 ∧ LiftsGuard s event := by
  have still : exitFlags s'.server ≠ exitFlags s.server := fun same => changed (congrArg ExitFlags.guard same)
  cases step_exits step with
  | session move =>
    cases move with
    | same flags _ => exact absurd flags still
    | ended flags _ _ =>
      rw [if_neg set] at flags
      exact absurd flags still
  | same flags => exact absurd flags still
  | command i env last replies called parked flags =>
    have guard : s'.server.terminateGuard = (lineExits s i).guard := congrArg ExitFlags.guard flags
    obtain ⟨name, lifted, minus, code⟩ := lineExits_guard set (guard ▸ changed)
    refine ⟨guard.trans lifted, (s.commandLine i).2, ?_, minus, code⟩
    rw [called, executed, if_pos parked, ← name]

end Steps

/-! ## The guard -/

variable [DecidableEq ι] [DecidableEq κ]

/-- In any run of the daemon, with any number of controllers, at each step that finds the guard set: if it turns the exit
flag on, it executes `terminate` with the code while there is a program to execute, and if it changes the guard, it lifts it,
and executes `terminate.guard -` with the code. -/
theorem terminate_guarded {sigList : List SigListItem} {start final : System n ι κ} {before after : List (System.Event n ι κ)}
    {event : System.Event n ι κ} (run : exec? (System.step sigList) start (before ++ event :: after) = some final) :
    ∃ s s', exec? (System.step sigList) start before = some s ∧ System.step sigList s event = some s' ∧
      (s.server.terminateGuard ≠ 0 →
        (s.server.terminate = false → s'.server.terminate = true → TerminatesByCode s event) ∧
        (s'.server.terminateGuard ≠ s.server.terminateGuard → s'.server.terminateGuard = 0 ∧ LiftsGuard s event)) := by
  obtain ⟨s, s', reached, step⟩ := exec?_around run
  refine ⟨s, s', reached, step, fun set => ⟨fun off on => ?_, step_guard step set⟩⟩
  obtain ⟨-, ⟨args, x, executes, number, unguarded | ⟨code, exec⟩⟩ | ⟨unguarded, -⟩⟩ := step_terminates step off on
  · exact absurd unguarded set
  · exact ⟨args, x, executes, number, code, exec⟩
  · exact absurd unguarded set

/-- Some lines of input. -/
def someLines (lines : List String) : ReadReply :=
  match lines.flatMap fun line => bytesOf line ++ [10] with
  | [] => .eof
  | first :: rest => .data first rest 0

/-- One call of the state function of the only controller. -/
def oneCall : System.Event 1 (Fin 1) (Fin 1) := .call (Fin.last 0) {} false fun _ => []

/-- A controller is made and reads these lines in the first iteration, and its state function is called some times. -/
def linesRun (lines : List String) (calls : ℕ) : List (System.Event 1 (Fin 1) (Fin 1)) :=
  [.new 0 1 false true true, .iterate (.ofSeconds 1) (fun _ => false) [], .runActive (fun _ => none) fun _ => [],
    .read (Fin.last 0) (someLines lines) []] ++ List.replicate calls oneCall

/-- The daemon as process 1, with a terminate guard of 1. -/
def processOne : System 1 (Fin 1) (Fin 1) := .init 2 (.empty none) [] 1 false

/-- A program to execute is set, and `terminate` is given the code. -/
theorem terminate_guarded_code :
    let before := linesRun ["terminate.exec_args\t/bin/sh", "terminate\t0\t1"] 4
    ∃ s s', exec? (System.step []) processOne before = some s ∧ System.step [] s oneCall = some s' ∧
      s.server.terminateGuard ≠ 0 ∧ s.server.terminate = false ∧ s'.server.terminate = true ∧ TerminatesByCode s oneCall := by
  intro before
  obtain ⟨final, run, on⟩ := (Option.any_eq_true _ _).mp
    (show (exec? (System.step []) processOne (before ++ oneCall :: [])).any (fun s => s.server.terminate) = true by decide +kernel)
  obtain ⟨middle, reached', holds⟩ := (Option.any_eq_true _ _).mp
    (show (exec? (System.step []) processOne before).any (fun s => s.server.terminateGuard ≠ 0 ∧ s.server.terminate = false) = true
      by decide +kernel)
  obtain ⟨set, off⟩ := of_decide_eq_true holds
  obtain ⟨s, s', reached, step, guarded⟩ := terminate_guarded run
  obtain rfl : s = middle := Option.some.inj (reached.symm.trans reached')
  obtain rfl : s' = final := Option.some.inj ((exec?_concat.mpr ⟨s, reached, step⟩).symm.trans run)
  exact ⟨s, s', reached, step, set, off, on, (guarded set).1 off on⟩

/-! ## Process 1 -/

/-- The step executes `terminate` with a number. -/
def terminatesNow (s : System n ι κ) (event : System.Event n ι κ) : Bool :=
  (executed s event).any fun line => line.1 = bytesOf "terminate" && (ctlGetArgInt line.2).2.isOk

/-- The interactive controller is freed in the step. -/
def endsSession (sigList : List SigListItem) (s : System n ι κ) (event : System.Event n ι κ) : Bool :=
  s.interactive.isSome && (System.step sigList s event).any fun s' => s'.interactive.isNone

/-- With no guard and no program to execute on exit, nothing asks the daemon to exit. -/
def Careful (sigList : List SigListItem) (s : System n ι κ) (event : System.Event n ι κ) : Prop :=
  s.server.terminateGuard = 0 → s.server.execOnExit = false →
    terminatesNow s event = false ∧ endsSession sigList s event = false

instance (sigList : List SigListItem) (s : System n ι κ) (event : System.Event n ι κ) : Decidable (Careful sigList s event) :=
  inferInstanceAs (Decidable (_ → _ → _ ∧ _))

/-- In any run as process 1 whose steps are careful, the exit flag is turned on only while there is a program to execute. -/
theorem process_one_execs {sigList : List SigListItem} {standard : ℕ} {fds : FdTable κ} {openFds : List ℤ} {execOnExit : Bool}
    {final : System n ι κ} {before after : List (System.Event n ι κ)} {event : System.Event n ι κ}
    (run : exec? (System.step sigList) (System.init standard fds openFds 1 execOnExit) (before ++ event :: after) = some final)
    (careful : Along? (System.step sigList) (Careful sigList) (System.init standard fds openFds 1 execOnExit)
      (before ++ event :: after)) :
    ∃ s s', exec? (System.step sigList) (System.init standard fds openFds 1 execOnExit) before = some s ∧
      System.step sigList s event = some s' ∧
      (s.server.terminate = false → s'.server.terminate = true → s'.server.execOnExit = true) := by
  obtain ⟨s, s', reached, step⟩ := exec?_around run
  refine ⟨s, s', reached, step, fun off on => ?_⟩
  have allowed : Careful sigList s event := careful.allowed_at reached
  obtain ⟨exec, asked⟩ := step_terminates step off on
  rw [exec]
  by_contra unset
  rw [Bool.not_eq_true] at unset
  rcases asked with ⟨args, x, line, number, unguarded | ⟨-, set⟩⟩ | ⟨unguarded, opened, closed⟩
  · have quiet := (allowed unguarded unset).1
    simp [terminatesNow, line, number, Except.isOk, Except.toBool] at quiet
  · exact absurd (unset.symm.trans set) nofun
  · have stays := (allowed unguarded unset).2
    simp [endsSession, step, closed, opened] at stays

/-- The guard is lifted while a program is set, and `terminate` follows. -/
theorem process_one_execs_unguarded :
    let before := linesRun ["terminate.exec_args\t/bin/sh", "terminate.guard\t-\t1", "terminate\t0"] 7
    ∃ s s', exec? (System.step []) processOne before = some s ∧ System.step [] s oneCall = some s' ∧
      s.server.terminate = false ∧ s'.server.terminate = true ∧ s'.server.execOnExit = true := by
  intro before
  obtain ⟨final, run, on⟩ := (Option.any_eq_true _ _).mp
    (show (exec? (System.step []) processOne (before ++ oneCall :: [])).any (fun s => s.server.terminate) = true by decide +kernel)
  obtain ⟨middle, reached', off⟩ := (Option.any_eq_true _ _).mp
    (show (exec? (System.step []) processOne before).any (fun s => s.server.terminate = false) = true by decide +kernel)
  have careful : Along? (System.step []) (Careful []) processOne (before ++ oneCall :: []) := by decide +kernel
  obtain ⟨s, s', reached, step, execs⟩ := process_one_execs run careful
  obtain rfl : s = middle := Option.some.inj (reached.symm.trans reached')
  obtain rfl : s' = final := Option.some.inj ((exec?_concat.mpr ⟨s, reached, step⟩).symm.trans run)
  have off := of_decide_eq_true off
  exact ⟨s, s', reached, step, off, on, execs off on⟩

/-- Process 1 lifts its guard and is told to terminate: the exit flag is on, and there is no program to execute. -/
theorem process_one_exits :
    ∃ s, exec? (System.step []) processOne (linesRun ["terminate.guard\t-\t1", "terminate\t0"] 5) = some s ∧
      s.server.terminate = true ∧ s.server.execOnExit = false := by
  obtain ⟨s, run, exits⟩ := (Option.any_eq_true _ _).mp
    (show (exec? (System.step []) processOne (linesRun ["terminate.guard\t-\t1", "terminate\t0"] 5)).any
      (fun s => s.server.terminate = true ∧ s.server.execOnExit = false) = true by decide +kernel)
  exact ⟨s, run, of_decide_eq_true exits⟩

end DaemonProxy.Soundness
