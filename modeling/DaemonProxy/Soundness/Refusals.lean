import DaemonProxy.Proofs.FdRefusals
import DaemonProxy.Proofs.ServiceRefusals
import DaemonProxy.Soundness.Termination

/-! # Commands that are refused

A command about a service changes nothing when it is refused, but for those that have made their service, or set its interval,
before they find what is wrong. A command that makes handles closes what it has opened when it is refused, but for a pair that
`fd.pipe` cannot make non-blocking.
-/

namespace DaemonProxy.Soundness

open Lib Model Proofs

variable {n : ℕ} {ι κ : Type} [DecidableEq ι] [DecidableEq κ]

/-! ## Services -/

/-- The commands that name a service. -/
def serviceCommands : List Bytes :=
  ["service.tags", "service.args", "service.fds", "service.auto_up", "service.start", "service.signal", "service.delete"].map bytesOf

variable {command : ServerCommand}

theorem aboutServices_of_name {name : Bytes} (named : name ∈ serviceCommands)
    (found : findServerCommand name = some command) : aboutServices command = true := by
  have table : ∀ entry ∈ serverCommandTable, entry.1 ∈ serviceCommands → aboutServices entry.2 = true := by decide
  exact table _ (findServerCommand_mem found) named

variable {s : System n ι κ}

theorem known_of_run {sigList : List SigListItem} {standard : ℕ} {fds : FdTable κ} {openFds : List ℤ} {guard : ℤ} {execOnExit : Bool}
    {events : List (System.Event n ι κ)}
    (run : exec? (System.step sigList) (System.init standard fds openFds guard execOnExit) events = some s) :
    Known s.awakeServer.loop := by
  have known : Known s.server.loop := server_reached (I := fun s => Known s.loop) known_init (fun _ _ => Known.serverAct) run
  exact known.setNext _

omit [DecidableEq ι] [DecidableEq κ] in
/-- The services do not depend on `wake->next`. -/
theorem sameServices_awake {server' : Server ι κ} :
    SameServices s.awakeServer server' ↔ SameServices s.server server' :=
  ⟨fun same => { same with }, fun same => { same with }⟩

/-- In any state that the daemon can reach, with any arguments and any answers of the kernel and the allocators: a command that
names a service and is refused leaves the services as they were, exactly if it is not half applied. -/
theorem service_refusal_iff {sigList : List SigListItem} {standard : ℕ} {fds : FdTable κ} {openFds : List ℤ} {guard : ℤ}
    {execOnExit : Bool} {events : List (System.Event n ι κ)} {s : System n ι κ}
    (run : exec? (System.step sigList) (System.init standard fds openFds guard execOnExit) events = some s)
    {name : Bytes} {command : ServerCommand} (named : name ∈ serviceCommands) (found : findServerCommand name = some command)
    {env : CallEnv ι κ} {passed : Option ℤ} {args : StrSeg} {input : CallInput} {server' : Server ι κ}
    (called : (System.serverCall sigList env passed name args).run s.awakeServer = some (input, server')) :
    (input.error ≠ none → SameServices s.server server') ↔ ¬HalfApplied sigList s.server env command args := by
  have exactly : Settles (serverHandler sigList passed env command) ⟨s.awakeServer, args, []⟩
      (fun _ _ => ¬HalfApplied sigList s.server env command args)
      fun _ c' => SameServices s.awakeServer c'.server ↔ ¬HalfApplied sigList s.server env command args :=
    serverHandler_exact (c := ⟨s.awakeServer, args, []⟩) (known_of_run run) sigList passed env (aboutServices_of_name named found)
  obtain ⟨c, rfl, -, ⟨accepted, whole⟩ | ⟨text, refused, same⟩⟩ := serverCall_settles found called exactly
  · exact ⟨fun _ => whole, fun _ failed => absurd accepted failed⟩
  · rw [← same, sameServices_awake, refused]
    exact ⟨fun kept => kept nofun, fun kept _ => kept⟩

/-- There is memory for a service. -/
def svcRoom : CallEnv (Fin 1) (Fin 1) := { svcMem := some (Fin.last 0) }

/-- A line that is executed with memory for a service. -/
def madeRun (line : String) : List (System.Event 1 (Fin 1) (Fin 1)) :=
  linesRun [line] 1 ++ [.call (Fin.last 0) svcRoom false fun _ => []]

/-- A service that exists is given an interval that is none. -/
theorem service_refusal_existing :
    ∃ s input server', exec? (System.step []) processOne (madeRun "service.tags\ta\tb") = some s ∧
      (System.serverCall [] {} none (bytesOf "service.auto_up") (some (bytesOf "a\tx"))).run s.awakeServer = some (input, server') ∧
      s.server.loop.daemon.svcList = [0] ∧ input.error ≠ none ∧ SameServices s.server server' := by
  obtain ⟨s, run, holds⟩ := (Option.any_eq_true _ _).mp
    (show (exec? (System.step []) processOne (madeRun "service.tags\ta\tb")).any (fun s =>
      s.server.loop.daemon.svcList = [0] ∧
        target s.server (none : Option (Fin 1)) (some (bytesOf "a\tx")) = some (0, false, some (bytesOf "x")) ∧
        ((System.serverCall [] {} none (bytesOf "service.auto_up") (some (bytesOf "a\tx"))).run s.awakeServer).any
          (fun result => result.1.error.isSome) = true) = true by decide +kernel)
  obtain ⟨svcList, found, called⟩ := of_decide_eq_true holds
  obtain ⟨⟨input, server'⟩, called, refused⟩ := (Option.any_eq_true _ _).mp called
  have failed : input.error ≠ none := Option.isSome_iff_ne_none.mp refused
  refine ⟨s, input, server', run, called, svcList, failed, (service_refusal_iff run ?_ rfl called).mpr ?_ failed⟩
  · decide
  · rintro ⟨x, made, rest, found', halfway⟩
    cases found.symm.trans found'
    exact nomatch halfway

/-- `service.auto_up` makes the service before it sees that the interval is none. -/
theorem service_refusal_makes :
    ∃ s input server', exec? (System.step []) processOne (linesRun ["service.auto_up\ta\tx"] 1) = some s ∧
      s.commandLine 0 = (bytesOf "service.auto_up", some (bytesOf "a\tx")) ∧
      (System.serverCall [] svcRoom none (s.commandLine 0).1 (s.commandLine 0).2).run s.awakeServer =
        some (input, server') ∧
      input.error ≠ none ∧ s.server.loop.daemon.svcList = [] ∧ server'.loop.daemon.svcList = [0] := by
  obtain ⟨s, run, holds⟩ := (Option.any_eq_true _ _).mp
    (show (exec? (System.step []) processOne (linesRun ["service.auto_up\ta\tx"] 1)).any (fun s =>
      s.commandLine 0 = (bytesOf "service.auto_up", some (bytesOf "a\tx")) ∧ s.server.loop.daemon.svcList = [] ∧
        ((System.serverCall [] svcRoom none (s.commandLine 0).1 (s.commandLine 0).2).run s.awakeServer).any
          (fun result => result.1.error.isSome && result.2.loop.daemon.svcList = [0]) = true) = true by decide +kernel)
  obtain ⟨line, svcList, called⟩ := of_decide_eq_true holds
  obtain ⟨⟨input, server'⟩, called, made⟩ := (Option.any_eq_true _ _).mp called
  rw [Bool.and_eq_true, decide_eq_true_iff] at made
  exact ⟨s, input, server', run, line, called, Option.isSome_iff_ne_none.mp made.1, svcList, made.2⟩

/-! ## Handles -/

/-- The commands that open descriptors. -/
def fdCommands : List Bytes := ["fd.open", "fd.pipe", "fd.socket"].map bytesOf

theorem fdCommand_of_name {name : Bytes} (named : name ∈ fdCommands)
    (found : findServerCommand name = some command) : command = .fdOpen ∨ command = .fdPipe ∨ command = .fdSocket := by
  have table : ∀ entry ∈ serverCommandTable, entry.1 ∈ fdCommands → entry.2 = .fdOpen ∨ entry.2 = .fdPipe ∨ entry.2 = .fdSocket := by
    decide
  exact table _ (findServerCommand_mem found) named

theorem fdSound_of_run {sigList : List SigListItem} {standard : ℕ} {poolSize : Option ℕ} {fdDevNull : ℤ} {mem : Fin 4 → Option κ}
    {fds : FdTable κ} {openFds : List ℤ} {guard : ℤ} {execOnExit : Bool} {events : List (System.Event n ι κ)}
    (start : (fdInitSpecialHandles fdDevNull mem).run (FdTable.empty poolSize) = some (true, fds))
    (run : exec? (System.step sigList) (System.init standard fds openFds guard execOnExit) events = some s) : FdSound s.server.fds :=
  server_reached (I := fun s => FdSound s.fds) (fdInitSpecialHandles_sound poolSize fdDevNull mem _ _ start)
    (fun _ _ => FdSound.serverAct) run

/-- A command that opens descriptors and is refused changed something exactly if it is `fd.pipe` and leaks a pair. -/
theorem serverHandler_handles {c : Call ι κ} (sound : FdSound c.server.fds) (sigList : List SigListItem) (passed : Option ℤ)
    (env : CallEnv ι κ) (opens : command = .fdOpen ∨ command = .fdPipe ∨ command = .fdSocket) :
    Settles (serverHandler sigList passed env command) c
      (fun _ _ => ¬(command = .fdPipe ∧ LeaksPair c.server env c.command))
      fun _ c' => SameHandles c.server c'.server ↔ ¬(command = .fdPipe ∧ LeaksPair c.server env c.command) := by
  rcases opens with rfl | rfl | rfl
  · have never : ¬(ServerCommand.fdOpen = .fdPipe ∧ LeaksPair c.server env c.command) := fun leak => nomatch leak.1
    refine (ctlCmdFdOpen_settles sound env).mono (fun _ _ _ => never) ?_
    exact fun _ c' same => ⟨fun _ => never, fun _ => same ▸ .refl _⟩
  · refine (ctlCmdFdPipe_exact sound env).mono ?_ ?_
    · exact fun _ _ after leak => after.2 leak.2
    · exact fun _ _ after => after.2.trans (by simp)
  · have never : ¬(ServerCommand.fdSocket = .fdPipe ∧ LeaksPair c.server env c.command) := fun leak => nomatch leak.1
    refine (ctlCmdFdSocket_settles sound env).mono (fun _ _ _ => never) ?_
    exact fun _ c' same => ⟨fun _ => never, fun _ => same ▸ .refl _⟩

/-- In any state that the daemon can reach from the special handles, with any arguments and any failures of the kernel and the
allocators: a command that opens descriptors and is refused leaves the open descriptors and the handles as they were, exactly
if it is not an `fd.pipe` that leaks a pair. -/
theorem fd_refusal_iff {sigList : List SigListItem} {standard : ℕ} {poolSize : Option ℕ} {fdDevNull : ℤ} {mem : Fin 4 → Option κ}
    {fds : FdTable κ} {openFds : List ℤ} {guard : ℤ} {execOnExit : Bool} {events : List (System.Event n ι κ)} {s : System n ι κ}
    (start : (fdInitSpecialHandles fdDevNull mem).run (FdTable.empty poolSize) = some (true, fds))
    (run : exec? (System.step sigList) (System.init standard fds openFds guard execOnExit) events = some s)
    {name : Bytes} {command : ServerCommand} (named : name ∈ fdCommands) (found : findServerCommand name = some command)
    {env : CallEnv ι κ} {passed : Option ℤ} {args : StrSeg} {input : CallInput} {server' : Server ι κ}
    (called : (System.serverCall sigList env passed name args).run s.awakeServer = some (input, server')) :
    (input.error ≠ none → SameHandles s.server server') ↔ ¬(command = .fdPipe ∧ LeaksPair s.server env args) := by
  have exactly : Settles (serverHandler sigList passed env command) ⟨s.awakeServer, args, []⟩
      (fun _ _ => ¬(command = .fdPipe ∧ LeaksPair s.server env args))
      fun _ c' => SameHandles s.awakeServer c'.server ↔ ¬(command = .fdPipe ∧ LeaksPair s.server env args) :=
    serverHandler_handles (c := ⟨s.awakeServer, args, []⟩) (fdSound_of_run start run) sigList passed env (fdCommand_of_name named found)
  have awake : ∀ {server' : Server ι κ}, SameHandles s.awakeServer server' ↔ SameHandles s.server server' :=
    ⟨fun same => { same with }, fun same => { same with }⟩
  obtain ⟨c, rfl, -, ⟨accepted, whole⟩ | ⟨text, refused, same⟩⟩ := serverCall_settles found called exactly
  · exact ⟨fun _ => whole, fun _ failed => absurd accepted failed⟩
  · rw [← same, awake, refused]
    exact ⟨fun kept => kept nofun, fun kept _ => kept⟩

/-- The daemon with its special handles. -/
def special (fds : FdTable ℕ) : System 1 (Fin 1) ℕ := .init 2 fds [] 0 false

/-- There is no memory for the second end of a pipe. -/
theorem fd_refusal_no_memory :
    ∃ fds input server', (fdInitSpecialHandles 3 fun i => some i.val).run (FdTable.empty none) = some (true, fds) ∧
      (System.serverCall [] { newFd1 := some 5, newFd2 := some 6, fdMem1 := some 10 } none (bytesOf "fd.pipe")
        (some (bytesOf "a\tb"))).run (special fds).awakeServer = some (input, server') ∧
      input.error ≠ none ∧ SameHandles (special fds).server server' := by
  obtain ⟨⟨done, fds⟩, start, holds⟩ := (Option.any_eq_true _ _).mp
    (show ((fdInitSpecialHandles 3 fun i => some i.val).run (FdTable.empty none)).any (fun result => result.1 &&
      ((System.serverCall [] { newFd1 := some 5, newFd2 := some 6, fdMem1 := some 10 } none (bytesOf "fd.pipe")
        (some (bytesOf "a\tb"))).run (special result.2).awakeServer).any fun after => after.1.error.isSome) = true by decide +kernel)
  obtain ⟨rfl, called⟩ := (Bool.and_eq_true _ _).mp holds
  obtain ⟨⟨input, server'⟩, called, refused⟩ := (Option.any_eq_true _ _).mp called
  have failed : input.error ≠ none := Option.isSome_iff_ne_none.mp refused
  have reached : exec? (System.step []) (special fds) [] = some (special fds) := rfl
  refine ⟨fds, input, server', start, called, failed, (fd_refusal_iff start reached ?_ rfl called).mpr ?_ failed⟩
  · decide
  · rintro ⟨-, -, -, blocked⟩
    exact absurd blocked (by decide)

/-- `fd.pipe` opens a pair, cannot make it non-blocking, and leaves it open. -/
theorem fd_refusal_leaks :
    ∃ fds input server', (fdInitSpecialHandles 3 fun i => some i.val).run (FdTable.empty none) = some (true, fds) ∧
      (System.serverCall [] { newFd1 := some 5, newFd2 := some 6, nonblock2 := false } none (bytesOf "fd.pipe")
        (some (bytesOf "a\tb\tnonblock"))).run (special fds).awakeServer = some (input, server') ∧
      input.error ≠ none ∧ (special fds).server.openFds = [] ∧ server'.openFds = [5, 6] := by
  obtain ⟨⟨done, fds⟩, start, holds⟩ := (Option.any_eq_true _ _).mp
    (show ((fdInitSpecialHandles 3 fun i => some i.val).run (FdTable.empty none)).any (fun result => result.1 &&
      ((System.serverCall [] { newFd1 := some 5, newFd2 := some 6, nonblock2 := false } none (bytesOf "fd.pipe")
        (some (bytesOf "a\tb\tnonblock"))).run (special result.2).awakeServer).any fun after =>
          after.1.error.isSome && after.2.openFds = [5, 6]) = true by decide +kernel)
  obtain ⟨rfl, called⟩ := (Bool.and_eq_true _ _).mp holds
  obtain ⟨⟨input, server'⟩, called, after⟩ := (Option.any_eq_true _ _).mp called
  obtain ⟨refused, opened⟩ := (Bool.and_eq_true _ _).mp after
  exact ⟨fds, input, server', start, called, Option.isSome_iff_ne_none.mp refused, rfl, of_decide_eq_true opened⟩

end DaemonProxy.Soundness
