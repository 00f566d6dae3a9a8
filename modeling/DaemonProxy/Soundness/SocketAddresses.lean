import DaemonProxy.Proofs.SocketAddresses
import DaemonProxy.Soundness.Refusals

/-! # The addresses that `fd.socket` uses

`create_missing_dirs` and `bind` get an address that was parsed, but for one combination of the arguments.
-/

namespace DaemonProxy.Soundness

open Lib Model Proofs

variable {n : ℕ} {ι κ : Type} [DecidableEq ι] [DecidableEq κ]

/-- In any state that the daemon can reach from the special handles, with any arguments and any answers of the kernel and the
allocators: every address that `fd.socket` uses was written by a successful call of the parser for the same domain, exactly if
it is not asked to make the directories of a socket without an address. -/
theorem socket_addresses_iff {sigList : List SigListItem} {standard : ℕ} {poolSize : Option ℕ} {fdDevNull : ℤ} {mem : Fin 4 → Option κ}
    {fds : FdTable κ} {openFds : List ℤ} {guard : ℤ} {execOnExit : Bool} {events : List (System.Event n ι κ)} {s : System n ι κ}
    (start : (fdInitSpecialHandles fdDevNull mem).run (FdTable.empty poolSize) = some (true, fds))
    (run : exec? (System.step sigList) (System.init standard fds openFds guard execOnExit) events = some s)
    {inetPton : Bytes → Option Quad} {env : CallEnv ι κ} {args : StrSeg} {result : Except Bytes Unit} {after : SocketCall ι κ}
    (called : (SocketM.ctlCmdFdSocket inetPton env).run.run { call := ⟨s.awakeServer, args, []⟩ } = some (result, after)) :
    UsesParsed after.events ↔ ¬BareMkdir s.server.fds args := by
  have noted : Noted (BareMkdir s.server.fds args) after := by
    have settles := ctlCmdFdSocket_notes (s := { call := ⟨s.awakeServer, args, []⟩ }) inetPton env (fdSound_of_run start run) ⟨rfl, rfl⟩
    rcases settles.of_run called with ⟨_, -, noted⟩ | ⟨_, -, noted⟩
    · exact noted
    · exact noted
  rcases noted with ⟨whole, uses⟩ | ⟨bare, used⟩
  · exact iff_of_true uses whole
  · exact iff_of_false (not_usesParsed used) (not_not.mpr bare)

/-- `fd.socket`, with memory for a handle, in the first state of the daemon. -/
def socketRun (fds : FdTable ℕ) (args : String) : Option (Except Bytes Unit × SocketCall (Fin 1) ℕ) :=
  (SocketM.ctlCmdFdSocket dottedQuad { newFd1 := some 5, fdMem1 := some 10 }).run.run
    { call := ⟨(special fds).awakeServer, some (bytesOf args), []⟩ }

/-- A socket of the file system with its directories. -/
theorem socket_addresses_iff_mkdir :
    ∃ fds result after, (fdInitSpecialHandles 3 fun i => some i.val).run (FdTable.empty none) = some (true, fds) ∧
      socketRun fds "a\tunix,mkdir\t/run/a/socket" = some (result, after) ∧
      (UsesParsed after.events ↔ ¬BareMkdir (special fds).server.fds (some (bytesOf "a\tunix,mkdir\t/run/a/socket"))) := by
  obtain ⟨⟨done, fds⟩, start, holds⟩ := (Option.any_eq_true _ _).mp
    (show ((fdInitSpecialHandles 3 fun i => some i.val).run (FdTable.empty none)).any (fun result => result.1 &&
      (socketRun result.2 "a\tunix,mkdir\t/run/a/socket").any fun after => after.2.events.length = 3) = true by decide +kernel)
  obtain ⟨rfl, called⟩ := (Bool.and_eq_true _ _).mp holds
  obtain ⟨⟨result, after⟩, called, -⟩ := (Option.any_eq_true _ _).mp called
  have reached : exec? (System.step []) (special fds) [] = some (special fds) := rfl
  exact ⟨fds, result, after, start, called, socket_addresses_iff start reached called⟩

/-- Without an address, the directories are made for a variable that nothing has written. -/
theorem socket_address_unwritten :
    ∃ fds result after, (fdInitSpecialHandles 3 fun i => some i.val).run (FdTable.empty none) = some (true, fds) ∧
      socketRun fds "a\tunix,mkdir" = some (result, after) ∧ after.events = [.dirs .unix none] ∧ ¬UsesParsed after.events := by
  obtain ⟨⟨done, fds⟩, start, holds⟩ := (Option.any_eq_true _ _).mp
    (show ((fdInitSpecialHandles 3 fun i => some i.val).run (FdTable.empty none)).any (fun result => result.1 &&
      (socketRun result.2 "a\tunix,mkdir").any fun after => after.2.events = [.dirs .unix none]) = true by decide +kernel)
  obtain ⟨rfl, called⟩ := (Bool.and_eq_true _ _).mp holds
  obtain ⟨⟨result, after⟩, called, events⟩ := (Option.any_eq_true _ _).mp called
  have used : after.events = [.dirs .unix none] := of_decide_eq_true events
  refine ⟨fds, result, after, start, called, used, not_usesParsed ?_⟩
  rw [used]
  exact List.mem_singleton_self _

end DaemonProxy.Soundness
