import DaemonProxy.Proofs.FdAccepts
import DaemonProxy.Proofs.FlagText

/-! # Making a handle again from its report

The flags that `fd.state` reports are flags that the command accepts, and they ask for the same file or socket.
-/

namespace DaemonProxy.Soundness

open Lib Model Proofs

variable {ι κ : Type} [DecidableEq ι] [DecidableEq κ]

/-- Where the command is accepted, its one message reports the new handle, and the flags from that report are accepted in place of
those that were given. The settings of the two handles agree. -/
def Replays (command : CmdM ι κ Unit) (agree : FdFlags → FdFlags → Prop) (sigList : List SigListItem) (c : Call ι κ)
    (name opts : Bytes) (rest : StrSeg) : Prop :=
  ∀ out, Succeeds command (withArgs c name opts rest) (fun _ c' => c'.out = out) →
    ∃ flags target field again, out = c.out ++ [(true, .fdState name flags target)] ∧
      flagsField ((Notice.fdState name flags target).body sigList) = some field ∧ tab ∉ field ∧
      Succeeds command (withArgs c name field rest) (fun _ c' => c'.out = c.out ++ [(true, .fdState name again target)]) ∧
      agree flags again

/-- The bits for `open`, and `mkdir`. -/
def SameFile (flags again : FdFlags) : Prop := flags.openFlags = again.openFlags ∧ flags.mkdir = again.mkdir

structure SameSocket (flags again : FdFlags) : Prop where
  domain : flags.domain = again.domain
  type : flags.sockType = again.sockType
  bind : flags.bind = again.bind
  listen : flags.listen = again.listen
  mkdir : flags.mkdir = again.mkdir
  nonblock : flags.nonblock = again.nonblock

theorem sameFile_reread (flags : FdFlags) : SameFile flags (rereadFile flags) := by
  refine ⟨?_, rfl⟩
  cases read : flags.read <;> cases write : flags.write <;> simp [FdFlags.openFlags, rereadFile, read, write]

theorem sameSocket_reread (flags : FdFlags) : SameSocket flags (rereadSocket flags) where
  domain := by cases inet : flags.sockInet <;> simp [FdFlags.domain, rereadSocket, inet]
  type := by cases dgram : flags.sockDgram <;> simp [FdFlags.sockType, rereadSocket, dgram]
  bind := rfl
  listen := rfl
  mkdir := rfl
  nonblock := rfl

/-- The replayed flags lead to the same calls with the same address. -/
theorem OpensSocket.reread {env : CallEnv ι κ} {c : Call ι κ} {name : Bytes} {rest : StrSeg} {asked flags : FdFlags} {text : Bytes}
    (opens : OpensSocket env c name rest asked flags text) :
    OpensSocket env c name rest (rereadSocket flags) (rereadSocket flags) text := by
  obtain ⟨fds, address, fd, takes, given, new, works, makes⟩ := opens
  refine ⟨fds, address, fd, takes, ?_, new, works, makes⟩
  rcases given with ⟨more, taken, valid, last, rfl⟩ | ⟨none, last, unbound, rfl, rfl⟩
  · refine .inl ⟨more, taken, ?_, last, rfl⟩
    rw [← (sameSocket_reread _).domain]
    exact valid
  · exact .inr ⟨none, last, unbound, rfl, rfl⟩

theorem flags_replay (sigList : List SigListItem) {name opts : Bytes} (nameFree : tab ∉ name) (optsFree : tab ∉ opts)
    (env : CallEnv ι κ) (c : Call ι κ) (rest : StrSeg) :
    Replays (ctlCmdFdOpen env) SameFile sigList c name opts rest ∧
      Replays (ctlCmdFdSocket env) SameSocket sigList c name opts rest := by
  constructor
  · intro out accepted
    obtain ⟨flags, text, parsed, opens, rfl⟩ := (succeeds_ctlCmdFdOpen (c := c) nameFree optsFree env rest out).mp accepted
    have file : IsFile flags := Allows.parseFlags openFlag_isFile _ ⟨rfl, rfl, rfl⟩ flags parsed
    obtain ⟨field, printed, fieldFree, reparsed⟩ := file_rereads file nameFree (some text) sigList
    refine ⟨flags, some text, field, rereadFile flags, rfl, printed, fieldFree, ?_, sameFile_reread flags⟩
    apply (succeeds_ctlCmdFdOpen nameFree fieldFree env rest _).mpr
    exact ⟨rereadFile flags, text, reparsed, opens, rfl⟩
  · intro out accepted
    obtain ⟨asked, flags, text, parsed, opens, rfl⟩ := (succeeds_ctlCmdFdSocket (c := c) nameFree optsFree env rest out).mp accepted
    have asks : IsSocket asked :=
      Allows.parseFlags socketFlag_isSocket _ ⟨rfl, rfl, rfl, fun none => absurd rfl none, by decide⟩ asked parsed
    have socket : IsSocket flags := by
      obtain ⟨_, _, _, _, given, _⟩ := opens
      rcases given with ⟨_, _, _, _, rfl⟩ | ⟨_, _, _, _, rfl⟩
      · exact ⟨asks.notPipe, asks.socket, asks.notSpecial, fun _ => rfl, asks.queue⟩
      · exact asks
    obtain ⟨field, printed, fieldFree, reparsed⟩ := socket_rereads socket nameFree (some text) sigList
    refine ⟨flags, some text, field, rereadSocket flags, rfl, printed, fieldFree, ?_, sameSocket_reread flags⟩
    apply (succeeds_ctlCmdFdSocket nameFree fieldFree env rest _).mpr
    exact ⟨rereadSocket flags, rereadSocket flags, text, reparsed, OpensSocket.reread opens, rfl⟩

/-- A command of a daemon that has no handles yet, with room for one. -/
def noHandles : Call (Fin 1) (Fin 1) := ⟨(System.init 2 (.empty none) [] 1 false : System 1 (Fin 1) (Fin 1)).server, none, []⟩

def handleRoom : CallEnv (Fin 1) (Fin 1) := { fdMem1 := some 0, newFd1 := some 9 }

/-- Contradictory options are accepted, and the report resolves them. -/
theorem flags_replay_seqpacket :
    (∃ out, Succeeds (ctlCmdFdSocket handleRoom) (withArgs noHandles (bytesOf "a") (bytesOf "udp,listen,unix,stream,seqpacket")
      (some (bytesOf "/x"))) fun _ c' => c'.out = out) ∧
    Replays (ctlCmdFdSocket handleRoom) SameSocket [] noHandles (bytesOf "a") (bytesOf "udp,listen,unix,stream,seqpacket")
      (some (bytesOf "/x")) := by
  constructor
  · obtain ⟨⟨result, c'⟩, run, accepted⟩ := (Option.any_eq_true _ _).mp
      (show ((ctlCmdFdSocket handleRoom).run.run (withArgs noHandles (bytesOf "a") (bytesOf "udp,listen,unix,stream,seqpacket")
        (some (bytesOf "/x")))).any (fun result => result.1.toOption.isSome) = true by decide +kernel)
    cases result with
    | error text => cases accepted
    | ok unit => exact ⟨c'.out, unit, c', run, rfl⟩
  · exact (flags_replay [] (by decide) (by decide) handleRoom noHandles _).2

end DaemonProxy.Soundness
