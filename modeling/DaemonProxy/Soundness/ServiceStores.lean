import DaemonProxy.Proofs.ServiceStart
import DaemonProxy.Proofs.ServiceStores
import DaemonProxy.Soundness.Refusals

/-! # The variables of the services

A command that sets one variable leaves the others alone, and the flags of a service say which handles of a controller it
lists, as long as no value with a NUL is stored. A NUL ends an entry of the packed string, so that what follows it in the value
is an entry of its own.
-/

namespace DaemonProxy.Soundness

open Lib Model Proofs

variable {n : ℕ} {ι κ : Type} [DecidableEq ι] [DecidableEq κ]

/-! ## Commands that set one variable -/

inductive AttrCommand
  | tags | args
  deriving DecidableEq, Repr

namespace AttrCommand

def name : AttrCommand → Bytes
  | .tags => bytesOf "service.tags"
  | .args => bytesOf "service.args"

/-- What the command sets. -/
def getter : AttrCommand → Bytes → Option Bytes
  | .tags => svcGetTags
  | .args => svcGetArgv

/-- What the command does not set. -/
def others : AttrCommand → List (Bytes → Option Bytes)
  | .tags => [svcGetArgv, svcGetFds, svcGetTriggers]
  | .args => [svcGetTags, svcGetFds, svcGetTriggers]

def varName : AttrCommand → Bytes
  | .tags => bytesOf "tags"
  | .args => bytesOf "args"

end AttrCommand

/-- The command sets what it is about, of its service, and nothing else. -/
structure SetsOnly (command : AttrCommand) (x : ι) (value : Bytes) (s s' : Server ι κ) : Prop where
  value : command.getter (s'.vars x) = some value
  others : ∀ y ∈ s'.loop.daemon.svcList, ∀ getter ∈ command.others, getter (s'.vars y) = getter (varsBefore s y)
  services : ∀ y ∈ s'.loop.daemon.svcList, y ≠ x → command.getter (s'.vars y) = command.getter (varsBefore s y)

namespace AttrCommand

/-- All that a getter depends on is the value of its variable. -/
theorem getter_of_stores (command : AttrCommand) {vars : Bytes → Option Bytes} {packed : Bytes} (stores : Stores vars packed) :
    command.getter packed = some ((vars command.varName).getD []) := by
  cases command with
  | tags | args => exact congrArg (Option.map _) (stores.get _)

theorem others_of_stores (command : AttrCommand) {vars : Bytes → Option Bytes} {packed packed' : Bytes} {value : Option Bytes}
    (stores : Stores vars packed) (stores' : Stores (Function.update vars command.varName value) packed') :
    ∀ getter ∈ command.others, getter packed' = getter packed := by
  have kept : ∀ name, name ≠ command.varName → packedGet packed' name = packedGet packed name := by
    intro name other
    rw [stores.get, stores'.get, Function.update_of_ne other]
  intro getter member
  cases command with
  | tags =>
    simp only [others, List.mem_cons, List.not_mem_nil, or_false] at member
    rcases member with rfl | rfl | rfl
    all_goals exact congrArg (Option.map _) (kept _ (by decide))
  | args =>
    simp only [others, List.mem_cons, List.not_mem_nil, or_false] at member
    rcases member with rfl | rfl | rfl
    all_goals exact congrArg (Option.map _) (kept _ (by decide))

theorem valid_varName (command : AttrCommand) : VarName command.varName := by
  cases command with
  | tags => exact varName_tags
  | args => exact varName_args

end AttrCommand

theorem getD_listValue (rest : StrSeg) : (listValue rest).getD [] = rest.getD [] := by
  rw [listValue]
  split
  · next none => rw [none, Option.getD_none]
  · rfl

/-- A value that is read back as it was stored has no NUL, since a getter returns none. -/
theorem free_of_getter {command : AttrCommand} {packed : Bytes} {rest : StrSeg}
    (value : command.getter (packedSet packed command.varName (listValue rest)) = some (rest.getD [])) : 0 ∉ rest.getD [] := by
  by_cases empty : rest.getD [] = []
  · rw [empty]
    exact List.not_mem_nil
  · have stored : listValue rest = some (rest.getD []) := by
      rw [listValue, if_neg empty]
      cases rest with
      | none => exact absurd rfl empty
      | some text => rfl
    rw [stored] at value
    have read : command.getter (packedSet packed command.varName (some (rest.getD []))) = some (cString (rest.getD [])) := by
      cases command with
      | tags => exact congrArg (Option.map _) (packedGet_packedSet_some varName_tags _ _)
      | args => exact congrArg (Option.map _) (packedGet_packedSet_some varName_args _ _)
    exact cString_eq_self_iff.mp (Option.some.inj (read.symm.trans value))

/-- For variables that are in order. -/
theorem setsOnly_iff {command : AttrCommand} {x : ι} {rest : StrSeg} {s s' : Server ι κ} (tidy : Tidy s)
    (set : VarSet command.varName (listValue rest) x s s') : SetsOnly command x (rest.getD []) s s' ↔ 0 ∉ rest.getD [] := by
  constructor
  · intro only
    have value := only.value
    rw [set.here] at value
    exact free_of_getter value
  · intro free
    have stores : ∃ vars, Stores vars (varsBefore s x) := by
      rw [varsBefore]
      split
      · obtain ⟨vars, stores, -⟩ := tidy x
        exact ⟨vars, stores⟩
      · exact ⟨_, stores_nil⟩
    obtain ⟨vars, stores⟩ := stores
    have stores' := stores.set command.valid_varName (listValue_free free)
    rw [← set.here] at stores'
    refine ⟨?_, fun y member getter other => ?_, fun y member other => by rw [set.there y member other]⟩
    · rw [command.getter_of_stores stores', Function.update_self, getD_listValue]
    · rcases eq_or_ne y x with rfl | apart
      · exact command.others_of_stores stores stores' getter other
      · rw [set.there y member apart]

/-- In any state that is reached without a NUL being stored, and for any arguments that are accepted: the command sets the
variable of its service that it is about and nothing else, exactly if there is no NUL in the value. -/
theorem attribute_command_iff {sigList : List SigListItem} {standard : ℕ} {fds : FdTable κ} {openFds : List ℤ} {guard : ℤ}
    {execOnExit : Bool} {events : List (System.Event n ι κ)} {s : System n ι κ}
    (along : Along? (System.step sigList) (LineMeets NoNulStored) (System.init standard fds openFds guard execOnExit) events)
    (run : exec? (System.step sigList) (System.init standard fds openFds guard execOnExit) events = some s)
    (command : AttrCommand) {env : CallEnv ι κ} {passed : Option ℤ} {args : StrSeg} {input : CallInput} {server' : Server ι κ}
    (called : (System.serverCall sigList env passed command.name args).run s.awakeServer = some (input, server'))
    (accepted : input.error = none) :
    ∃ token rest x, strsegTokNext args tab = some (token, rest) ∧ x ∈ server'.loop.daemon.svcList ∧
      (server'.loop.daemon.objects x).name = token ∧
      (SetsOnly command x (rest.getD []) s.server server' ↔ 0 ∉ rest.getD []) := by
  obtain ⟨v, shows, orderly, unique⟩ := known_of_run run
  have tidy : Tidy s.server := tidy_of_run along run
  have settles : ∃ handler, findServerCommand command.name = some handler ∧
      Settles (serverHandler sigList passed env handler) ⟨s.awakeServer, args, []⟩
        (fun _ c' => ∃ token rest x, strsegTokNext args tab = some (token, rest) ∧ (c'.server.loop.daemon.objects x).name = token ∧
          VarSet command.varName (listValue rest) x s.awakeServer c'.server) fun _ _ => True := by
    have sets := ctlCmdSvcVar_sets (c := ⟨s.awakeServer, args, []⟩) shows orderly unique
    cases command with
    | tags =>
      refine ⟨.svcTags, rfl, (sets .tags "tags" _ env).mono ?_ fun _ _ => id⟩
      exact fun _ _ ⟨token, rest, x, _, names, _, named, set, _⟩ => ⟨token, rest, x, names, named, set⟩
    | args =>
      refine ⟨.svcArgs, rfl, (sets .args "args" _ env).mono ?_ fun _ _ => id⟩
      exact fun _ _ ⟨token, rest, x, _, names, _, named, set, _⟩ => ⟨token, rest, x, names, named, set⟩
  obtain ⟨handler, found, settles⟩ := settles
  obtain ⟨c, rfl, -, ⟨-, token, rest, x, names, named, set⟩ | ⟨text, refused, -⟩⟩ := serverCall_settles found called settles
  · exact ⟨token, rest, x, names, set.member, named, setsOnly_iff (s := s.server) tidy { set with }⟩
  · exact nomatch accepted.symm.trans refused

/-- The arguments of a service that has tags. -/
theorem attribute_command_args :
    ∃ s input server', exec? (System.step []) processOne (madeRun "service.tags\ta\tb") = some s ∧
      (System.serverCall [] {} none (bytesOf "service.args") (some (bytesOf "a\ttrue\t-x"))).run s.awakeServer = some (input, server') ∧
      input.error = none ∧ SetsOnly .args 0 (bytesOf "true\t-x") s.server server' := by
  have along : Along? (System.step []) (LineMeets NoNulStored) processOne (madeRun "service.tags\ta\tb") := by decide +kernel
  obtain ⟨s, run, holds⟩ := (Option.any_eq_true _ _).mp
    (show (exec? (System.step []) processOne (madeRun "service.tags\ta\tb")).any (fun s =>
      ((System.serverCall [] {} none (bytesOf "service.args") (some (bytesOf "a\ttrue\t-x"))).run s.awakeServer).any
        (fun result => result.1.error.isNone)) = true by decide +kernel)
  obtain ⟨⟨input, server'⟩, called, accepted⟩ := (Option.any_eq_true _ _).mp holds
  replace accepted : input.error = none := Option.isNone_iff_eq_none.mp accepted
  obtain ⟨token, rest, x, names, -, -, only⟩ := attribute_command_iff along run .args called accepted
  cases names
  refine ⟨s, input, server', run, called, accepted, ?_⟩
  rw [Subsingleton.elim 0 x]
  exact only.mpr (by decide)

/-- `service.tags` with a NUL in its value, for a service that is there, gives it handles. -/
theorem tags_set_fds :
    ∃ s input server', exec? (System.step []) processOne (madeRun "service.args\ta\ttrue") = some s ∧
      s.server.loop.daemon.svcList = [0] ∧
      (System.serverCall [] {} none (bytesOf "service.tags") (some (bytesOf "a\tx\x00fds=control.cmd"))).run s.awakeServer =
        some (input, server') ∧
      input.error = none ∧ svcGetTags (server'.vars 0) = some (bytesOf "x") ∧
      svcGetFds (s.server.vars 0) = some (bytesOf "null\tnull\tnull") ∧ svcGetFds (server'.vars 0) = some (bytesOf "control.cmd") := by
  obtain ⟨s, run, holds⟩ := (Option.any_eq_true _ _).mp
    (show (exec? (System.step []) processOne (madeRun "service.args\ta\ttrue")).any (fun s =>
      s.server.loop.daemon.svcList = [0] ∧ svcGetFds (s.server.vars 0) = some (bytesOf "null\tnull\tnull") ∧
      ((System.serverCall [] {} none (bytesOf "service.tags") (some (bytesOf "a\tx\x00fds=control.cmd"))).run s.awakeServer).any
        (fun result => result.1.error.isNone && svcGetTags (result.2.vars 0) = some (bytesOf "x") &&
          svcGetFds (result.2.vars 0) = some (bytesOf "control.cmd")) = true) = true by decide +kernel)
  obtain ⟨svcList, before, called⟩ := of_decide_eq_true holds
  obtain ⟨⟨input, server'⟩, called, after⟩ := (Option.any_eq_true _ _).mp called
  simp only [Bool.and_eq_true, decide_eq_true_eq, Option.isNone_iff_eq_none] at after
  exact ⟨s, input, server', run, svcList, called, after.1.1, after.1.2, before, after.2⟩

/-! ## Flags -/

/-- `svc_do_fork` makes a controller, where it finds one and all that it calls succeeds. -/
def MakesController (uses : ControlUses) : Prop :=
  ∀ {n : ℕ} {w w' : World n}, (svcDoForkControl uses true true true).run w = some (true, w') →
    ∃ i, (w.client i).stateFn = none ∧ (w'.client i).stateFn = some .nextCommand

/-- The handles that lead to the controller of a service. -/
def controlNames : List Bytes := [bytesOf "control.socket", bytesOf "control.event", bytesOf "control.cmd"]

/-- The flags of a service are those of its list of handles. -/
structure FlagsMatch (text : Bytes) (uses : ControlUses) : Prop where
  event : uses.event = true ↔ bytesOf "control.event" ∈ text.splitOn tab
  cmd : uses.cmd = true ↔ bytesOf "control.cmd" ∈ text.splitOn tab
  socket : uses.socket = true ↔ bytesOf "control.socket" ∈ text.splitOn tab
  controller : MakesController uses ↔ ∃ name ∈ fdNames text, name ∈ controlNames

theorem svcDoForkFail_fails (ctl : Option (Fin n)) (sockets : Option (ℕ × ℕ)) (w : World n) :
    Ensures (svcDoForkFail ctl sockets) w fun started _ => started = false := by
  cases ctl with
  | some i =>
    refine Ensures.any_bind fun _ _ => Ensures.any_bind fun _ _ => ?_
    cases sockets with
    | some pair => exact Ensures.any_bind fun _ _ => ensures_pure rfl
    | none => exact ensures_pure rfl
  | none =>
    cases sockets with
    | some pair => exact Ensures.any_bind fun _ _ => Ensures.any_bind fun _ _ => ensures_pure rfl
    | none => exact ensures_pure rfl

theorem makesController_iff (uses : ControlUses) : MakesController uses ↔ (uses.socket || uses.event || uses.cmd) = true := by
  constructor
  · intro makes
    by_contra unused
    have run : (svcDoForkControl uses true true true).run (World.init 0 0) = some (true, World.init 0 0) := by
      rw [svcDoForkControl, if_neg unused]
      rfl
    obtain ⟨i, -⟩ := makes run
    exact i.elim0
  · intro used n w w' run
    have made : Ensures (svcDoForkControl uses true true true) w fun started w' =>
        started = true → ∃ i, (w.client i).stateFn = none ∧ (w'.client i).stateFn = some .nextCommand := by
      rw [svcDoForkControl, if_pos used]
      refine (ctlAlloc_spec w).ensures.bind fun found w₁ result => ?_
      cases found with
      | none => exact ensures_failure
      | some i =>
        obtain ⟨free, rfl⟩ := result
        obtain ⟨fresh, -⟩ := allocated_fresh w i
        set w₁ : World n := (w.setClient i { stateFn := some .free }).setLog i {}
        simp only [if_true]
        refine Ensures.get_bind (Ensures.modify_bind (Ensures.get_bind (Ensures.modify_bind ?_)))
        refine (ctlCtor_spec (i := i) (w := (w₁.openFd .other).openFd .other) _ _ true true fresh).ensures.bind
          fun made w₂ built => ?_
        cases made with
        | true =>
          obtain ⟨isSocket, client, -⟩ := built
          refine Ensures.modify_bind (ensures_pure fun _ => ⟨i, free, ?_⟩)
          rw [World.setHolder, client, setClient_client]
          rfl
        | false =>
          rw [if_neg Bool.false_ne_true]
          refine (svcDoForkFail_fails _ _ w₂).mono fun started _ failed => ?_
          rw [failed]
          rintro ⟨⟩
    exact made _ _ run rfl

theorem flagsMatch_controlUses (text : Bytes) : FlagsMatch text (controlUses text) := by
  have names : Bytewise.strsegTokens tab (text.length + 2) (some text) = text.splitOn tab := strsegTokens_eq (by omega)
  have event : (controlUses text).event = true ↔ bytesOf "control.event" ∈ text.splitOn tab := by simp [controlUses, names]
  have cmd : (controlUses text).cmd = true ↔ bytesOf "control.cmd" ∈ text.splitOn tab := by simp [controlUses, names]
  have socket : (controlUses text).socket = true ↔ bytesOf "control.socket" ∈ text.splitOn tab := by simp [controlUses, names]
  refine ⟨event, cmd, socket, ?_⟩
  rw [makesController_iff, fdNames, names]
  simp only [Bool.or_eq_true, event, cmd, socket, controlNames, List.mem_cons, List.not_mem_nil, or_false]
  constructor
  · rintro ((listed | listed) | listed)
    · exact ⟨_, listed, .inl rfl⟩
    · exact ⟨_, listed, .inr (.inl rfl)⟩
    · exact ⟨_, listed, .inr (.inr rfl)⟩
  · rintro ⟨name, listed, rfl | rfl | rfl⟩
    · exact .inl (.inl listed)
    · exact .inl (.inr listed)
    · exact .inr listed

/-- In every state that is reached without a NUL being stored, the flags of every service are those of the handles that it
lists. -/
theorem control_flags_match {sigList : List SigListItem} {standard : ℕ} {fds : FdTable κ} {openFds : List ℤ} {guard : ℤ}
    {execOnExit : Bool} {events : List (System.Event n ι κ)} {s : System n ι κ}
    (along : Along? (System.step sigList) (LineMeets NoNulStored) (System.init standard fds openFds guard execOnExit) events)
    (run : exec? (System.step sigList) (System.init standard fds openFds guard execOnExit) events = some s) :
    ∀ x ∈ s.server.loop.daemon.svcList, ∃ text, svcGetFds (s.server.vars x) = some text ∧ FlagsMatch text (s.server.uses x) := by
  intro x _
  obtain ⟨vars, stores, flags⟩ := tidy_of_run along run x
  refine ⟨(vars (bytesOf "fds")).getD Bytewise.nullFds, ?_, ?_⟩
  · rw [svcGetFds, stores.get, Option.map_some]
  · rw [flags]
    exact flagsMatch_controlUses _

/-- A line that is executed with memory for a service, and one that is executed afterwards. -/
def madeThenRun (first second : String) : List (System.Event 1 (Fin 1) (Fin 1)) :=
  linesRun [first, second] 1 ++ List.replicate 3 (.call (Fin.last 0) svcRoom false fun _ => []) ++
    [.call (Fin.last 0) {} false fun _ => []]

/-- A service that talks to its controller by one handle. -/
theorem control_flags_cmd :
    ∃ s text, exec? (System.step []) processOne (madeRun "service.fds\ta\tnull\tcontrol.cmd") = some s ∧
      s.server.loop.daemon.svcList = [0] ∧ svcGetFds (s.server.vars 0) = some text ∧ text = bytesOf "null\tcontrol.cmd" ∧
      FlagsMatch text (s.server.uses 0) := by
  have along : Along? (System.step []) (LineMeets NoNulStored) processOne (madeRun "service.fds\ta\tnull\tcontrol.cmd") := by
    decide +kernel
  obtain ⟨s, run, holds⟩ := (Option.any_eq_true _ _).mp
    (show (exec? (System.step []) processOne (madeRun "service.fds\ta\tnull\tcontrol.cmd")).any (fun s =>
      s.server.loop.daemon.svcList = [0] ∧ svcGetFds (s.server.vars 0) = some (bytesOf "null\tcontrol.cmd")) = true by decide +kernel)
  obtain ⟨svcList, fds⟩ := of_decide_eq_true holds
  obtain ⟨text, value, match_⟩ := control_flags_match along run 0 (svcList ▸ List.mem_singleton_self 0)
  exact ⟨s, text, run, svcList, value, Option.some.inj (value.symm.trans fds), match_⟩

/-- Handles that came with the tags of a service are given to its program, but no controller is made for them. -/
theorem forged_fds_without_flag :
    ∃ s, exec? (System.step []) processOne (madeThenRun "service.args\ta\ttrue" "service.tags\ta\tx\x00fds=control.cmd") = some s ∧
      s.server.loop.daemon.svcList = [0] ∧ svcGetFds (s.server.vars 0) = some (bytesOf "control.cmd") ∧
      (s.server.uses 0).cmd = false := by
  obtain ⟨s, run, holds⟩ := (Option.any_eq_true _ _).mp
    (show (exec? (System.step []) processOne (madeThenRun "service.args\ta\ttrue" "service.tags\ta\tx\x00fds=control.cmd")).any (fun s =>
      s.server.loop.daemon.svcList = [0] ∧ svcGetFds (s.server.vars 0) = some (bytesOf "control.cmd") ∧
        (s.server.uses 0).cmd = false) = true by decide +kernel)
  exact ⟨s, run, of_decide_eq_true holds⟩

end DaemonProxy.Soundness
