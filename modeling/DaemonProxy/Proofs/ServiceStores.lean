import DaemonProxy.Proofs.ServiceRefusals
import DaemonProxy.Proofs.VarStore

/-! # The variables of the services

As long as no value with a NUL is stored, the packed string of every service holds its variables and nothing else, and the
flags of the service are those of the handles that the variables list. Three commands store their arguments as they come;
`service.fds` stores names that it has checked.
-/

namespace DaemonProxy.Proofs

open Lib Model

/-! ## One service -/

/-- The packed string is a store, and the flags are those of the handles that it lists. -/
def TidyVars (packed : Bytes) (uses : ControlUses) : Prop :=
  ∃ vars, Stores vars packed ∧ uses = controlUses ((vars (bytesOf "fds")).getD Bytewise.nullFds)

theorem tidyVars_nil : TidyVars [] ⟨false, false, false⟩ := ⟨fun _ => none, stores_nil, rfl⟩

namespace TidyVars

variable {packed name : Bytes} {value : Option Bytes} {uses : ControlUses}

theorem terminated (tidy : TidyVars packed uses) : Terminated packed := by
  obtain ⟨vars, ⟨fields, -, rfl, -⟩, -⟩ := tidy
  exact terminated_pack _

/-- Another variable than that of the handles. -/
theorem set (tidy : TidyVars packed uses) (valid : VarName name) (other : name ≠ bytesOf "fds") (free : ∀ text ∈ value, 0 ∉ text) :
    TidyVars (packedSet packed name value) uses := by
  obtain ⟨vars, stores, flags⟩ := tidy
  refine ⟨_, stores.set valid free, ?_⟩
  rw [Function.update_of_ne (Ne.symm other), flags]

theorem setFds (tidy : TidyVars packed uses) (free : ∀ text ∈ value, 0 ∉ text) :
    TidyVars (packedSet packed (bytesOf "fds") value) (controlUses (value.getD Bytewise.nullFds)) := by
  obtain ⟨vars, stores, -⟩ := tidy
  refine ⟨_, stores.set varName_fds free, ?_⟩
  rw [Function.update_self]

end TidyVars

variable {command : StrSeg}

theorem listValue_free (free : 0 ∉ command.getD []) : ∀ text ∈ listValue command, 0 ∉ text := by
  intro text stored
  rw [listValue] at stored
  split at stored
  · exact nomatch stored
  · rwa [stored] at free

variable {name : Bytes}

/-- The rest of a line is part of the line. -/
theorem tokNext_free {rest : StrSeg} (next : strsegTokNext command tab = some (name, rest))
    (free : 0 ∉ command.getD []) : 0 ∉ rest.getD [] := by
  cases command with
  | none => exact nomatch next
  | some text =>
    replace next : splitAtSep tab text = (name, rest) := by simpa [strsegTokNext] using next
    by_cases member : tab ∈ text
    · obtain ⟨token, later, rfl, before⟩ := List.eq_append_cons_of_mem member
      cases (splitAtSep_token before).symm.trans next
      exact fun here => free (List.mem_append_right _ (List.mem_cons_of_mem _ here))
    · cases (splitAtSep_of_notMem member).symm.trans next
      exact List.not_mem_nil

theorem getArgInt_free (free : 0 ∉ command.getD []) : 0 ∉ (ctlGetArgInt command).1.getD [] := by
  rw [ctlGetArgInt]
  split
  · exact free
  next next =>
    split
    · exact tokNext_free next free
    · exact tokNext_free next free

theorem autoUpArgs_rest {rest triggers : StrSeg} {interval : Option ℤ} (args : autoUpArgs rest = some (interval, triggers)) :
    triggers = (ctlGetArgInt rest).1 := by
  rw [autoUpArgs] at args
  split at args
  next taken =>
    split at args
    · cases args
      rw [taken]
    · cases args
  next taken =>
    split at args
    · cases args
    · cases args
      rw [taken]

/-- A name that is accepted has no NUL, and so has a list of such names. -/
theorem free_of_names {spec : Bytes} (valid : ∀ name ∈ spec.splitOn tab, svcCheckName name = true) : 0 ∉ spec := by
  intro member
  obtain ⟨name, part, inside⟩ := exists_mem_splitOn member (show (0 : UInt8) ≠ tab by decide)
  have named := valid name part
  rw [svcCheckName, decide_eq_true_eq] at named
  exact absurd (List.all_eq_true.mp named.2 0 inside) (by decide)

variable {ι κ : Type} [DecidableEq ι] [DecidableEq κ] {s : Server ι κ} {c : Call ι κ} {x : ι} {α : Type}

/-! ## Commands -/

/-- The variables and the flags of all services. -/
def stored (s : Server ι κ) : (ι → Bytes) × (ι → ControlUses) := (s.vars, s.uses)

def Tidy (s : Server ι κ) : Prop := ∀ x, TidyVars (s.vars x) (s.uses x)

theorem Tidy.of_stored {s' : Server ι κ} (tidy : Tidy s) (same : stored s' = stored s) : Tidy s' := by
  obtain ⟨vars, uses⟩ := Prod.mk.inj same
  intro x
  rw [vars, uses]
  exact tidy x

theorem Tidy.update (tidy : Tidy s) {packed : Bytes} {uses : ControlUses} (new : TidyVars packed uses) :
    Tidy { s with vars := Function.update s.vars x packed, uses := Function.update s.uses x uses } := by
  intro y
  rcases eq_or_ne y x with rfl | other
  · simpa using new
  · simpa [Function.update_of_ne other] using tidy y

theorem Tidy.withVar (tidy : Tidy s) {value : Option Bytes}
    (new : TidyVars (packedSet (s.vars x) name value) (s.uses x)) : Tidy (withVar s x name value) := by
  have updated := tidy.update (x := x) new
  rwa [Function.update_eq_self] at updated

theorem freeOfLoop_stored : FreeOfLoop (stored : Server ι κ → _) := fun _ _ _ => rfl

theorem respects_tidy (c c' : Call ι κ) (same : stored c'.server = stored c.server) (tidy : Tidy c.server) : Tidy c'.server :=
  tidy.of_stored same

theorem Fixes.tidy {m : CmdM ι κ α} (fixes : Fixes stored m) : Maintains (fun c => Tidy c.server) m :=
  Fixes.respected respects_tidy fixes

section Service

-- whatever is known of a line and stays true of its rest
variable {known : StrSeg → Prop} (kept : ∀ command name rest, strsegTokNext command tab = some (name, rest) → known command → known rest)

include kept

theorem ctlGetArgService_rest (here : known command) (existing : Bool) (mem : Option ι) (loop : Supervisor ι) :
    Ensures (ctlGetArgService existing mem command) loop fun result _ => known result.1 := by
  rw [ctlGetArgService]
  split
  · exact ensures_pure here
  next name rest next =>
    have later : known rest := kept command name rest next here
    split
    · exact ensures_pure later
    split
    · exact ensures_pure later
    apply Ensures.get_bind
    refine Ensures.any_bind fun found loop => ?_
    cases found with
    | none => exact ensures_pure later
    | some x =>
      dsimp only
      split
      · exact Ensures.modify_bind (ensures_pure later)
      · exact ensures_pure later

variable (known) in
/-- A service that is new has nothing stored. -/
theorem getArgService_tidy (existing : Bool) (mem : Option ι) :
    Maintains (fun c : Call ι κ => Tidy c.server ∧ known c.command) (getArgService existing mem) := by
  rintro c ⟨tidy, here⟩
  apply Settles.get_bind
  apply Settles.get_bind
  have looked : Settles (onLoop (ctlGetArgService existing mem c.command)) c
      (fun result c' => stored c'.server = stored c.server ∧ c'.command = c.command ∧ known result.1)
      fun (_ : Bytes) (c' : Call ι κ) => Tidy c'.server ∧ known c'.command :=
    settles_onLoop ((ctlGetArgService_rest kept here existing mem _).mono fun _ _ later => ⟨rfl, rfl, later⟩)
  apply looked.bind
  rintro ⟨rest, result⟩ c₁ ⟨same, -, later⟩
  have tidy₁ : Tidy c₁.server := tidy.of_stored same
  apply Settles.modify_bind
  cases result with
  | error message => exact settles_throw _ ⟨tidy₁, later⟩
  | ok x =>
    dsimp only
    split
    · exact .modify_bind (settles_pure x ⟨tidy₁.update tidyVars_nil, later⟩)
    · exact settles_pure x ⟨tidy₁, later⟩

end Service

/-- The service of a command, where nothing is known of its line. -/
theorem getArgService_any (existing : Bool) (mem : Option ι) : Maintains (fun c : Call ι κ => Tidy c.server) (getArgService existing mem) := by
  intro c tidy
  have found := getArgService_tidy (fun _ => True) (fun _ _ _ _ _ => trivial) existing mem c ⟨tidy, trivial⟩
  exact found.mono (fun _ _ after => after.1) fun _ _ after => after.1

/-- The service of a command whose line has no NUL. -/
theorem getArgService_free (existing : Bool) (mem : Option ι) :
    Maintains (fun c : Call ι κ => Tidy c.server ∧ 0 ∉ c.command.getD []) (getArgService existing mem) :=
  getArgService_tidy (fun command => 0 ∉ command.getD []) (fun _ _ _ => tokNext_free) existing mem

/-- Both ends of a command keep the variables in order. -/
def KeepsTidy (m : CmdM ι κ α) (c : Call ι κ) : Prop := Settles m c (fun _ c' => Tidy c'.server) fun _ c' => Tidy c'.server

theorem Reads.keepsTidy {m : CmdM ι κ α} (reads : Reads m) (tidy : Tidy c.server) : KeepsTidy m c :=
  (Fixes.of_reads reads).tidy c tidy

theorem ctlCmdSvcVar_tidy (var : SvcVar) {name : String} (valid : VarName (bytesOf name)) (other : bytesOf name ≠ bytesOf "fds")
    (message : String) (env : CallEnv ι κ) (tidy : Tidy c.server) (free : 0 ∉ c.command.getD []) :
    KeepsTidy (ctlCmdSvcVar var name message env) c := by
  have found := (getArgService_free false env.svcMem c ⟨tidy, free⟩).mono (fun _ _ => id) fun _ _ after => after.1
  refine found.bind ?_
  rintro x c₁ ⟨tidy, free⟩
  apply Settles.get_bind
  apply (svcSetVar_sets ..).bind
  rintro done _ ⟨-, rfl⟩
  cases done with
  | true =>
    have announced : Reads (do tellAll (.svcVar var (← svcOf x).name (← svcGetVar x (bytesOf name) [])) : CmdM ι κ Unit) :=
      .bind (.svcOf x) fun _ => .bind (.svcGetVar ..) fun _ => .tellAll _
    exact announced.keepsTidy (tidy.withVar ((tidy x).set valid other (listValue_free free)))
  | false => exact settles_throw _ tidy

/-- The flags are computed from what is stored. -/
theorem svcSetFds_tidy {newFds : Bytes} (tidy : Tidy c.server) (free : 0 ∉ newFds) (stored : Bool) :
    KeepsTidy (svcSetFds x newFds stored) c := by
  have stores : Settles (storeFds x newFds stored) c
      (fun done c' => c' = if done then
        { c with server := withVar c.server x (bytesOf "fds") (if newFds = Bytewise.nullFds then none else some newFds) } else c)
      fun _ c' => Tidy c'.server := by
    rw [storeFds]
    simp only [strsegCmp_eq_zero]
    split
    case isTrue null =>
      -- There is always room for less.
      have room : hasRoom (c.server.vars x) (bytesOf "fds") none stored = true := by
        simp [hasRoom, length_packedSet_none (tidy x).terminated]
      apply (svcSetVar_sets ..).bind
      rintro done _ ⟨fits, rfl⟩
      rw [room] at fits
      rw [fits]
      exact settles_pure _ rfl
    case isFalse other => exact (svcSetVar_sets ..).mono (fun _ _ set => set.2) fun _ _ => id
  apply stores.bind
  rintro done _ rfl
  cases done with
  | false => exact settles_pure _ tidy
  | true =>
    refine .modify_bind (settles_pure _ ?_)
    have value : controlUses newFds =
        controlUses ((if newFds = Bytewise.nullFds then none else some newFds).getD Bytewise.nullFds) := by
      split
      case isTrue null => rw [null, Option.getD_none]
      case isFalse => rw [Option.getD_some]
    have noNul : ∀ text ∈ (if newFds = Bytewise.nullFds then none else some newFds), 0 ∉ text := by
      intro text member
      split at member
      · cases member
      · exact Option.some.inj member ▸ free
    dsimp only
    rw [value]
    exact tidy.update ((tidy x).setFds noNul)

theorem ctlCmdSvcFds_tidy (env : CallEnv ι κ) (tidy : Tidy c.server) : KeepsTidy (ctlCmdSvcFds env) c := by
  apply Settles.bind (getArgService_any false env.svcMem c tidy)
  intro x c₁ tidy
  apply Settles.get_bind
  dsimp only
  have checked := (checkFdNames_settles (Bytewise.strsegTokens tab ((c₁.command.getD []).length + 2) c₁.command) c₁).mono
    (fun _ _ => id) fun _ c' refused => show Tidy c'.server from refused.1 ▸ tidy
  apply checked.bind
  rintro _ c₂ ⟨same, valid⟩
  have free : 0 ∉ c₁.command.getD [] := by
    cases spec : c₁.command with
    | none => exact List.not_mem_nil
    | some text =>
      rw [spec, Option.getD_some, strsegTokens_eq (by omega)] at valid
      exact free_of_names valid
  have announced : Reads (do tellAll (.svcVar .fds (← svcOf x).name (← svcGetVar x (bytesOf "fds") Bytewise.nullFds)) : CmdM ι κ Unit) :=
    .bind (.svcOf x) fun _ => .bind (.svcGetVar ..) fun _ => .tellAll _
  rw [← same] at tidy
  apply Settles.bind (svcSetFds_tidy tidy free env.stored)
  intro done c₃ tidy
  cases done with
  | true => exact announced.keepsTidy tidy
  | false => exact settles_throw _ tidy

variable {sigList : List SigListItem}

theorem setTriggers_tidy {triggers : Bytes} (tidy : Tidy c.server) (free : 0 ∉ triggers) (stored : Bool) :
    KeepsTidy (setTriggers sigList x triggers stored) c := by
  apply Settles.get_bind
  have looped := (Fixes.onLoop freeOfLoop_stored (svcSetTriggers sigList x triggers
    (hasRoom (c.server.vars x) (bytesOf "triggers") (listValue (some triggers)) stored))).maintains (Proofs.stored c.server) c rfl
  apply Settles.bind (looped.mono (fun _ _ => id) fun _ c' same => tidy.of_stored same)
  intro done c₁ same
  have tidy₁ : Tidy c₁.server := tidy.of_stored same
  cases done with
  | false => exact settles_pure _ tidy₁
  | true =>
    refine .modify_bind (settles_pure _ ?_)
    have vars : c.server.vars = c₁.server.vars := (congrArg Prod.fst same).symm
    simp only [vars]
    exact tidy₁.withVar ((tidy₁ x).set varName_triggers (by decide) (listValue_free free))

theorem ctlCmdSvcAutoUp_tidy (sigList : List SigListItem) (env : CallEnv ι κ) (tidy : Tidy c.server) (free : 0 ∉ c.command.getD []) :
    KeepsTidy (Commands.ctlCmdSvcAutoUp sigList env) c := by
  have found := (getArgService_free false env.svcMem c ⟨tidy, free⟩).mono (fun _ _ => id) fun _ _ after => after.1
  refine found.bind ?_
  rintro x c₁ ⟨tidy, free⟩
  have timed : Settles (takeInterval x) c₁ (fun _ c' => Tidy c'.server ∧ 0 ∉ c'.command.getD []) fun _ c' => Tidy c'.server := by
    have interval := ((Fixes.takeInterval freeOfLoop_stored x).tidy c₁ tidy).and (takeInterval_run x)
    refine interval.mono ?_ fun _ _ after => after.1
    rintro _ c' ⟨tidy, interval, args, -, -⟩
    rw [autoUpArgs_rest args]
    exact ⟨tidy, getArgInt_free free⟩
  apply timed.bind
  rintro _ c₂ ⟨tidy, free⟩
  have announced : Reads (do
      let svc ← svcOf x
      tellAll (.svcAutoUp svc.name svc.restartInterval (← svcGetVar x (bytesOf "triggers") [])) : CmdM ι κ Unit) :=
    .bind (.svcOf x) fun _ => .bind (.svcGetVar ..) fun _ => .tellAll _
  apply Settles.get_bind
  apply Settles.bind (setTriggers_tidy tidy free env.stored)
  intro done c₃ tidy
  cases done with
  | true => exact announced.keepsTidy tidy
  | false => exact settles_throw _ tidy

/-! ### What they store -/

/-- The variables of a service before a command; a service that the command makes has none. -/
def varsBefore (s : Server ι κ) (x : ι) : Bytes := if x ∈ s.loop.daemon.svcList then s.vars x else []

/-- The variables after one of a service was set. -/
structure VarSet (name : Bytes) (value : Option Bytes) (x : ι) (s s' : Server ι κ) : Prop where
  member : x ∈ s'.loop.daemon.svcList
  here : s'.vars x = packedSet (varsBefore s x) name value
  there : ∀ y ∈ s'.loop.daemon.svcList, y ≠ x → s'.vars y = varsBefore s y

/-- The service of a command is there, with the variables that it had before. -/
theorem GotService.varsBefore {v v' : View ι} {existing : Bool} {mem : Option ι} {c' : Call ι κ} (shows : Shows c.server.loop.daemon v)
    (unique : Named v) (got : GotService c v existing mem x c' v') :
    x ∈ c'.server.loop.daemon.svcList ∧ (∀ y ∈ c'.server.loop.daemon.svcList, c'.server.vars y = varsBefore c.server y) ∧
      ∃ token, strsegTokNext c.command tab = some (token, c'.command) ∧ token ≠ [] ∧
        (c'.server.loop.daemon.objects x).name = token := by
  cases got with
  | @found token rest _ names member named =>
    have nonempty : token ≠ [] := named ▸ (unique.valid x member).1
    rw [← shows.svcList] at member
    rw [← shows.objects] at named
    exact ⟨member, fun y old => (if_pos old).symm, token, names, nonempty, named⟩
  | @created token rest _ daemon names nonempty valid unknown allowed memory absent created =>
    rw [← shows.svcList] at absent
    refine ⟨?_, fun y member => ?_, token, names, nonempty, ?_⟩
    · rw [created.svcList]
      exact View.mem_create.mpr (.inr rfl)
    · rw [created.svcList] at member
      rcases eq_or_ne y x with rfl | other
      · rw [Proofs.varsBefore, if_neg absent]
        exact Function.update_self ..
      · have old : y ∈ c.server.loop.daemon.svcList := by
          rw [shows.svcList]
          exact (View.mem_create.mp member).resolve_right other
        rw [Proofs.varsBefore, if_pos old]
        exact Function.update_of_ne other ..
    · rw [created.objects, View.create_objects, if_pos rfl]

/-- What `service.tags` and `service.args` do when they are accepted. -/
theorem ctlCmdSvcVar_sets {v : View ι} (shows : Shows c.server.loop.daemon v) (orderly : Orderly v) (unique : Named v) (var : SvcVar) (name message : String)
    (env : CallEnv ι κ) :
    Settles (ctlCmdSvcVar var name message env) c
      (fun _ c' => ∃ token rest x value, strsegTokNext c.command tab = some (token, rest) ∧ token ≠ [] ∧
        (c'.server.loop.daemon.objects x).name = token ∧ VarSet (bytesOf name) (listValue rest) x c.server c'.server ∧
        packedGet (c'.server.vars x) (bytesOf name) = some value ∧ c'.out = c.out ++ [(true, .svcVar var token (value.getD []))])
      fun _ _ => True := by
  apply ((getArgService_settles shows orderly false env.svcMem).mono (fun _ _ => id) fun _ _ _ => trivial).bind
  rintro x c₁ ⟨v', got⟩
  obtain ⟨member, vars, token, names, nonempty, named⟩ := got.varsBefore shows unique
  have quiet : c₁.out = c.out := by cases got <;> rfl
  apply Settles.get_bind
  apply (svcSetVar_sets ..).bind
  rintro done _ ⟨-, rfl⟩
  cases done with
  | false => exact settles_throw _ trivial
  | true =>
    have set : VarSet (bytesOf name) (listValue c₁.command) x c.server (withVar c₁.server x (bytesOf name) (listValue c₁.command)) := by
      refine ⟨member, ?_, fun y inList other => ?_⟩
      · rw [← vars x member]
        exact Function.update_self ..
      · rw [← vars y inList]
        exact Function.update_of_ne other ..
    apply Settles.get_bind
    have read : Settles (svcGetVar x (bytesOf name) []) { c₁ with server := withVar c₁.server x (bytesOf name) (listValue c₁.command) }
        (fun text c' => c' = { c₁ with server := withVar c₁.server x (bytesOf name) (listValue c₁.command) } ∧
          ∃ value, packedGet (c'.server.vars x) (bytesOf name) = some value ∧ text = value.getD []) fun _ _ => True := by
      apply Settles.get_bind
      split
      next value found => exact settles_pure _ ⟨rfl, value, found, rfl⟩
      · exact settles_lift ensures_failure
    apply read.bind
    rintro _ _ ⟨rfl, value, found, rfl⟩
    refine settles_modify ⟨token, c₁.command, x, value, names, nonempty, named, set, found, ?_⟩
    rw [← named, ← quiet]
    rfl

/-! ### All commands -/

/-- The commands that store what their line says. -/
def storesLine : List ServerCommand := [.svcTags, .svcArgs, .svcAutoUp]

theorem serverHandler_tidy (tidy : Tidy c.server) (sigList : List SigListItem) (passed : Option ℤ) (env : CallEnv ι κ)
    (command : ServerCommand) (free : command ∈ storesLine → 0 ∉ c.command.getD []) :
    KeepsTidy (serverHandler sigList passed env command) c := by
  have loop : FreeOfLoop (stored : Server ι κ → _) := freeOfLoop_stored
  have handles : FreeOfHandles (stored : Server ι κ → _) := fun _ _ _ _ _ => rfl
  have sockets : FreeOfSockets (stored : Server ι κ → _) := handles.sockets
  have found : Maintains (fun c : Call ι κ => Tidy c.server) (getArgService true none) := getArgService_any true none
  cases command with
  | svcTags => exact ctlCmdSvcVar_tidy .tags varName_tags (by decide) _ env tidy (free (by decide))
  | svcArgs => exact ctlCmdSvcVar_tidy .args varName_args (by decide) _ env tidy (free (by decide))
  | svcFds => exact ctlCmdSvcFds_tidy env tidy
  | svcAutoUp => exact ctlCmdSvcAutoUp_tidy sigList env tidy (free (by decide))
  | svcStart => exact Fixes.ctlCmdSvcStart_of loop respects_tidy found env c tidy
  | svcSignal => exact Fixes.ctlCmdSvcSignal_of loop respects_tidy found sigList env c tidy
  | svcDelete => exact Fixes.ctlCmdSvcDelete_of loop respects_tidy found env c tidy
  | socketCreate => exact (Fixes.ctlCmdSocketCreate sockets env).tidy c tidy
  | socketDelete => exact (Fixes.ctlCmdSocketDelete sockets env).tidy c tidy
  | fdPipe => exact (Fixes.ctlCmdFdPipe handles env).tidy c tidy
  | fdOpen => exact (Fixes.ctlCmdFdOpen handles env).tidy c tidy
  | fdSocket => exact (Fixes.ctlCmdFdSocket handles env).tidy c tidy
  | fdDelete => exact (Fixes.ctlCmdFdDelete handles env).tidy c tidy
  | fdTake =>
    cases passed with
    | none => exact settles_throw _ tidy
    | some fd => exact (Fixes.ctlCmdFdTake handles fd env).tidy c tidy
  | chdir => exact (Fixes.ctlCmdChdir env).tidy c tidy
  | logFilter => exact (Fixes.ctlCmdLogFilter sockets env).tidy c tidy
  | logDest => exact (Fixes.ctlCmdLogDest sockets env).tidy c tidy
  | signalClear => exact (Fixes.ctlCmdSignalClear loop sigList env).tidy c tidy
  | terminateExecArgs => exact (Fixes.ctlCmdTerminateExecArgs (fun _ _ _ => rfl) env).tidy c tidy
  | terminateGuard => exact (Fixes.ctlCmdTerminateGuard (fun _ _ _ => rfl) env).tidy c tidy
  | terminate => exact (Fixes.ctlCmdTerminate (fun _ _ _ _ => rfl) env).tidy c tidy

/-! ## Runs -/

/-- A line that stores no NUL. -/
def NoNulStored (line : Bytes × StrSeg) : Prop :=
  line.1 ∈ [bytesOf "service.tags", bytesOf "service.args", bytesOf "service.auto_up"] → 0 ∉ line.2.getD []

instance : DecidablePred NoNulStored := fun _ => inferInstanceAs (Decidable (_ → _))

theorem NoNulStored.free {args : StrSeg} (line : NoNulStored (name, args)) {command : ServerCommand}
    (found : findServerCommand name = some command) (stores : command ∈ storesLine) : 0 ∉ args.getD [] := by
  have table : ∀ entry ∈ serverCommandTable, entry.2 ∈ storesLine →
      entry.1 ∈ [bytesOf "service.tags", bytesOf "service.args", bytesOf "service.auto_up"] := by decide
  exact line (table _ (findServerCommand_mem found) stores)

theorem ServerAct.tidy {s' : Server ι κ} (tidy : Tidy s) (act : ServerAct sigList NoNulStored s s') : Tidy s' := by
  cases act with
  | call phase known called =>
    exact serverCall_keeps tidy (fun command found => serverHandler_tidy tidy sigList _ _ command (known.free found)) called
  | register k fdnum flags mem run =>
    obtain ⟨fds, openFds, rfl⟩ := registerFd_handles k fdnum flags mem s _ _ run
    exact tidy
  | step | next | report | log | exit => exact tidy

/-- The variables are in order in every state that is reached without a NUL being stored. -/
theorem tidy_of_run {n : ℕ} {standard : ℕ} {fds : FdTable κ} {openFds : List ℤ} {guard : ℤ} {execOnExit : Bool}
    {events : List (System.Event n ι κ)} {s : System n ι κ}
    (along : Along? (System.step sigList) (LineMeets NoNulStored) (System.init standard fds openFds guard execOnExit) events)
    (run : exec? (System.step sigList) (System.init standard fds openFds guard execOnExit) events = some s) : Tidy s.server :=
  server_reached_along (fun _ => tidyVars_nil) (fun _ _ => ServerAct.tidy) along run

end DaemonProxy.Proofs
