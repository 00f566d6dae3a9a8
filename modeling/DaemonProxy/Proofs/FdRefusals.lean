import DaemonProxy.Proofs.FdSound
import DaemonProxy.Proofs.SystemServer

/-! # Commands about handles

Every command keeps the table of handles sound. A command that is refused closes the descriptors it has opened and leaves the
table as it was, but for `fd.pipe`, which does not close a pair that it cannot make non-blocking.
-/

set_option linter.unusedSectionVars false

namespace DaemonProxy.Proofs

open Lib Model

variable {ι κ : Type} [DecidableEq ι] [DecidableEq κ] {c : Call ι κ} {α : Type} {name : Bytes}

/-- The open descriptors and the handles are the same. -/
structure SameHandles (s s' : Server ι κ) : Prop where
  openFds : s'.openFds = s.openFds
  table : SameTable s.fds s'.fds

theorem SameHandles.refl (s : Server ι κ) : SameHandles s s := ⟨rfl, .refl _⟩

/-- The table after a function on it; the descriptors that were closed are not open any more. -/
def withFds (c : Call ι κ) (fds : FdTable κ) : Call ι κ :=
  { c with server := Server.noteClosed (fds.closed.drop c.server.fds.closed.length) { c.server with fds } }

variable {refused : Bytes → Call ι κ → Prop}

theorem settles_onFds {m : FdM κ α} {post : α → Call ι κ → Prop}
    (ensures : Ensures m c.server.fds fun a fds => post a (withFds c fds)) : Settles (onFds m) c post refused := by
  have changed : Settles (ExceptT.lift (zoom (fun c : Call ι κ => c.server.fds)
      (fun fds c => { c with server := { c.server with fds } }) m) : CmdM ι κ α) c
      (fun a c' => ∃ fds, c' = { c with server := { c.server with fds } } ∧ post a (withFds c fds)) refused :=
    settles_lift (Ensures.zoom (ensures.mono fun a fds holds => ⟨fds, rfl, holds⟩))
  apply Settles.get_bind
  apply changed.bind
  rintro a _ ⟨fds, rfl, holds⟩
  exact .modify_bind (settles_pure a holds)

variable {fds : FdTable κ}

theorem withFds_quiet (quiet : fds.closed = c.server.fds.closed) :
    withFds c fds = { c with server := { c.server with fds } } := by
  rw [withFds, quiet, List.drop_length]
  simp [Server.noteClosed]

/-! ## Arguments -/

/-- A command may give the name to a handle. -/
def Assignable (fds : FdTable κ) (name : Bytes) : Prop :=
  name ≠ [] ∧ svcCheckName name = true ∧ ∀ x ∈ fds.fdList, (fds.objects x).name = name → (fds.objects x).flags.isConst = false

instance (fds : FdTable κ) (name : Bytes) : Decidable (Assignable fds name) := inferInstanceAs (Decidable (_ ∧ _ ∧ _))

/-- The name of a handle that a command may make or replace, and the arguments after it. -/
def fdArg (fds : FdTable κ) (args : StrSeg) : Option (Bytes × StrSeg) :=
  (strsegTokNext args tab).filter fun (name, _) => Assignable fds name

theorem ctlGetArgFd_exact {s : FdTable κ} (sound : FdSound s) (name : Bytes) :
    Ensures (ctlGetArgFd name false true) s fun result s' => s' = s ∧ ((∃ fd, result = .ok fd) ↔ Assignable s name) := by
  have refused : ∀ {message : String}, ¬Assignable s name →
      ((∃ fd, (.error message : Except String (Option κ)) = .ok fd) ↔ Assignable s name) :=
    fun bad => iff_of_false (by simp) bad
  rw [ctlGetArgFd]
  split
  case isTrue empty => exact ensures_pure ⟨rfl, refused fun good => good.1 empty⟩
  case isFalse nonempty =>
    split
    case isTrue invalid => exact ensures_pure ⟨rfl, refused fun good => by simp [good.2.1] at invalid⟩
    case isFalse valid =>
      refine (sound.indexed.byName name).ensures.bind ?_
      rintro found _ ⟨rfl, named, missing⟩
      refine (isConstFd_spec found).ensures.bind ?_
      rintro const s ⟨rfl, isConst⟩
      rw [Bool.true_and, Bool.false_and]
      split
      case isTrue constant =>
        obtain ⟨x, same, constX⟩ := isConst.mp constant
        obtain ⟨member, namedX⟩ := named x same
        exact ensures_pure ⟨rfl, refused fun good => by cases (good.2.2 x member namedX).symm.trans constX⟩
      case isFalse free =>
        rw [if_neg (by rintro ⟨⟩)]
        refine ensures_pure ⟨rfl, iff_of_true ⟨_, rfl⟩ ⟨nonempty, by simpa using valid, fun x member namedX => ?_⟩⟩
        rw [← Bool.not_eq_true]
        intro constX
        exact sound.not_const named missing (fun const => free (isConst.mpr const)) x member constX namedX

theorem getArgFd_exact (sound : FdSound c.server.fds) :
    Settles (getArgFd false true) c
      (fun result c' => ∃ rest, fdArg c.server.fds c.command = some (result.1, rest) ∧ c' = { c with command := rest })
      fun _ c' => c'.server = c.server ∧ fdArg c.server.fds c.command = none := by
  apply Settles.get_bind
  cases token : strsegTokNext c.command tab with
  | none => exact settles_throw _ ⟨rfl, by rw [fdArg, token]; rfl⟩
  | some token' =>
    obtain ⟨name, rest⟩ := token'
    apply Settles.modify_bind
    have looked : Settles (onFds (ctlGetArgFd name false true)) { c with command := rest }
        (fun result c' => c' = { c with command := rest } ∧ ((∃ fd, result = .ok fd) ↔ Assignable c.server.fds name))
        fun _ c' => c'.server = c.server ∧ fdArg c.server.fds c.command = none := by
      refine settles_onFds ((ctlGetArgFd_exact sound name).mono ?_)
      rintro result _ ⟨rfl, accepted⟩
      exact ⟨withFds_quiet rfl, accepted⟩
    apply looked.bind
    rintro result _ ⟨rfl, accepted⟩
    cases result with
    | error message =>
      refine settles_throw _ ⟨rfl, ?_⟩
      have bad : ¬Assignable c.server.fds name := fun good => nomatch accepted.mpr good
      simp [fdArg, token, bad]
    | ok fd =>
      refine settles_pure _ ⟨rest, ?_, rfl⟩
      have good : Assignable c.server.fds name := accepted.mp ⟨fd, rfl⟩
      simp [fdArg, token, good]

theorem assignable_of_fdArg {args rest : StrSeg} (found : fdArg fds args = some (name, rest)) :
    Assignable fds name := by
  simpa using (Option.mem_filter_iff.mp found).2

/-! ## Flags -/

/-- Flags that are accepted meet a condition. -/
def Allows (P : FdFlags → Prop) (result : Except Bytes FdFlags) : Prop := ∀ flags, result = .ok flags → P flags

namespace Allows

variable {P : FdFlags → Prop}

theorem ok {flags : FdFlags} (holds : P flags) : Allows P (.ok flags) := by
  rintro _ ⟨⟩
  exact holds

theorem error (text : Bytes) : Allows P (.error text) := by
  intro flags same
  cases same

theorem ite {p : Prop} [Decidable p] {first second : Except Bytes FdFlags} (holds : Allows P first) (other : Allows P second) :
    Allows P (if p then first else second) := by
  split
  · exact holds
  · exact other

/-- What every flag keeps, the whole list keeps. -/
theorem parseFlags {known : Bytes → FdFlags → Except Bytes FdFlags} (keeps : ∀ opt flags, P flags → Allows P (known opt flags))
    (opts : List Bytes) {flags : FdFlags} (holds : P flags) : Allows P (parseFlags known opts flags) := by
  induction opts generalizing flags with
  | nil => exact .ok holds
  | cons opt rest ih =>
    cases opt with
    | nil => exact ih holds
    | cons first more =>
      rw [Model.parseFlags]
      · cases result : known (first :: more) flags with
        | error text => exact .error text
        | ok flags₁ => exact ih (keeps _ _ holds _ result)
      · exact nofun

end Allows

/-- No flag of a command makes a handle constant. -/
theorem pipeFlag_keeps (opt : Bytes) (flags : FdFlags) (free : flags.isConst = false) :
    Allows (·.isConst = false) (pipeFlag opt flags) := by
  unfold pipeFlag
  repeat' apply Allows.ite
  all_goals first | exact .ok free | exact .error _

theorem openFlag_keeps (opt : Bytes) (flags : FdFlags) (free : flags.isConst = false) :
    Allows (·.isConst = false) (openFlag opt flags) := by
  unfold openFlag
  repeat' apply Allows.ite
  all_goals first | exact .ok free | exact .error _

variable {flags : FdFlags}

theorem Allows.listen {known : FdFlags → Prop} (allowed : ∀ listen, known { flags with bind := true, listen })
    (result : Except Bytes ℕ) : Allows known (match result with
      | .ok listen => .ok { flags with bind := true, listen }
      | .error text => .error text) := by
  cases result with
  | error text => exact .error text
  | ok listen => exact .ok (allowed listen)

theorem socketFlag_keeps (opt : Bytes) (flags : FdFlags) (free : flags.isConst = false) :
    Allows (·.isConst = false) (socketFlag opt flags) := by
  unfold socketFlag
  cases splitAtSep 61 opt with
  | mk opt optval =>
    refine .ite (.ok free) (.ite (Allows.listen (fun _ => free) _) ?_)
    repeat' apply Allows.ite
    all_goals first | exact .ok free | exact .error _

theorem takeFlags_settles (known : Bytes → FdFlags → Except Bytes FdFlags) (opts : Bytes) (flags : FdFlags) (c : Call ι κ) :
    Settles (takeFlags known opts flags) c
      (fun flags' c' => c' = c ∧ parseFlags known (commaList opts) flags = .ok flags')
      fun text c' => c' = c ∧ parseFlags known (commaList opts) flags = .error text := by
  rw [takeFlags]
  cases parsed : parseFlags known (commaList opts) flags with
  | ok flags' => exact settles_pure _ ⟨rfl, rfl⟩
  | error text => exact settles_throw _ ⟨rfl, rfl⟩

/-- The flags of `fd.pipe`, if they are known. -/
def pipeFlags (args : StrSeg) : Option FdFlags :=
  match (ctlGetArg args).2 with
  | .ok opts => (parseFlags pipeFlag (commaList opts) {}).toOption
  | .error _ => some {}

theorem takePipeFlags_exact :
    Settles takePipeFlags c (fun flags c' => c'.server = c.server ∧ pipeFlags c.command = some flags ∧ flags.isConst = false)
      fun _ c' => c'.server = c.server ∧ pipeFlags c.command = none := by
  apply Settles.get_bind
  rw [pipeFlags]
  generalize ctlGetArg c.command = taken
  obtain ⟨rest, _ | opts⟩ := taken
  · exact settles_pure _ ⟨rfl, rfl, rfl⟩
  · apply Settles.modify_bind
    refine (takeFlags_settles ..).mono ?_ ?_
    · rintro flags _ ⟨rfl, parsed⟩
      dsimp only
      rw [parsed]
      exact ⟨rfl, rfl, Allows.parseFlags pipeFlag_keeps _ rfl _ parsed⟩
    · rintro text _ ⟨rfl, parsed⟩
      dsimp only
      rw [parsed]
      exact ⟨rfl, rfl⟩

/-! ## Descriptors -/

/-- The descriptors of a pair, if it is made. -/
def newPair (s : Server ι κ) (env : CallEnv ι κ) : Option (ℤ × ℤ) :=
  match s.newFd env.newFd1, s.newFd (env.newFd2.filter (some · ≠ env.newFd1)) with
  | some fd1, some fd2 => some (fd1, fd2)
  | _, _ => none

def withOpen (c : Call ι κ) (openFds : List ℤ) : Call ι κ := { c with server := { c.server with openFds } }

theorem openPair_settles (env : CallEnv ι κ) :
    Settles (openPair env) c (fun pair c' => newPair c.server env = pair ∧
      match pair with
      | some (fd1, fd2) => c' = withOpen c (fd1 :: fd2 :: c.server.openFds)
      | none => c' = c) refused := by
  apply Settles.get_bind
  rw [newPair]
  cases c.server.newFd env.newFd1 with
  | none => exact settles_pure _ ⟨rfl, rfl⟩
  | some fd1 =>
    cases c.server.newFd (env.newFd2.filter (some · ≠ env.newFd1)) with
    | none => exact settles_pure _ ⟨rfl, rfl⟩
    | some fd2 => exact .modify_bind (settles_pure _ ⟨rfl, rfl⟩)

theorem openOne_settles (env : CallEnv ι κ) :
    Settles (openOne env) c (fun made c' =>
      match made with
      | some fd => c' = withOpen c (fd :: c.server.openFds)
      | none => c' = c) refused := by
  apply Settles.get_bind
  split
  · exact .modify_bind (settles_pure _ rfl)
  · exact settles_pure _ rfl

theorem recordAssigned_sound (sound : FdSound fds) (x : κ) :
    Ensures (recordAssigned x) fds fun _ fds' => FdSound fds' :=
  ensures_modify ⟨⟨sound.indexed.nodup, sound.indexed.names⟩, sound.const, sound.valid⟩

theorem nameFd_settles (sound : FdSound c.server.fds) (good : Assignable c.server.fds name) (fd : ℤ)
    (free : flags.isConst = false) (path : Bytes) (env : CallEnv ι κ) :
    Settles (nameFd name fd flags path env) c (fun _ c' => FdSound c'.server.fds)
      fun _ c' => c'.server = { c.server with openFds := c.server.openFds.erase fd } := by
  have made : Settles (onFds (fdNewFile name fd flags path env.fdMem1)) c
      (fun result c' => (result = none ∧ c' = c) ∨ ∃ f, result = some f ∧ FdSound c'.server.fds)
      fun _ c' => c'.server = { c.server with openFds := c.server.openFds.erase fd } := by
    refine settles_onFds ((fdNewFile_sound sound good.1 good.2.1 fd (fun const => nomatch free.symm.trans const) path _).mono ?_)
    rintro _ fds (⟨rfl, rfl⟩ | ⟨f, rfl, placed, -⟩)
    · exact .inl ⟨rfl, withFds_quiet rfl⟩
    · exact .inr ⟨f, rfl, placed.sound⟩
  apply made.bind
  rintro _ c₁ (⟨rfl, rfl⟩ | ⟨f, rfl, sound₁⟩)
  · exact .modify_bind (settles_throw _ rfl)
  · have recorded : Settles (onFds (recordAssigned f)) c₁ (fun _ c' => FdSound c'.server.fds)
        fun _ c' => c'.server = { c.server with openFds := c.server.openFds.erase fd } :=
      settles_onFds (recordAssigned_sound sound₁ f)
    apply recorded.bind
    exact fun _ c₂ sound₂ => .get_bind (settles_modify sound₂)

/-- The same for a descriptor that the command has opened. -/
theorem nameNewFd_settles (sound : FdSound c.server.fds) (good : Assignable c.server.fds name) (fd : ℤ)
    (free : flags.isConst = false) (path : Bytes) (env : CallEnv ι κ) :
    Settles (nameFd name fd flags path env) (withOpen c (fd :: c.server.openFds)) (fun _ c' => FdSound c'.server.fds)
      fun _ c' => c'.server = c.server := by
  refine (nameFd_settles (c := withOpen c (fd :: c.server.openFds)) sound good fd free path env).mono (fun _ _ => id) ?_
  intro _ c' refused
  rw [refused]
  simp [withOpen]

theorem ctlCmdFdOpen_settles (sound : FdSound c.server.fds) (env : CallEnv ι κ) :
    Settles (ctlCmdFdOpen env) c (fun _ c' => FdSound c'.server.fds) fun _ c' => c'.server = c.server := by
  apply ((getArgFd_exact sound).mono (fun _ _ => id) fun _ _ refused => refused.1).bind
  rintro ⟨name, _⟩ _ ⟨rest, found, rfl⟩
  have good := assignable_of_fdArg found
  refine (Fixes.takeArgOr ..).before (fun _ _ => id) fun opts c₁ same₁ => ?_
  refine (Fixes.takeArgOr ..).before (fun _ _ same => same.trans same₁) fun path c₂ same₂ => ?_
  have same : c₂.server = c.server := same₂.trans same₁
  apply Settles.get_bind
  split
  · exact settles_throw _ same
  apply ((takeFlags_settles ..).mono (fun _ _ => id) fun _ _ refused => refused.1 ▸ same).bind
  rintro flags _ ⟨rfl, parsed⟩
  apply (openOne_settles env).bind
  rintro (_ | fd) c₃ after
  · exact settles_throw _ (after ▸ same)
  · cases after
    have free : flags.isConst = false := Allows.parseFlags openFlag_keeps _ rfl _ parsed
    rw [← same] at sound good ⊢
    exact nameNewFd_settles sound good fd free path env

theorem takeAddress_settles (env : CallEnv ι κ) (flags : FdFlags) :
    Settles (takeAddress env flags) c (fun result c' => c'.server = c.server ∧ result.2.isConst = flags.isConst)
      fun _ c' => c'.server = c.server := by
  apply Settles.get_bind
  split
  · apply Settles.modify_bind
    split
    · exact settles_pure _ ⟨rfl, rfl⟩
    · exact settles_throw _ rfl
  · split
    · exact settles_throw _ rfl
    · exact settles_pure _ ⟨rfl, rfl⟩

theorem ctlCmdFdSocket_settles (sound : FdSound c.server.fds) (env : CallEnv ι κ) :
    Settles (ctlCmdFdSocket env) c (fun _ c' => FdSound c'.server.fds) fun _ c' => c'.server = c.server := by
  apply ((getArgFd_exact sound).mono (fun _ _ => id) fun _ _ refused => refused.1).bind
  rintro ⟨name, _⟩ _ ⟨rest, found, rfl⟩
  have good := assignable_of_fdArg found
  refine (Fixes.takeArgOr ..).before (fun _ _ => id) fun opts c₁ same₁ => ?_
  apply ((takeFlags_settles ..).mono (fun _ _ => id) fun _ _ refused => refused.1 ▸ same₁).bind
  rintro flags _ ⟨rfl, parsed⟩
  have free : flags.isConst = false := Allows.parseFlags socketFlag_keeps _ rfl _ parsed
  apply ((takeAddress_settles ..).mono (fun _ _ => id) fun _ _ same => same.trans same₁).bind
  rintro ⟨addrspec, flags'⟩ c₂ ⟨same₂, free'⟩
  have same : c₂.server = c.server := same₂.trans same₁
  apply Settles.get_bind
  split
  · exact settles_throw _ same
  apply (openOne_settles env).bind
  rintro (_ | fd) c₃ after
  · exact settles_throw _ (after ▸ same)
  · cases after
    dsimp only
    split
    · refine .modify_bind (settles_throw _ ?_)
      simp [withOpen, Server.close, same]
    · rw [← same] at sound good ⊢
      exact nameNewFd_settles sound good fd (free'.trans free) addrspec env

/-! ## `fd.pipe` -/

/-- The flags of `fd.pipe`, if its arguments are accepted. -/
def pipeArgs (fds : FdTable κ) (args : StrSeg) : Option FdFlags :=
  (fdArg fds args).bind fun (_, rest) => (fdArg fds rest).bind fun (_, rest) => pipeFlags rest

/-- A pair is opened, but cannot be made non-blocking. -/
def LeaksPair (s : Server ι κ) (env : CallEnv ι κ) (args : StrSeg) : Prop :=
  (∃ flags ∈ pipeArgs s.fds args, flags.nonblock = true) ∧ newPair s env ≠ none ∧ (env.nonblock1 = false ∨ env.nonblock2 = false)

theorem nameFdPair_settles {readSide writeSide : Bytes} (sound : FdSound c.server.fds) (good1 : Assignable c.server.fds readSide)
    (good2 : Assignable c.server.fds writeSide) (fd1 fd2 : ℤ) (free : flags.isConst = false) (env : CallEnv ι κ) :
    Settles (nameFdPair readSide writeSide fd1 fd2 flags env) (withOpen c (fd1 :: fd2 :: c.server.openFds))
      (fun _ c' => FdSound c'.server.fds) fun _ c' => FdSound c'.server.fds ∧ SameHandles c.server c'.server := by
  have made : Settles (onFds (fdNewPipe readSide fd1 writeSide fd2 flags env.fdMem1 env.fdMem2))
      (withOpen c (fd1 :: fd2 :: c.server.openFds))
      (fun result c' => (result = none ∧ ∃ fds, SameTable c.server.fds fds ∧ FdIndexed fds ∧
          c'.server = { c.server with openFds := fd1 :: fd2 :: c.server.openFds, fds }) ∨
        ∃ f1 f2, result = some (f1, f2) ∧ FdSound c'.server.fds)
      fun _ c' => FdSound c'.server.fds ∧ SameHandles c.server c'.server := by
    refine settles_onFds ((fdNewPipe_sound sound good1.1 good1.2.1 good2.1 good2.2.1 fd1 fd2 free _ _).mono ?_)
    rintro _ fds (⟨rfl, same, indexed, closed⟩ | ⟨f1, f2, rfl, placed, -⟩)
    · rw [withFds_quiet (c := withOpen c (fd1 :: fd2 :: c.server.openFds)) closed]
      exact .inl ⟨rfl, fds, same, indexed, rfl⟩
    · exact .inr ⟨f1, f2, rfl, placed.sound⟩
  apply made.bind
  rintro _ c₁ (⟨rfl, fds, same, indexed, server⟩ | ⟨f1, f2, rfl, sound₁⟩)
  · refine .modify_bind (settles_throw _ ?_)
    dsimp only
    rw [server]
    refine ⟨sound.congr indexed same, ?_, same⟩
    simp [Server.close]
  · have recorded : Settles (onFds (do recordAssigned f1; recordAssigned f2)) c₁ (fun _ c' => FdSound c'.server.fds)
        fun _ c' => FdSound c'.server.fds ∧ SameHandles c.server c'.server :=
      settles_onFds ((recordAssigned_sound sound₁ f1).bind fun _ _ sound₂ => recordAssigned_sound sound₂ f2)
    have told : ∀ (f : κ) (c₂ : Call ι κ), FdSound c₂.server.fds → Settles (notifyFdState f) c₂ (fun _ c' => FdSound c'.server.fds)
        fun _ c' => FdSound c'.server.fds ∧ SameHandles c.server c'.server :=
      fun f c₂ sound₂ => .get_bind (settles_modify sound₂)
    exact recorded.bind fun _ c₂ sound₂ => (told f1 c₂ sound₂).bind fun _ c₃ sound₃ => told f2 c₃ sound₃

theorem ctlCmdFdPipe_exact (sound : FdSound c.server.fds) (env : CallEnv ι κ) :
    Settles (Commands.ctlCmdFdPipe env) c (fun _ c' => FdSound c'.server.fds ∧ ¬LeaksPair c.server env c.command)
      fun _ c' => FdSound c'.server.fds ∧ (SameHandles c.server c'.server ↔ ¬LeaksPair c.server env c.command) := by
  -- a refusal before anything is opened
  have refused : ∀ {c' : Call ι κ}, c'.server = c.server → ¬LeaksPair c.server env c.command →
      FdSound c'.server.fds ∧ (SameHandles c.server c'.server ↔ ¬LeaksPair c.server env c.command) := by
    intro c' same whole
    rw [same]
    exact ⟨sound, fun _ => whole, fun _ => .refl _⟩
  have bad : pipeArgs c.server.fds c.command = none → ¬LeaksPair c.server env c.command := by
    rintro none ⟨⟨flags, some, -⟩, -⟩
    exact nomatch none.symm.trans some
  apply ((getArgFd_exact sound).mono (fun _ _ => id) ?_).bind
  swap
  · rintro _ c' ⟨same, none⟩
    exact refused same (bad (by simp [pipeArgs, none]))
  rintro ⟨readSide, _⟩ _ ⟨rest1, found1, rfl⟩
  apply ((getArgFd_exact (c := { c with command := rest1 }) sound).mono (fun _ _ => id) ?_).bind
  swap
  · rintro _ c' ⟨same, none⟩
    exact refused same (bad (by simp [pipeArgs, found1, show fdArg c.server.fds rest1 = Option.none from none]))
  rintro ⟨writeSide, _⟩ _ ⟨rest2, found2, rfl⟩
  have args : pipeArgs c.server.fds c.command = pipeFlags rest2 := by
    simp [pipeArgs, found1, show fdArg c.server.fds rest1 = some (writeSide, rest2) from found2]
  apply (takePipeFlags_exact.mono (fun _ _ => id) ?_).bind
  swap
  · rintro _ c' ⟨same, none⟩
    exact refused same (bad (args.trans none))
  rintro flags c₁ ⟨same₁, parsed, free⟩
  have same : c₁.server = c.server := same₁
  have leaks : LeaksPair c.server env c.command ↔
      flags.nonblock = true ∧ newPair c.server env ≠ none ∧ (env.nonblock1 = false ∨ env.nonblock2 = false) := by
    rw [LeaksPair, args, show pipeFlags rest2 = some flags from parsed]
    simp
  apply (openPair_settles env).bind
  rintro (_ | ⟨fd1, fd2⟩) c₂ ⟨pair, after⟩
  · refine settles_throw _ (refused (after ▸ same) fun leak => ?_)
    rw [same] at pair
    exact (leaks.mp leak).2.1 pair
  cases after
  rw [same] at pair
  dsimp only
  split
  case isTrue blocked =>
    refine settles_throw _ ⟨?_, iff_of_false (fun same' => ?_) ?_⟩
    · rw [withOpen, same]
      exact sound
    · have lengths : (fd1 :: fd2 :: c₁.server.openFds).length = c.server.openFds.length := congrArg List.length same'.openFds
      rw [same, List.length_cons, List.length_cons] at lengths
      omega
    · exact not_not.mpr (leaks.mpr ⟨blocked.1, by simp [pair], blocked.2⟩)
  case isFalse nonblocking =>
    have whole : ¬LeaksPair c.server env c.command := fun leak => nonblocking ⟨(leaks.mp leak).1, (leaks.mp leak).2.2⟩
    have named : Settles (nameFdPair readSide writeSide fd1 fd2 flags env) (withOpen c₁ (fd1 :: fd2 :: c₁.server.openFds))
        (fun _ c' => FdSound c'.server.fds) fun _ c' => FdSound c'.server.fds ∧ SameHandles c₁.server c'.server := by
      refine nameFdPair_settles ?_ ?_ ?_ fd1 fd2 free env <;> rw [same]
      · exact sound
      · exact assignable_of_fdArg found1
      · exact assignable_of_fdArg found2
    refine named.mono (fun _ _ sound' => ⟨sound', whole⟩) ?_
    rintro _ c' ⟨sound', kept⟩
    exact ⟨sound', fun _ => whole, fun _ => same ▸ kept⟩

/-! ## The other commands -/

theorem ctlCmdFdTake_settles (sound : FdSound c.server.fds) (passed : ℤ) (env : CallEnv ι κ) :
    Settles (Commands.ctlCmdFdTake passed env) c (fun _ c' => FdSound c'.server.fds) fun _ c' => FdSound c'.server.fds := by
  apply ((getArgFd_exact sound).mono (fun _ _ => id) ?_).bind
  swap
  · rintro _ c' ⟨same, -⟩
    rw [same]
    exact sound
  rintro ⟨name, _⟩ _ ⟨rest, found, rfl⟩
  have good := assignable_of_fdArg found
  have made : Settles (onFds (fdNewUnknown name passed (commandFlags env.loadedFlags) env.fdMem1)) { c with command := rest }
      (fun _ c' => FdSound c'.server.fds) fun _ c' => FdSound c'.server.fds := by
    have free : (commandFlags env.loadedFlags).isConst = true → ∀ y ∈ c.server.fds.fdList, (c.server.fds.objects y).name ≠ name :=
      fun const => nomatch const
    refine settles_onFds ((fdNewFile_sound sound good.1 good.2.1 passed free _ _).mono ?_)
    rintro _ fds (⟨rfl, rfl⟩ | ⟨f, rfl, placed, -⟩)
    · exact sound
    · exact placed.sound
  apply made.bind
  rintro (_ | f) c₁ sound₁
  · exact settles_throw _ sound₁
  · have recorded : Settles (onFds (recordAssigned f)) (withOpen c₁ (passed :: c₁.server.openFds))
        (fun _ c' => FdSound c'.server.fds) fun _ c' => FdSound c'.server.fds := settles_onFds (recordAssigned_sound sound₁ f)
    exact .modify_bind (recorded.bind fun _ c₂ sound₂ => .get_bind (settles_modify sound₂))

theorem ctlCmdFdDelete_settles (sound : FdSound c.server.fds) (env : CallEnv ι κ) :
    Settles (Commands.ctlCmdFdDelete env) c (fun _ c' => FdSound c'.server.fds) fun _ c' => FdSound c'.server.fds := by
  refine (Fixes.getArgFd ..).before (fun _ _ same => same ▸ sound) fun found c₁ same => ?_
  rw [← same] at sound
  split
  · exact settles_throw _ sound
  next name x =>
    refine .modify_bind (settles_onFds ((sound.indexed.delete x).bind fun _ fds deleted => ensures_modify ?_))
    have sound' := deleted.sound sound
    exact ⟨⟨sound'.indexed.nodup, sound'.indexed.names⟩, sound'.const, sound'.valid⟩

theorem Fixes.fdSound {m : CmdM ι κ α} (fixes : Fixes Server.fds m) (sound : FdSound c.server.fds) :
    Settles m c (fun _ c' => FdSound c'.server.fds) fun _ c' => FdSound c'.server.fds := by
  refine (fixes.maintains _ c rfl).mono ?_ ?_
  · exact fun _ _ same => same.symm ▸ sound
  · exact fun _ _ same => same.symm ▸ sound

theorem serverHandler_fdSound (sound : FdSound c.server.fds) (sigList : List SigListItem) (passed : Option ℤ) (env : CallEnv ι κ)
    (command : ServerCommand) :
    Settles (serverHandler sigList passed env command) c (fun _ c' => FdSound c'.server.fds) fun _ c' => FdSound c'.server.fds := by
  have services : FreeOfServices (Server.fds : Server ι κ → FdTable κ) := fun _ _ _ _ _ => rfl
  have guard : FreeOfGuard (Server.fds : Server ι κ → FdTable κ) := fun _ _ _ => rfl
  have sockets : FreeOfSockets (Server.fds : Server ι κ → FdTable κ) := fun _ _ _ _ => rfl
  have unchanged : ∀ {c' : Call ι κ}, c'.server = c.server → FdSound c'.server.fds := fun same => same ▸ sound
  cases command with
  | svcTags | svcArgs => exact (Fixes.ctlCmdSvcVar services ..).fdSound sound
  | svcFds => exact (Fixes.ctlCmdSvcFds services env).fdSound sound
  | svcAutoUp => exact (Fixes.ctlCmdSvcAutoUp services sigList env).fdSound sound
  | svcStart => exact (Fixes.ctlCmdSvcStart services env).fdSound sound
  | svcSignal => exact (Fixes.ctlCmdSvcSignal services sigList env).fdSound sound
  | svcDelete => exact (Fixes.ctlCmdSvcDelete services env).fdSound sound
  | signalClear => exact (Fixes.ctlCmdSignalClear services.loop sigList env).fdSound sound
  | terminateGuard => exact (Fixes.ctlCmdTerminateGuard guard env).fdSound sound
  | terminateExecArgs => exact (Fixes.ctlCmdTerminateExecArgs guard env).fdSound sound
  | fdPipe => exact (ctlCmdFdPipe_exact sound env).mono (fun _ _ => And.left) fun _ _ => And.left
  | fdOpen => exact (ctlCmdFdOpen_settles sound env).mono (fun _ _ => id) fun _ _ => unchanged
  | fdSocket => exact (ctlCmdFdSocket_settles sound env).mono (fun _ _ => id) fun _ _ => unchanged
  | fdDelete => exact ctlCmdFdDelete_settles sound env
  | fdTake =>
    cases passed with
    | none => exact (Fixes.refuse _).fdSound sound
    | some fd => exact ctlCmdFdTake_settles sound fd env
  | chdir => exact (Fixes.ctlCmdChdir env).fdSound sound
  | terminate => exact (Fixes.ctlCmdTerminate (fun _ _ _ _ => rfl) env).fdSound sound
  | socketCreate => exact (Fixes.ctlCmdSocketCreate sockets env).fdSound sound
  | socketDelete => exact (Fixes.ctlCmdSocketDelete sockets env).fdSound sound
  | logFilter => exact (Fixes.ctlCmdLogFilter sockets env).fdSound sound
  | logDest => exact (Fixes.ctlCmdLogDest sockets env).fdSound sound

/-! ## Whole runs -/

theorem registerName_valid {k : ℕ} (small : k < 1024) :
    System.registerName k ≠ [] ∧ svcCheckName (System.registerName k) = true := by
  have all : ∀ k : Fin 1024, System.registerName k ≠ [] ∧ svcCheckName (System.registerName k) = true := by decide +kernel
  exact all ⟨k, small⟩

theorem registerFd_sound {s : Server ι κ} (sound : FdSound s.fds) (k : ℕ) (fdnum : ℤ) (flags : FdFlags) (mem : Option κ) :
    Ensures (System.registerFd k fdnum flags mem) s fun _ s' => FdSound s'.fds := by
  rw [System.registerFd]
  split
  · exact ensures_failure
  next small =>
    obtain ⟨nonempty, valid⟩ := registerName_valid (not_le.mp small)
    have made : Ensures (fdProgram (.register (System.registerName k) fdnum flags mem)) s.fds fun _ fds => FdSound fds := by
      have free : (commandFlags flags).isConst = true → ∀ y ∈ s.fds.fdList, (s.fds.objects y).name ≠ System.registerName k :=
        fun const => by cases const
      refine (fdNewFile_sound sound nonempty valid fdnum free _ mem).bind ?_
      rintro _ fds (⟨rfl, rfl⟩ | ⟨f, rfl, placed, -⟩)
      · exact ensures_pure sound
      · exact (recordAssigned_sound placed.sound f).bind fun _ _ sound' => ensures_pure sound'
    have zoomed : Ensures (onFdTable (fdProgram (.register (System.registerName k) fdnum flags mem))) s fun _ s' => FdSound s'.fds :=
      Ensures.zoom made
    refine zoomed.bind fun result s' sound' => ?_
    cases result with
    | ok _ => exact ensures_modify sound'
    | error _ => exact ensures_failure

/-- Every act of the daemon keeps the table sound. -/
theorem FdSound.serverAct {sigList : List SigListItem} {line : Bytes × StrSeg → Prop} {s s' : Server ι κ} (sound : FdSound s.fds)
    (act : ServerAct sigList line s s') : FdSound s'.fds := by
  cases act with
  | call _ _ called =>
    exact serverCall_keeps (I := fun s => FdSound s.fds) sound (fun command _ => serverHandler_fdSound sound sigList _ _ command) called
  | register k fdnum flags mem run => exact registerFd_sound sound k fdnum flags mem _ _ run
  | step | next | report | log | exit => exact sound

end DaemonProxy.Proofs
