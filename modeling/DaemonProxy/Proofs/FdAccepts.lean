import DaemonProxy.Proofs.FdRefusals
import DaemonProxy.Proofs.StrSeg

/-! # Commands that make a handle

When `fd.open` and `fd.socket` are accepted, and what they then print. The flags of the new handle have no part in whether it can be
made; they only appear in the handle and in the message about it.
-/

set_option linter.unusedSectionVars false

namespace DaemonProxy.Proofs

open Lib Model

variable {ι κ : Type} [DecidableEq ι] [DecidableEq κ] {c : Call ι κ} {α : Type} {name : Bytes}

/-! ## The handle -/

/-- `fd_new_file` before it gives the object its contents. -/
def makeFile (name path : Bytes) (mem : Option κ) : FdM κ (Option κ) := do
  let old ← fdByName name
  if ← isConstFd old then return none
  else
    match ← fdNew (sizeofFd + name.length + 1 + path.length + 1) name mem with
    | none => return none
    | some f =>
        deleteOld old
        return some f

/-- `fd_new_file`, once it has the object. -/
def fillFile (name : Bytes) (fdnum : ℤ) (flags : FdFlags) (path : Bytes) (made : Option κ) : FdM κ (Option κ) := do
  match made with
  | none => return none
  | some f =>
      updateFd f fun fd => { fd with
        fd := fdnum, flags, attr := .path (appendElipses (fd.size - sizeofFd - name.length - 1) path) }
      return some f

theorem fdNewFile_eq (name : Bytes) (fdnum : ℤ) (flags : FdFlags) (path : Bytes) (mem : Option κ) :
    fdNewFile name fdnum flags path mem = makeFile name path mem >>= fillFile name fdnum flags path := by
  simp only [fdNewFile, makeFile, bind_assoc]
  congr 1
  funext old
  congr 1
  funext isConst
  cases isConst with
  | true => simp [fillFile]
  | false =>
    simp only [Bool.false_eq_true, if_false, bind_assoc]
    congr 1
    funext made
    cases made with
    | none => simp [fillFile]
    | some f => simp [fillFile]

theorem onFdIndex_objects (m : ℕ → TreeM κ α) (s : FdTable κ) : Ensures (onFdIndex m) s fun _ s' => s'.objects = s.objects :=
  Ensures.get_bind (Ensures.zoom fun _ _ _ => rfl)

theorem fdNew_name (size : ℕ) (name : Bytes) (mem : Option κ) (s : FdTable κ) :
    Ensures (fdNew size name mem) s fun made s' => ∀ f ∈ made, (s'.objects f).name = name := by
  rw [fdNew]
  apply Ensures.get_bind
  cases mem with
  | none => exact ensures_pure (by rintro _ ⟨⟩)
  | some x =>
    dsimp only
    split
    · exact ensures_pure (by rintro _ ⟨⟩)
    · split
      · exact ensures_pure (by rintro _ ⟨⟩)
      · -- The name is written first, and the index does not touch it.
        refine Ensures.modify_bind (Ensures.modify_bind ((onFdIndex_objects _ _).bind fun _ s₁ first => ?_))
        refine (onFdIndex_objects _ _).bind fun _ s₂ second => Ensures.get_bind ?_
        refine (onFdIndex_objects _ _).bind fun _ s₃ third => ensures_pure ?_
        rintro f ⟨⟩
        rw [third, second, first]
        exact congrArg FdObj.name (Function.update_self x _ s.objects)

theorem fdDelete_names (x : κ) (s : FdTable κ) :
    Ensures (fdDelete x) s fun _ s' => ∀ y, (s'.objects y).name = (s.objects y).name := by
  refine Ensures.get_bind (Ensures.modify_bind ((dropPeer_inherits _ _).bind ?_))
  rintro _ _ ⟨objects, rfl, same, -⟩
  have closing : ∀ t : FdTable κ, t.objects = objects → Ensures (do
      let _ ← onFdIndex fun fuel => rbTreeNodePrune fuel (.node x)
      modify fun s => { s with fdList := swapRemove x s.fdList } : FdM κ Unit) t
        fun _ s' => ∀ y, (s'.objects y).name = (s.objects y).name := by
    intro t kept
    refine (onFdIndex_objects _ _).bind fun _ s₁ index => ensures_modify fun y => ?_
    dsimp only
    rw [index, kept]
    exact (same y).name
  split
  · exact Ensures.modify_bind (closing _ rfl)
  · exact closing _ rfl

theorem makeFile_name (name path : Bytes) (mem : Option κ) (s : FdTable κ) :
    Ensures (makeFile name path mem) s fun made s' => ∀ f ∈ made, (s'.objects f).name = name := by
  rw [makeFile]
  refine Ensures.any_bind fun old s₁ => Ensures.any_bind fun isConst s₂ => ?_
  split
  · exact ensures_pure nofun
  · refine (fdNew_name _ name mem s₂).bind fun made s₃ named => ?_
    cases made with
    | none => exact ensures_pure nofun
    | some f =>
      have kept : Ensures (deleteOld old) s₃ fun _ s' => (s'.objects f).name = (s₃.objects f).name := by
        cases old with
        | none => exact ensures_pure rfl
        | some x => exact (fdDelete_names x s₃).mono fun _ _ same => same f
      refine kept.bind fun _ s₄ same => ensures_pure ?_
      rintro _ ⟨⟩
      rw [same, named f rfl]

/-! ## The parts of the handlers -/

theorem succeeds_onFds {m : FdM κ α} {post : α → Call ι κ → Prop} :
    Succeeds (onFds m) c post ↔ Ends m c.server.fds fun a fds => post a (withFds c fds) := by
  have lifted : Succeeds (ExceptT.lift (zoom (fun c : Call ι κ => c.server.fds)
      (fun fds c => { c with server := { c.server with fds } }) m) : CmdM ι κ α) c (fun a c' =>
        post a { c' with server := Server.noteClosed (c'.server.fds.closed.drop c.server.fds.closed.length) c'.server }) ↔
      Ends m c.server.fds fun a fds => post a (withFds c fds) := succeeds_lift.trans ends_zoom
  rw [← lifted, onFds, succeeds_bind, succeeds_get, succeeds_bind]
  simp only [modifyServer, succeeds_bind, succeeds_modify, succeeds_pure]
  rfl

/-- The messages when the new handle has the flags. -/
def toldOf (c : Call ι κ) (name : Bytes) (flags : FdFlags) (text : Bytes) : List (Bool × Notice) :=
  c.out ++ [(true, .fdState name flags (some text))]

/-- The new handle can be made, and its path is stored as `text`. -/
def Makes (s : FdTable κ) (name path : Bytes) (mem : Option κ) (text : Bytes) : Prop :=
  Ends (makeFile name path mem) s fun made fds => ∃ f ∈ made,
    text = appendElipses ((fds.objects f).size - sizeofFd - name.length - 1) path

theorem succeeds_nameFd (fd : ℤ) (flags : FdFlags) (path : Bytes) (env : CallEnv ι κ) (out : List (Bool × Notice)) :
    Succeeds (nameFd name fd flags path env) c (fun _ c' => c'.out = out) ↔
      ∃ text, Makes c.server.fds name path env.fdMem1 text ∧ out = toldOf c name flags text := by
  -- What is said of the handle is read after the history has its entry for it, which changes nothing else.
  have told (f : κ) (fds : FdTable κ) :
      Succeeds (do onFds (recordAssigned f); notifyFdState f : CmdM ι κ Unit) (withFds c fds) (fun _ c' => c'.out = out) ↔
        out = c.out ++ [(true, fdNotice fds f)] := by
    simp only [succeeds_bind, succeeds_onFds, recordAssigned, ends_modify, notifyFdState, succeeds_get, tellAll, succeeds_modify]
    exact eq_comm
  have filled {f : κ} {fds : FdTable κ} (named : (fds.objects f).name = name) :
      fdNotice { fds with objects := Function.update fds.objects f { fds.objects f with
        fd, flags, attr := .path (appendElipses ((fds.objects f).size - sizeofFd - name.length - 1) path) } } f =
      .fdState name flags (some (appendElipses ((fds.objects f).size - sizeofFd - name.length - 1) path)) := by
    simp only [fdNotice, Function.update_self, named]
  rw [nameFd, succeeds_bind, succeeds_onFds, fdNewFile_eq, ends_bind]
  constructor
  · rintro ⟨made, fds, run, rest⟩
    cases made with
    | none => simp [fillFile, modifyServer, refuse] at rest
    | some f =>
      have named := makeFile_name name path env.fdMem1 _ _ _ run f rfl
      simp only [fillFile, ends_bind, ends_updateFd, ends_pure, told] at rest
      refine ⟨_, ⟨_, _, run, f, rfl, rfl⟩, rest.trans ?_⟩
      exact congrArg (fun notice => c.out ++ [(true, notice)]) (filled named)
  · rintro ⟨_, ⟨_, fds, run, f, rfl, rfl⟩, rfl⟩
    have named := makeFile_name name path env.fdMem1 _ _ _ run f rfl
    refine ⟨_, _, run, ?_⟩
    simp only [fillFile, ends_bind, ends_updateFd, ends_pure]
    apply (told f _).mpr
    exact congrArg (fun notice => c.out ++ [(true, notice)]) (filled named).symm

theorem succeeds_takeArgOr (message : String) {post : Bytes → Call ι κ → Prop} :
    Succeeds (takeArgOr ctlGetArg message) c post ↔
      ∃ token more, strsegTokNext c.command tab = some (token, more) ∧ post token { c with command := more } := by
  simp only [takeArgOr, takeArgWith, succeeds_bind, succeeds_get, succeeds_modify, ctlGetArg]
  cases strsegTokNext c.command tab with
  | none => simp [refuse]
  | some taken => simp [Prod.ext_iff]

theorem succeeds_takeFlags (known : Bytes → FdFlags → Except Bytes FdFlags) (opts : Bytes) (flags : FdFlags)
    {post : FdFlags → Call ι κ → Prop} :
    Succeeds (takeFlags known opts flags) c post ↔ ∃ flags', parseFlags known (commaList opts) flags = .ok flags' ∧ post flags' c := by
  rw [takeFlags]
  cases parseFlags known (commaList opts) flags with
  | ok flags' => simp
  | error text => simp

/-- A command with the arguments NAME and FLAGS, and `rest` after them. -/
def withArgs (c : Call ι κ) (name opts : Bytes) (rest : StrSeg) : Call ι κ :=
  { c with command := some (name ++ tab :: (opts ++ rest.elim [] (tab :: ·))) }

theorem tokNext_arg {opts : Bytes} (free : tab ∉ opts) (rest : StrSeg) :
    strsegTokNext (some (opts ++ rest.elim [] (tab :: ·))) tab = some (opts, rest) := by
  cases rest with
  | none => rw [Option.elim_none, List.append_nil, strsegTokNext, Option.map_some, splitAtSep_of_notMem free]
  | some more => exact congrArg some (splitAtSep_token free)

/-- `ctl_get_arg_fd` accepts the name, and the table is then `fds`. -/
def TakesName (s : FdTable κ) (name : Bytes) (fds : FdTable κ) : Prop :=
  ∃ old, (ctlGetArgFd name false true).run s = some (.ok old, fds)

theorem succeeds_getArgFd (free : tab ∉ name) (opts : Bytes) (rest : StrSeg) {post : Bytes × Option κ → Call ι κ → Prop}
    (unused : ∀ name old old' c, post (name, old) c → post (name, old') c) :
    Succeeds (getArgFd false true) (withArgs c name opts rest) post ↔ ∃ fds, TakesName c.server.fds name fds ∧
      post (name, none) { withFds c fds with command := some (opts ++ rest.elim [] (tab :: ·)) } := by
  have taken : strsegTokNext (withArgs c name opts rest).command tab = some (name, some (opts ++ rest.elim [] (tab :: ·))) :=
    congrArg some (splitAtSep_token free)
  simp only [getArgFd, succeeds_bind, succeeds_get, taken, succeeds_modify, succeeds_onFds]
  constructor
  · rintro ⟨result, fds, run, rest⟩
    cases result with
    | error message => simp [refuse] at rest
    | ok old =>
      rw [succeeds_pure] at rest
      exact ⟨fds, ⟨old, run⟩, unused _ _ _ _ rest⟩
  · rintro ⟨fds, ⟨old, run⟩, rest⟩
    refine ⟨.ok old, fds, run, ?_⟩
    exact (succeeds_pure _).mpr (unused _ _ _ _ rest)

theorem succeeds_openOne (env : CallEnv ι κ) {post : Option ℤ → Call ι κ → Prop} (needed : ∀ c, ¬post none c) :
    Succeeds (openOne env) c post ↔
      ∃ fd, c.server.newFd env.newFd1 = some fd ∧ post (some fd) (withOpen c (fd :: c.server.openFds)) := by
  simp only [openOne, succeeds_bind, succeeds_get]
  cases c.server.newFd env.newFd1 with
  | none => simp [needed]
  | some fd =>
    simp only [modifyServer, succeeds_bind, succeeds_modify, succeeds_pure]
    constructor
    · exact fun holds => ⟨fd, rfl, holds⟩
    · rintro ⟨_, ⟨⟩, holds⟩
      exact holds

theorem succeeds_takeAddress (env : CallEnv ι κ) (flags : FdFlags) {post : Bytes × FdFlags → Call ι κ → Prop} :
    Succeeds (takeAddress env flags) c post ↔
      (∃ address more, strsegTokNext c.command tab = some (address, more) ∧
        strsegParseSockaddr env.inetPton flags.domain address = some [] ∧
        post (address, { flags with bind := true }) { c with command := more }) ∨
      (strsegTokNext c.command tab = none ∧ flags.bind = false ∧ post ([], flags) c) := by
  simp only [takeAddress, succeeds_bind, succeeds_get, ctlGetArg]
  cases strsegTokNext c.command tab with
  | none => cases bind : flags.bind <;> simp [refuse]
  | some taken =>
    obtain ⟨address, more⟩ := taken
    simp only [succeeds_bind, succeeds_modify, succeeds_ite, succeeds_pure, refuse, succeeds_throw]
    constructor
    · intro holds
      split at holds
      · next parsed => exact .inl ⟨address, more, rfl, parsed, holds⟩
      · cases holds
    · rintro (⟨_, _, ⟨⟩, parsed, holds⟩ | ⟨none, -⟩)
      · rwa [if_pos parsed]
      · cases none

/-! ## The handlers -/

/-- The kernel and the allocator let `fd.open` make the handle; its path is stored as `text`. -/
def OpensFile (env : CallEnv ι κ) (c : Call ι κ) (name : Bytes) (rest : StrSeg) (text : Bytes) : Prop :=
  ∃ fds path more fd, TakesName c.server.fds name fds ∧ strsegTokNext rest tab = some (path, more) ∧ ctlPeekArg more = none ∧
    (withFds c fds).server.newFd env.newFd1 = some fd ∧ Makes fds name path env.fdMem1 text

/-- The descriptor is opened and gets its name. -/
theorem succeeds_openFile {env : CallEnv ι κ} {out : List (Bool × Notice)} (fds : FdTable κ) (path : Bytes) (more : StrSeg)
    (flags : FdFlags) :
    Succeeds (openOne env) { withFds c fds with command := more } (fun made c' => Succeeds (match made with
        | none => refuseWith (bytesOf "open failed: " ++ env.strerror)
        | some fd => nameFd name fd flags path env) c' fun _ c' => c'.out = out) ↔
      ∃ fd, (withFds c fds).server.newFd env.newFd1 = some fd ∧
        ∃ text, Makes fds name path env.fdMem1 text ∧ out = toldOf c name flags text := by
  rw [succeeds_openOne env fun c' => by simp [refuseWith]]
  simp only [succeeds_nameFd]
  rfl

theorem succeeds_ctlCmdFdOpen {opts : Bytes} (nameFree : tab ∉ name) (optsFree : tab ∉ opts) (env : CallEnv ι κ) (rest : StrSeg)
    (out : List (Bool × Notice)) :
    Succeeds (ctlCmdFdOpen env) (withArgs c name opts rest) (fun _ c' => c'.out = out) ↔
      ∃ flags text, parseFlags openFlag (commaList opts) {} = .ok flags ∧ OpensFile env c name rest text ∧
        out = toldOf c name flags text := by
  rw [ctlCmdFdOpen, succeeds_bind, succeeds_getArgFd nameFree _ _ fun _ _ _ _ => id]
  simp only [succeeds_bind, succeeds_takeArgOr, succeeds_get, succeeds_ite, succeeds_takeFlags, tokNext_arg optsFree]
  constructor
  · rintro ⟨fds, takes, _, _, ⟨⟩, path, more, taken, rest⟩
    split at rest
    · simp [refuse] at rest
    · next last =>
      obtain ⟨flags, parsed, accepted⟩ := rest
      obtain ⟨fd, new, text, makes, rfl⟩ := (succeeds_openFile ..).mp accepted
      exact ⟨flags, text, parsed, ⟨fds, path, more, fd, takes, taken, Option.not_isSome_iff_eq_none.mp last, new, makes⟩, rfl⟩
  · rintro ⟨flags, text, parsed, ⟨fds, path, more, fd, takes, taken, last, new, makes⟩, rfl⟩
    refine ⟨fds, takes, opts, rest, rfl, path, more, taken, ?_⟩
    rw [if_neg (Option.not_isSome_iff_eq_none.mpr last)]
    exact ⟨flags, parsed, (succeeds_openFile ..).mpr ⟨fd, new, text, makes, rfl⟩⟩

/-- The same for `fd.socket`; `flags` are those of the handle, which is bound if there is an address. -/
def OpensSocket (env : CallEnv ι κ) (c : Call ι κ) (name : Bytes) (rest : StrSeg) (asked flags : FdFlags) (text : Bytes) : Prop :=
  ∃ fds address fd, TakesName c.server.fds name fds ∧
    ((∃ more, strsegTokNext rest tab = some (address, more) ∧ strsegParseSockaddr env.inetPton asked.domain address = some [] ∧
        ctlPeekArg more = none ∧ flags = { asked with bind := true }) ∨
      (strsegTokNext rest tab = none ∧ ctlPeekArg rest = none ∧ asked.bind = false ∧ address = [] ∧ flags = asked)) ∧
    (withFds c fds).server.newFd env.newFd1 = some fd ∧ socketFailure env flags = none ∧ Makes fds name address env.fdMem1 text

/-- The socket is made, bound if it is to be, and gets its name. -/
theorem succeeds_openSocket {env : CallEnv ι κ} {out : List (Bool × Notice)} (fds : FdTable κ) (address : Bytes) (more : StrSeg)
    (flags : FdFlags) :
    Succeeds (openOne env) { withFds c fds with command := more } (fun made c' => Succeeds (match made with
        | none => refuseWith (bytesOf "socket: " ++ env.strerror)
        | some fd =>
          match socketFailure env flags with
          | some failed => do
              modifyServer fun s => s.close fd
              refuseWith (bytesOf failed ++ bytesOf ": " ++ env.strerror)
          | none => nameFd name fd flags address env) c' fun _ c' => c'.out = out) ↔
      ∃ fd, (withFds c fds).server.newFd env.newFd1 = some fd ∧ socketFailure env flags = none ∧
        ∃ text, Makes fds name address env.fdMem1 text ∧ out = toldOf c name flags text := by
  rw [succeeds_openOne env fun c' => by simp [refuseWith]]
  cases socketFailure env flags with
  | some failed => simp [refuseWith, modifyServer]
  | none =>
    simp only [succeeds_nameFd, true_and]
    rfl

theorem succeeds_ctlCmdFdSocket {opts : Bytes} (nameFree : tab ∉ name) (optsFree : tab ∉ opts) (env : CallEnv ι κ) (rest : StrSeg)
    (out : List (Bool × Notice)) :
    Succeeds (ctlCmdFdSocket env) (withArgs c name opts rest) (fun _ c' => c'.out = out) ↔
      ∃ asked flags text, parseFlags socketFlag (commaList opts) { socket := true } = .ok asked ∧
        OpensSocket env c name rest asked flags text ∧ out = toldOf c name flags text := by
  rw [ctlCmdFdSocket, succeeds_bind, succeeds_getArgFd nameFree _ _ fun _ _ _ _ => id]
  simp only [succeeds_bind, succeeds_takeArgOr, succeeds_get, succeeds_ite, succeeds_takeFlags, tokNext_arg optsFree, succeeds_takeAddress]
  constructor
  · rintro ⟨fds, takes, _, _, ⟨⟩, asked, parsed, address | address⟩
    · obtain ⟨address, more, taken, valid, accepted⟩ := address
      split at accepted
      · simp [refuse] at accepted
      · next last =>
        obtain ⟨fd, new, works, text, makes, rfl⟩ := (succeeds_openSocket ..).mp accepted
        refine ⟨asked, _, text, parsed, ⟨fds, address, fd, takes, .inl ?_, new, works, makes⟩, rfl⟩
        exact ⟨more, taken, valid, Option.not_isSome_iff_eq_none.mp last, rfl⟩
    · obtain ⟨none, unbound, accepted⟩ := address
      split at accepted
      · simp [refuse] at accepted
      · next last =>
        obtain ⟨fd, new, works, text, makes, rfl⟩ := (succeeds_openSocket ..).mp accepted
        refine ⟨asked, asked, text, parsed, ⟨fds, [], fd, takes, .inr ?_, new, works, makes⟩, rfl⟩
        exact ⟨none, Option.not_isSome_iff_eq_none.mp last, unbound, rfl, rfl⟩
  · rintro ⟨asked, flags, text, parsed, ⟨fds, address, fd, takes, given, new, works, makes⟩, rfl⟩
    refine ⟨fds, takes, opts, rest, rfl, asked, parsed, ?_⟩
    rcases given with ⟨more, taken, valid, last, rfl⟩ | ⟨none, last, unbound, rfl, rfl⟩
    · refine .inl ⟨address, more, taken, valid, ?_⟩
      rw [if_neg (Option.not_isSome_iff_eq_none.mpr last)]
      exact (succeeds_openSocket ..).mpr ⟨fd, new, works, text, makes, rfl⟩
    · refine .inr ⟨none, unbound, ?_⟩
      rw [if_neg (Option.not_isSome_iff_eq_none.mpr last)]
      exact (succeeds_openSocket ..).mpr ⟨fd, new, works, text, makes, rfl⟩

end DaemonProxy.Proofs
