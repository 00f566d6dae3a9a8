import DaemonProxy.Proofs.SystemActs

/-! # What the state functions tell their controller

The state functions of a controller look at the tables and tell the controller what they find: pending signals, and the lines
of `statedump`. They consist of acts that leave the controller in its state, with its input.
-/

namespace DaemonProxy.Proofs

open Lib Model

variable {n : ℕ} {ι κ : Type} [DecidableEq ι] [DecidableEq κ] {α β : Type} {sigList : List SigListItem}
  {line : Bytes × StrSeg → Prop} {s s' : System n ι κ} {i : Fin n}

/-- Acts after which the controller and the main loop are in the same state, with the same input. -/
structure Talks (sigList : List SigListItem) (i : Fin n) (s s' : System n ι κ) : Prop where
  acts : ∀ {line}, Quiet sigList line s s'
  phase : s'.server.loop.phase = s.server.loop.phase
  stateFn : (s'.world.client i).stateFn = (s.world.client i).stateFn
  recv : (s'.world.client i).recv = (s.world.client i).recv

namespace Talks

theorem refl (s : System n ι κ) : Talks sigList i s s := ⟨.refl s, rfl, rfl, rfl⟩

theorem trans {s₁ s₂ s₃ : System n ι κ} (first : Talks sigList i s₁ s₂) (second : Talks sigList i s₂ s₃) : Talks sigList i s₁ s₃ where
  acts := first.acts.trans second.acts
  phase := second.phase.trans first.phase
  stateFn := second.stateFn.trans first.stateFn
  recv := second.recv.trans first.recv

theorem allocated (talks : Talks sigList i s s') (allocated : (s.world.client i).stateFn ≠ none) :
    (s'.world.client i).stateFn ≠ none := by rwa [talks.stateFn]

/-- An act that only sends. -/
theorem of_sends {m : CtlM n α} (act : ∀ {line} a s', (System.onWorld m).run s = some (a, s') → SysAct sigList line s s')
    (sends : Ensures m s.world fun _ w => Sends s.world w) :
    Ensures (System.onWorld m) s fun _ s' => Talks sigList i s s' ∧ ∃ world, s' = { s with world } := by
  intro a s' run
  obtain ⟨w, rfl, sent, -⟩ := onWorld_sends (sends.mono fun _ _ sent => ⟨sent, trivial⟩) a s' run
  exact ⟨⟨quiet_onWorld (act a _ run) run, rfl, (sent.sameInput i).stateFn, (sent.sameInput i).recv⟩, w, rfl⟩

theorem ready (sigList : List SigListItem) (allocated : (s.world.client i).stateFn ≠ none) :
    Ensures (System.onWorld (ctlOutBufReady i)) s fun _ s' => Talks sigList i s s' ∧ ∃ world, s' = { s with world } :=
  of_sends (fun _ _ run => .control (.ready i allocated) run)
    ((ctlOutBufReady_spec allocated).ensures.mono fun _ _ sent => sent.1.sends)

theorem tell {notice : Notice}
    (act : ∀ {line} s', (System.tell sigList i notice).run s = some (⟨⟩, s') → SysAct sigList line s s') :
    Ensures (System.tell sigList i notice) s fun _ s' => Talks sigList i s s' := by
  have told := of_sends (i := i) (fun _ s' run => act s' run)
    ((ctlWrite_spec (some i) (notice.message sigList) s.world).ensures.mono fun _ _ written => written.sends)
  exact told.mono fun _ _ talks => talks.1

/-- A look at the services or at the handles. -/
theorem peek (sigList : List SigListItem) (i : Fin n) {m : StateT (Server ι κ) Option α} (peeks : Peeks m) :
    Ensures (System.onServer m) s fun _ s' => Talks sigList i s s' := by
  refine Ensures.zoom fun a server run => ?_
  obtain rfl : server = s.awakeServer := peeks.ensures _ a server run
  exact ⟨⟨.single .awake, .same rfl rfl⟩, rfl, rfl, rfl⟩

theorem service (allocated : (s.world.client i).stateFn ≠ none) (x : ι) (part : DumpPart) :
    Ensures (System.onServer (dumpNotice x part) >>= System.tell sigList i) s fun _ s' => Talks sigList i s s' := by
  have looked : Ensures (System.onServer (dumpNotice x part)) s fun _ s₁ =>
      s₁.server.loop.phase = s.server.loop.phase ∧ s₁.world = s.world ∧ SessionMove s s₁ := by
    refine Ensures.zoom ((dumpNotice_spec x part _).mono fun notice server line => ?_)
    cases line <;> exact ⟨rfl, rfl, .same rfl rfl⟩
  intro a s' run
  suffices same : Ensures (System.onServer (dumpNotice x part) >>= System.tell sigList i) s fun _ s' =>
      (∀ {line}, SysAct sigList line s s') → Talks sigList i s s' from same a s' run (.service i x part allocated run)
  refine looked.bind fun notice s₁ ⟨phase, world, move⟩ => ?_
  have written := (ctlWrite_spec (some i) (notice.message sigList) s₁.world).ensures
  refine (onWorld_sends (written.mono fun _ _ written => ⟨written.sends, trivial⟩)).mono ?_
  rintro _ _ ⟨w, rfl, sent, -⟩ act
  exact ⟨⟨.single act, move.trans (.same rfl rfl)⟩, phase, by rw [(sent.sameInput i).stateFn, world], by rw [(sent.sameInput i).recv, world]⟩

theorem notes (lastSignalTs : Fin n → ℤ) (waiting : Bool) :
    Talks sigList i s (withNotes s lastSignalTs s.dump s.interactive waiting) := ⟨quiet_notes .., rfl, rfl, rfl⟩

end Talks

theorem peeks_getParent (p : Ref ι) : Peeks (getParent p) := .bind (peeks_load p) fun _ => .pure _

theorem peeks_rbTreeNodeGetNext (fuel : ℕ) (node : Ref ι) : Peeks (rbTreeNodeGetNext fuel node) := by
  have down : ∀ node, Peeks (descendRound .left node : TreeM ι _) := fun node =>
    .bind (peeks_getChild ..) fun next => .ite (.pure _) (.pure _)
  have up : ∀ pair : Ref ι × Ref ι, Peeks (nextRound pair) := fun pair =>
    .bind (peeks_getChild ..) fun child => .ite (.bind (peeks_getParent _) fun _ => .pure _) (.pure _)
  refine .bind (peeks_getChild ..) fun right => .ite (.loop down fuel right) (.bind (peeks_getParent node) fun parent => ?_)
  exact .bind (.loop up fuel _) fun parent => .bind (peeks_getParent _) fun above => .ite (.pure _) (.pure _)

theorem peeks_iterNext (fuel : ℕ) (compare : Bytes → ι → ℤ) (current : Option ι) (fromName : Bytes) :
    Peeks (iterNext fuel compare current fromName) := by
  cases current with
  | some x => exact .bind (peeks_rbTreeNodeGetNext ..) fun _ => .pure _
  | none =>
    refine .bind (peeks_rbTreeFind ..) fun found => .ite (.pure _) (.ite (.pure _) ?_)
    exact .bind (peeks_rbTreeNodeGetNext ..) fun _ => .pure _

theorem peeks_onFdTable {m : FdM κ α} (peeks : Peeks m) : Peeks (onFdTable m : StateT (Server ι κ) Option α) :=
  .zoom peeks fun _ => rfl

theorem peeks_onSvcTable {m : SvcM ι α} (peeks : Peeks m) : Peeks (onSvcTable m : StateT (Server ι κ) Option α) :=
  .zoom peeks fun _ => rfl

theorem peeks_fdIterNext (current : Option κ) (fromName : Bytes) : Peeks (fdIterNext current fromName) :=
  .bind .get fun s => .bind .get fun _ => .zoom (peeks_iterNext ..) fun _ => rfl

theorem peeks_svcIterNext (svc : Option ι) (fromName : Bytes) : Peeks (svcIterNext svc fromName) :=
  .bind .get fun s => .bind .get fun _ => .zoom (peeks_iterNext ..) fun _ => rfl

section States

theorem deliverLoop_talks (allocated : (s.world.client i).stateFn ≠ none) (fuel : ℕ) :
    Ensures (System.deliverLoop sigList i fuel) s fun _ s' => Talks sigList i s s' := by
  induction fuel generalizing s with
  | zero => exact ensures_failure
  | succ fuel ih =>
    refine Ensures.get_bind ?_
    split
    · exact ensures_pure (.refl s)
    next event new =>
      refine (Talks.ready sigList allocated).bind ?_
      rintro ready _ ⟨waited, w, rfl⟩
      split
      · refine (Talks.tell fun s' run => .signal i (waited.allocated allocated) new run).bind fun _ s₂ told => Ensures.modify_bind ?_
        have noted : Talks sigList i s₂ _ := .notes (Function.update s₂.lastSignalTs i event.lastReceivedTs) s₂.waiting
        have here := (waited.trans told).trans noted
        exact (ih (here.allocated allocated)).mono fun _ _ later => here.trans later
      · exact ensures_pure waited

theorem dumpFdsLoop_talks (allocated : (s.world.client i).stateFn ≠ none) (fromName : Bytes) (fuel : ℕ) (fd : Option κ) :
    Ensures (System.dumpFdsLoop sigList i fromName fuel fd) s fun _ s' => Talks sigList i s s' := by
  induction fuel generalizing s fd with
  | zero => exact ensures_failure
  | succ fuel ih =>
    refine (Talks.peek sigList i (peeks_onFdTable (peeks_fdIterNext ..))).bind fun found s₁ looked => ?_
    cases found with
    | none => exact ensures_pure looked
    | some x =>
      refine (Talks.ready sigList (looked.allocated allocated)).bind ?_
      rintro ready _ ⟨waited, w, rfl⟩
      have here := looked.trans waited
      split
      · refine Ensures.get_bind ((Talks.tell fun s' run => .fd i x (here.allocated allocated) run).bind fun _ s₂ told => ?_)
        have here := here.trans told
        exact (ih (here.allocated allocated) (some x)).mono fun _ _ later => here.trans later
      · exact ensures_pure here

theorem resumeFds_talks (allocated : (s.world.client i).stateFn ≠ none) (pos : DumpPos) (fd : Option κ) :
    Ensures (System.resumeFds sigList i pos fd) s fun _ s' => Talks sigList i s s' := by
  refine Ensures.get_bind ?_
  split
  · next x part due =>
    refine (Talks.ready sigList allocated).bind ?_
    rintro ready _ ⟨waited, w, rfl⟩
    split
    · refine (Talks.tell fun s' run => .fd i x (waited.allocated allocated) run).bind fun _ s₂ told => ?_
      have here := waited.trans told
      exact (dumpFdsLoop_talks (here.allocated allocated) _ _ _).mono fun _ _ later => here.trans later
    · exact ensures_pure waited
  · exact dumpFdsLoop_talks allocated _ _ _

theorem ctlStateDumpFds_acts (here : (s.world.client i).stateFn = some .dumpFds) :
    Ensures (System.ctlStateDumpFds sigList i) s fun _ s' => Quiet sigList line s s' := by
  refine Ensures.get_bind ((Talks.peek sigList i (peeks_onFdTable (peeks_fdByName _))).bind fun fd s₁ looked => ?_)
  refine (resumeFds_talks (looked.allocated (by simp [here])) _ fd).bind fun stopped s₂ resumed => ?_
  have talks := looked.trans resumed
  cases stopped with
  | some x =>
    refine Ensures.modify_bind (ensures_pure (talks.acts.trans ?_))
    exact quiet_notes s₂.lastSignalTs (Function.update s₂.dump i ⟨(s₂.server.fds.objects x).name, some .state⟩) s₂.waiting
  | none =>
    refine Ensures.modify_bind fun _ s' run => ?_
    have noted : Quiet sigList line s _ :=
      talks.acts.trans (quiet_notes s₂.lastSignalTs (Function.update s₂.dump i {}) s₂.waiting)
    exact noted.trans (quiet_control (.dump i .fds (talks.stateFn.trans here)) run)

theorem dumpParts_talks (allocated : (s.world.client i).stateFn ≠ none) (x : ι) (parts : List DumpPart) :
    Ensures (System.dumpParts sigList i x parts) s fun _ s' => Talks sigList i s s' := by
  induction parts generalizing s with
  | nil => exact ensures_pure (.refl s)
  | cons part rest ih =>
    refine (Talks.ready sigList allocated).bind ?_
    rintro ready _ ⟨waited, w, rfl⟩
    split
    · suffices dumped : Ensures ((System.onServer (dumpNotice x part) >>= System.tell sigList i) >>= fun _ => System.dumpParts sigList i x rest)
          { s with world := w } fun _ s' => Talks sigList i s s' by
        rwa [bind_assoc] at dumped
      refine (Talks.service (waited.allocated allocated) x part).bind fun _ s₂ told => ?_
      have here := waited.trans told
      exact (ih (here.allocated allocated)).mono fun _ _ later => here.trans later
    · exact ensures_pure waited

theorem dumpServicesLoop_talks (allocated : (s.world.client i).stateFn ≠ none) (fromName : Bytes) (fuel : ℕ) (svc : Option ι) :
    Ensures (System.dumpServicesLoop sigList i fromName fuel svc) s fun _ s' => Talks sigList i s s' := by
  induction fuel generalizing s svc with
  | zero => exact ensures_failure
  | succ fuel ih =>
    refine (Talks.peek sigList i (peeks_onSvcTable (peeks_svcIterNext ..))).bind fun found s₁ looked => ?_
    cases found with
    | none => exact ensures_pure looked
    | some x =>
      refine (dumpParts_talks (looked.allocated allocated) x _).bind fun stopped s₂ dumped => ?_
      have here := looked.trans dumped
      cases stopped with
      | none => exact (ih (here.allocated allocated) (some x)).mono fun _ _ later => here.trans later
      | some part => exact ensures_pure here

theorem resumeServices_talks (allocated : (s.world.client i).stateFn ≠ none) (pos : DumpPos) (svc : Option ι) :
    Ensures (System.resumeServices sigList i pos svc) s fun _ s' => Talks sigList i s s' := by
  refine Ensures.get_bind ?_
  split
  · refine (dumpParts_talks allocated _ _).bind fun stopped s₁ dumped => ?_
    cases stopped with
    | none => exact (dumpServicesLoop_talks (dumped.allocated allocated) _ _ _).mono fun _ _ later => dumped.trans later
    | some part => exact ensures_pure dumped
  · exact dumpServicesLoop_talks allocated _ _ _

theorem ctlStateDumpServices_acts (here : (s.world.client i).stateFn = some .dumpServices) :
    Ensures (System.ctlStateDumpServices sigList i) s fun _ s' => Quiet sigList line s s' := by
  refine Ensures.get_bind ((Talks.peek sigList i (peeks_onSvcTable (peeks_svcByName _))).bind fun svc s₁ looked => ?_)
  refine (resumeServices_talks (looked.allocated (by simp [here])) _ svc).bind fun stopped s₂ resumed => ?_
  have talks := looked.trans resumed
  cases stopped with
  | some found =>
    refine Ensures.modify_bind (ensures_pure (talks.acts.trans ?_))
    exact quiet_notes s₂.lastSignalTs (Function.update s₂.dump i ⟨(s₂.server.loop.daemon.objects found.1).name, some found.2⟩)
      s₂.waiting
  | none =>
    refine Ensures.modify_bind fun _ s' run => ?_
    have noted : Quiet sigList line s _ := talks.acts.trans (quiet_notes (Function.update s₂.lastSignalTs i 0)
      (Function.update s₂.dump i { s₂.dump i with substate := none }) s₂.waiting)
    exact noted.trans (quiet_control (.dump i .services (talks.stateFn.trans here)) run)

theorem ctlStateNextCommand_acts (here : (s.world.client i).stateFn = some .nextCommand) :
    Ensures (System.ctlStateNextCommand sigList i) s fun _ s' => Quiet sigList line s s' := by
  refine (deliverLoop_talks (by simp [here]) _).bind fun done s₁ delivered => ?_
  split
  · exact fun _ _ run => delivered.acts.trans (quiet_control (.next i (delivered.stateFn.trans here)) run)
  · exact ensures_pure delivered.acts

theorem ctlStateDumpSignals_acts (here : (s.world.client i).stateFn = some .dumpSignals) :
    Ensures (System.ctlStateDumpSignals sigList i) s fun _ s' => Quiet sigList line s s' := by
  refine (deliverLoop_talks (by simp [here]) _).bind fun done s₁ delivered => ?_
  split
  · exact fun _ _ run => delivered.acts.trans (quiet_control (.dump i .signals (delivered.stateFn.trans here)) run)
  · exact ensures_pure delivered.acts

/-- The line that waits for a controller, if it is to be executed. -/
def Waits (line : Bytes × StrSeg → Prop) (s : System n ι κ) (i : Fin n) : Prop :=
  (s.world.client i).stateFn = some .runCommand → (s.world.client i).recv.overflow = false → line (s.commandLine i)

theorem ctlStateRunCommand_acts (phase : s.server.loop.phase = .commands)
    (here : (s.world.client i).stateFn = some .runCommand) (waits : Waits line s i) (env : CallEnv ι κ) :
    Ensures (System.ctlStateRunCommand sigList i env) s fun _ s' => SysActs sigList line s s' := by
  refine (Talks.ready sigList (by simp [here])).bind ?_
  rintro ready _ ⟨waited, w, rfl⟩
  split
  swap
  · exact ensures_pure waited.acts.acts
  have parked : (w.client i).stateFn = some .runCommand := waited.stateFn.trans here
  -- the state is left before the line is looked at
  have left : Ensures (System.onWorld (modify (·.setState i .endCommand))) { s with world := w } fun _ s' =>
      SysActs sigList line s s' ∧ s'.server.loop.phase = .commands ∧ (s'.world.client i).stateFn = some .endCommand ∧
        (s'.world.client i).recv = (s.world.client i).recv := by
    have moved : Ensures (modify (·.setState i .endCommand)) w fun _ w' =>
        Stays w w' ∧ (w'.client i).stateFn = some .endCommand ∧ (w'.client i).recv = (w.client i).recv :=
      ensures_modify ⟨stays_setState w i (by rintro ⟨⟩), by simp [World.setState], by simp [World.setState]⟩
    have stays := onWorld_stays (s := { s with world := w }) moved
    intro a s' run
    obtain ⟨server, -, -, ended, recv⟩ := stays a s' run
    exact ⟨waited.acts.acts.tail (.control (.run i parked) run), by rw [server, phase], ended, recv.trans waited.recv⟩
  refine left.bind fun _ s₂ result => Ensures.get_bind ?_
  obtain ⟨acts, phase, ended, recv⟩ := result
  split
  case isTrue cut =>
    have rejected : Ensures (System.onWorld (System.rejectLongLine i)) s₂ fun _ s' => SysActs sigList line s s' :=
      fun _ _ run => acts.tail (.control (.reject i ended cut) run)
    exact rejected.bind fun _ _ acts => ensures_pure acts
  case isFalse whole =>
    replace whole : (s₂.world.client i).recv.overflow = false := by simpa using whole
    have known : line (s₂.commandLine i) := by
      rw [System.commandLine, recv]
      exact waits here (by rw [← recv, whole])
    have dispatched : Ensures (System.dispatchLine sigList i env) s₂ fun _ s' => SysActs sigList line s s' :=
      fun _ _ run => acts.tail (.dispatch i env phase ended whole known run)
    exact dispatched.bind fun _ _ acts => ensures_pure acts

/-- A state function other than `ctl_state_run_command`. -/
theorem callState_quiet {state : CtlState} (here : (s.world.client i).stateFn = some state) (idle : state ≠ .runCommand)
    (env : CallEnv ι κ) : Ensures (System.callState sigList i env state) s fun _ s' => Quiet sigList line s s' := by
  cases state with
  | nextCommand => exact ctlStateNextCommand_acts here
  | runCommand => exact absurd rfl idle
  | dumpFds => exact ctlStateDumpFds_acts here
  | dumpServices => exact ctlStateDumpServices_acts here
  | dumpSignals => exact ctlStateDumpSignals_acts here
  | endCommand => exact fun _ _ run => quiet_control (.finish i here) run
  | close => exact fun _ _ run => quiet_control (.close i here) run
  | free => exact fun _ _ run => quiet_control (.free i here) run

theorem callState_acts (phase : s.server.loop.phase = .commands) {state : CtlState} (here : (s.world.client i).stateFn = some state)
    (waits : Waits line s i) (env : CallEnv ι κ) :
    Ensures (System.callState sigList i env state) s fun _ s' => SysActs sigList line s s' := by
  by_cases parked : state = .runCommand
  · subst parked
    exact ctlStateRunCommand_acts phase here waits env
  · exact (callState_quiet here parked env).mono fun _ _ quiet => quiet.acts

theorem iterate_acts (phase : s.server.loop.phase = .commands) (waits : Waits line s i) (env : CallEnv ι κ) (last : Bool) :
    Ensures (System.iterate sigList i env last) s fun _ s' => SysActs sigList line s s' := by
  refine Ensures.get_bind ?_
  cases here : (s.world.client i).stateFn with
  | none => exact ensures_pure .refl
  | some state =>
    refine (callState_acts phase here waits env).bind fun again s₁ acts => Ensures.get_bind ?_
    split
    case isTrue freed =>
      have free : (s₁.world.client i).stateFn = some .free := by
        simp only [Bool.and_eq_true, decide_eq_true_eq] at freed
        exact freed.2
      have done : Ensures (System.onWorld (ctlStateFree i)) s₁ fun _ s' => SysActs sigList line s s' :=
        fun _ _ run => acts.tail (.control (.free i free) run)
      exact done.bind fun _ _ acts => ensures_pure acts
    case isFalse => exact ensures_pure acts

end States

end DaemonProxy.Proofs
