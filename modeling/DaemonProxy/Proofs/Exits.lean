import DaemonProxy.Proofs.SystemSteps

/-! # What a step does to the exit of the daemon

It executes one of the commands for it, or the interactive session ends, or the exit stays as it is.
-/

namespace DaemonProxy.Proofs

open Lib Model

variable {n : ℕ} {ι κ : Type} [DecidableEq ι] [DecidableEq κ] {sigList : List SigListItem} {s : System n ι κ} {i : Fin n}

/-- What the command in the buffer of a controller does to the exit. -/
def lineExits (s : System n ι κ) (i : Fin n) : ExitFlags :=
  match findServerCommand (s.commandLine i).1 with
  | none => exitFlags s.server
  | some command => commandExits command (s.commandLine i).2 (exitFlags s.server)

theorem serverCall_exitFlags (env : CallEnv ι κ) (passed : Option ℤ) (name : Bytes) (args : StrSeg) (server : Server ι κ) :
    Ensures (System.serverCall sigList env passed name args) server fun _ server' => exitFlags server' =
      match findServerCommand name with
      | none => exitFlags server
      | some command => commandExits command args (exitFlags server) := by
  intro input server' run
  simp only [System.serverCall, StateT.run] at run
  cases found : findServerCommand name with
  | none =>
    rw [found] at run
    cases run
    rfl
  | some command =>
    rw [found] at run
    obtain ⟨outcome, ran, same⟩ := Option.map_eq_some_iff.mp run
    cases same
    exact runServerCommand_exitFlags ran

theorem dispatchLine_exits (env : CallEnv ι κ) :
    Ensures (System.dispatchLine sigList i env) s fun _ s' => exitFlags s'.server = lineExits s i ∧ Stays s.world s'.world := by
  refine Ensures.get_bind ?_
  have called : Ensures (System.onServer (System.serverCall sigList env (s.world.client i).recv.ancillaryFd.head?
      (s.commandLine i).1 (s.commandLine i).2)) s fun _ s₁ => exitFlags s₁.server = lineExits s i ∧ Stays s.world s₁.world :=
    Ensures.zoom ((serverCall_exitFlags env _ _ _ _).mono fun _ _ flags => ⟨flags, stays_of_client rfl⟩)
  refine called.bind fun input s₁ ⟨flags, stays⟩ => ?_
  have dispatched := onWorld_stays (s := s₁) ((dispatchLine_stays i input s₁.world).ensures.mono fun _ _ stays => ⟨stays, trivial⟩)
  refine dispatched.bind fun _ s₂ ⟨server, _, stays', _⟩ => ?_
  have done : exitFlags s₂.server = lineExits s i ∧ Stays s.world s₂.world := ⟨by rw [server, flags], stays.trans stays'⟩
  split
  · exact ensures_modify done
  · exact ensures_pure done

/-- `ctl_state_run_command` does to the exit what the command does, if it is executed. -/
theorem ctlStateRunCommand_exits (parked : (s.world.client i).stateFn = some .runCommand) (env : CallEnv ι κ) :
    Ensures (System.ctlStateRunCommand sigList i env) s fun _ s' =>
      (exitFlags s'.server = exitFlags s.server ∨ exitFlags s'.server = lineExits s i) ∧ Stays s.world s'.world := by
  have allocated : (s.world.client i).stateFn ≠ none := by simp [parked]
  have waited : Ensures (System.onWorld (ctlOutBufReady i)) s fun _ s' => s'.server = s.server ∧
      s'.interactive = s.interactive ∧ Stays s.world s'.world ∧ (s'.world.client i).recv = (s.world.client i).recv :=
    onWorld_stays ((ctlOutBufReady_spec allocated).ensures.mono fun _ _ sent =>
      ⟨sent.1.sends.stays, (sent.1.sends.sameInput i).recv⟩)
  refine waited.bind fun ready s₁ result => ?_
  obtain ⟨server, _, stays, recv⟩ := result
  cases ready with
  | false => exact ensures_pure ⟨.inl (by rw [server]), stays⟩
  | true =>
    have moved : Ensures (modify (·.setState i .endCommand)) s₁.world fun _ w =>
        Stays s₁.world w ∧ (w.client i).recv = (s₁.world.client i).recv :=
      ensures_modify ⟨stays_setState s₁.world i (by rintro ⟨⟩), by simp [World.setState]⟩
    have parked' : Ensures (System.onWorld (modify (·.setState i .endCommand))) s₁ fun _ s' => s'.server = s₁.server ∧
        s'.interactive = s₁.interactive ∧ Stays s₁.world s'.world ∧ (s'.world.client i).recv = (s₁.world.client i).recv := onWorld_stays moved
    refine parked'.bind fun _ s₂ result => Ensures.get_bind ?_
    obtain ⟨server', _, stays', recv'⟩ := result
    have same : exitFlags s₂.server = exitFlags s.server := by rw [server', server]
    split
    · have rejected : Ensures (System.onWorld (System.rejectLongLine i)) s₂ fun _ s' => s'.server = s₂.server ∧
          s'.interactive = s₂.interactive ∧ Stays s₂.world s'.world ∧ True :=
        onWorld_stays ((rejectLongLine_stays i s₂.world).ensures.mono fun _ _ stays => ⟨stays, trivial⟩)
      refine rejected.bind fun _ s₃ result => ?_
      obtain ⟨server₃, _, stays₃, _⟩ := result
      exact ensures_pure ⟨.inl (by rw [server₃, same]), stays.trans (stays'.trans stays₃)⟩
    · refine (dispatchLine_exits env).bind fun _ s₃ result => ?_
      obtain ⟨flags, stays₃⟩ := result
      refine ensures_pure ⟨.inr ?_, stays.trans (stays'.trans stays₃)⟩
      have line : s₂.commandLine i = s.commandLine i := by rw [System.commandLine, recv', recv, System.commandLine]
      rw [flags, lineExits, line, same, lineExits]

/-- What a step does to the exit. -/
inductive ExitMove (s : System n ι κ) (event : System.Event n ι κ) (s' : System n ι κ) : Prop
  | session (move : SessionMove s s')
  | same (flags : exitFlags s'.server = exitFlags s.server)
  | command (i : Fin n) (env : CallEnv ι κ) (last : Bool) (replies : Fin n → List WriteReply)
      (called : event = .call i env last replies) (parked : (s.world.client i).stateFn = some .runCommand)
      (flags : exitFlags s'.server = lineExits s i)

theorem iterate_exits (env : CallEnv ι κ) (last : Bool) (replies : Fin n → List WriteReply) :
    Ensures (System.iterate sigList i env last) s fun _ s' => ExitMove s (.call i env last replies) s' := by
  refine Ensures.get_bind ?_
  cases here : (s.world.client i).stateFn with
  | none => exact ensures_pure (.session (.refl s))
  | some state =>
    by_cases parked : state = .runCommand
    · subst parked
      refine (ctlStateRunCommand_exits here env).bind fun again s₁ ⟨flags, stays⟩ => Ensures.get_bind ?_
      have alive : (s₁.world.client i).stateFn ≠ some .free := stays.alive i (by simp [here])
      rw [decide_eq_false alive, Bool.and_false]
      refine ensures_pure ?_
      rcases flags with same | line
      · exact .same same
      · exact .command i env last replies rfl here line
    · have called : Ensures (System.callState sigList i env state) s fun _ s' => Quiet sigList (fun _ => True) s s' :=
        callState_quiet here parked env
      refine called.bind fun again s₁ quiet => Ensures.get_bind ?_
      split
      · exact (onWorld_moves _ s₁).bind fun _ _ later => ensures_pure (.session (quiet.move.trans later))
      · exact ensures_pure (.session quiet.move)

theorem program_exits (event : System.Event n ι κ) :
    Ensures (System.program sigList event) s fun _ s' => ExitMove s event s' := by
  by_cases called : ∃ i env last replies, event = .call i env last replies
  · obtain ⟨i, env, last, replies, rfl⟩ := called
    refine during_ensures fun _ _ => (setReplies_same replies s).bind fun _ s₁ ⟨server, session, _, client⟩ => ?_
    refine (iterate_exits env last replies).mono fun _ s₂ move => ?_
    have line : lineExits s₁ i = lineExits s i := by simp only [lineExits, System.commandLine, client, server]
    cases move with
    | session move => exact .session ((SessionMove.same (by rw [server]) session).trans move)
    | same flags => exact .same (by rw [flags, server])
    | command i' env' last' replies' called parked flags =>
      cases called
      exact .command i env last replies rfl (by rwa [← client]) (by rw [flags, line])
  by_cases main : ∃ nonblock, event = .newInteractive nonblock
  · obtain ⟨nonblock, rfl⟩ := main
    have started : Ensures (System.setupInteractiveMode nonblock) s fun _ s' =>
        SysActs sigList (fun _ => True) s s' ∧ exitFlags s'.server = exitFlags s.server := setupInteractiveMode_acts sigList nonblock s
    exact during_ensures fun _ _ => started.mono fun _ _ result => .same result.2
  · have quiet : Acts sigList (System.program sigList event) := program_quiet sigList (by simpa using called) (by simpa using main)
    have ran : Ensures (System.program sigList event) s fun _ s' => Quiet sigList (fun _ => True) s s' := quiet.quiet s
    exact ran.mono fun _ _ quiet => .session quiet.move

theorem step_exits {event : System.Event n ι κ} {s' : System n ι κ} (step : System.step sigList s event = some s') :
    ExitMove s event s' := by
  obtain ⟨⟨_, final⟩, run, rfl⟩ := Option.map_eq_some_iff.mp step
  exact program_exits event _ _ run

end DaemonProxy.Proofs
