import DaemonProxy.Proofs.SystemSteps

/-! # The daemon beside its controllers

What the acts of the daemon do to everything but its controllers: a command is called, the main loop takes a step, a handle is
registered, and a few settings change. An invariant of this part is proved for these, with nothing said of controllers.
-/

namespace DaemonProxy.Proofs

open Lib Model

variable {n : ℕ} {ι κ : Type} [DecidableEq ι] [DecidableEq κ] {sigList : List SigListItem} {line : Bytes × StrSeg → Prop}

/-- What an act of the daemon does beside its controllers; `line` is what is known of the lines that are executed. -/
inductive ServerAct (sigList : List SigListItem) (line : Bytes × StrSeg → Prop) (s : Server ι κ) : Server ι κ → Prop
  | call {env : CallEnv ι κ} {passed : Option ℤ} {name : Bytes} {args : StrSeg} {input : CallInput} {s' : Server ι κ}
      (phase : s.loop.phase = .commands) (known : line (name, args))
      (called : (System.serverCall sigList env passed name args).run s = some (input, s')) : ServerAct sigList line s s'
  | step {event : LoopEvent ι} {loop : Supervisor ι} (step : loopStep sigList s.loop event = some loop) :
      ServerAct sigList line s { s with loop }
  | next (next : ℤ) :
      ServerAct sigList line s { s with loop := { s.loop with daemon := { s.loop.daemon with next } } }
  /-- A line of `statedump`. -/
  | report (x : ι) :
      ServerAct sigList line s { s with
        loop := { s.loop with
          daemon := { s.loop.daemon with
            history := s.loop.daemon.history ++
              [.reported x (s.loop.daemon.objects x).state s.loop.daemon.now (noticeOf (s.loop.daemon.objects x))] } } }
  | register (k : ℕ) (fdnum : ℤ) (flags : FdFlags) (mem : Option κ) {s' : Server ι κ}
      (run : (System.registerFd k fdnum flags mem).run s = some (⟨⟩, s')) : ServerAct sigList line s s'
  | log (log : LogState) : ServerAct sigList line s { s with log }
  | exit (terminate : Bool) : ServerAct sigList line s { s with terminate }

abbrev ServerActs (sigList : List SigListItem) (line : Bytes × StrSeg → Prop) : Server ι κ → Server ι κ → Prop :=
  Relation.ReflTransGen (ServerAct sigList line)

variable {I : Server ι κ → Prop}

theorem ServerActs.preserve {s s' : Server ι κ} (kept : ∀ s s', I s → ServerAct sigList line s s' → I s')
    (acts : ServerActs sigList line s s') (holds : I s) : I s' := by
  induction acts with
  | refl => exact holds
  | tail _ act ih => exact kept _ _ ih act

variable {server : Server ι κ} {env : CallEnv ι κ} {passed : Option ℤ} {name : Bytes} {args : StrSeg} {command : ServerCommand}

/-- A command that is called ends as its handler does. -/
theorem serverCall_settles {server' : Server ι κ} (found : findServerCommand name = some command) {input : CallInput}
    (called : (System.serverCall sigList env passed name args).run server = some (input, server'))
    {post : Call ι κ → Prop} {refused : Bytes → Call ι κ → Prop}
    (settles : Settles (serverHandler sigList passed env command) ⟨server, args, []⟩ (fun _ => post) refused) :
    ∃ c : Call ι κ, c.server = server' ∧ input.writes = c.out.map (fun (toAll, notice) => (toAll, notice.message sigList)) ∧
      (input.error = none ∧ post c ∨ ∃ text, input.error = some text ∧ refused text c) := by
  simp only [System.serverCall, StateT.run, found] at called
  obtain ⟨outcome, ran, same⟩ := Option.map_eq_some_iff.mp called
  cases same
  obtain ⟨⟨result, c⟩, ended, rfl⟩ := Option.map_eq_some_iff.mp ran
  refine ⟨c, rfl, rfl, ?_⟩
  rcases settles.of_run ended with ⟨_, rfl, holds⟩ | ⟨text, rfl, holds⟩
  · exact .inl ⟨rfl, holds⟩
  · exact .inr ⟨text, rfl, holds⟩

/-- The call of a command is a run of its handler. -/
theorem serverCall_run (found : findServerCommand name = some command) :
    (System.serverCall sigList env passed name args).run server =
      ((serverHandler sigList passed env command).run.run ⟨server, args, []⟩ |>.map fun (result, c) =>
        (⟨[], c.out.map fun (toAll, notice) => (toAll, notice.message sigList), match result with
          | .ok _ => none
          | .error text => some text⟩, c.server)) := by
  simp only [System.serverCall, StateT.run, found, runServerCommand, Option.map_map]
  rfl

/-- A command whose handler ends is called with a result. -/
theorem serverCall_finishes (found : findServerCommand name = some command) {post : Call ι κ → Prop}
    {refused : Bytes → Call ι κ → Prop}
    (finishes : Finishes (serverHandler sigList passed env command) ⟨server, args, []⟩ (fun _ => post) refused) :
    ∃ input c, (System.serverCall sigList env passed name args).run server = some (input, c.server) ∧
      input.writes = c.out.map (fun (toAll, notice) => (toAll, notice.message sigList)) ∧
      (input.error = none ∧ post c ∨ ∃ text, input.error = some text ∧ refused text c) := by
  obtain ⟨result, c, ended, holds⟩ := finishes.ends
  replace ended : (serverHandler sigList passed env command).run.run ⟨server, args, []⟩ = some (result, c) := ended
  have ran : (System.serverCall sigList env passed name args).run server = _ := serverCall_run found
  rw [ended] at ran
  refine ⟨_, c, ran, rfl, ?_⟩
  cases result with
  | ok _ => exact .inl ⟨rfl, holds⟩
  | error text => exact .inr ⟨text, rfl, holds⟩

/-- What the handlers keep, a call keeps. -/
theorem serverCall_keeps {server' : Server ι κ} {input : CallInput} (holds : I server)
    (kept : ∀ command, findServerCommand name = some command →
      Settles (serverHandler sigList passed env command) ⟨server, args, []⟩ (fun _ c => I c.server) fun _ c => I c.server)
    (called : (System.serverCall sigList env passed name args).run server = some (input, server')) : I server' := by
  cases found : findServerCommand name with
  | none =>
    simp only [System.serverCall, StateT.run, found] at called
    cases called
    exact holds
  | some command =>
    obtain ⟨c, rfl, -, ⟨-, after⟩ | ⟨_, -, after⟩⟩ := serverCall_settles found called (kept command found)
    · exact after
    · exact after

/-! ## Acts -/

variable {s s' : System n ι κ}

/-- A function on the controllers may end the interactive session, and with it the daemon. -/
theorem onWorld_server {α : Type} (m : CtlM n α) (s : System n ι κ) :
    Ensures (System.onWorld m) s fun _ s' => ∃ terminate, s'.server = { s.server with terminate } := by
  have zoomed : Ensures (zoom System.world (fun world s => { s with world }) m) s fun _ s₁ => s₁.server = s.server :=
    Ensures.zoom fun _ _ _ => rfl
  refine Ensures.get_bind (zoomed.bind fun a s₁ same => Ensures.modify_bind (ensures_pure ?_))
  rw [← same, System.noteClients]
  dsimp only
  split
  · rw [System.mainNotifyControllerFreed]
    split
    · exact ⟨true, rfl⟩
    · exact ⟨_, rfl⟩
  · exact ⟨_, rfl⟩

theorem awake_acts (s : System n ι κ) : ServerActs sigList line s.server s.awakeServer := .single (.next _)

/-- A function on the controllers, after others. -/
theorem onWorld_acts {α : Type} (m : CtlM n α) (acts : ServerActs sigList line server s.server) :
    Ensures (System.onWorld m) s fun _ s' => ServerActs sigList line server s'.server := by
  refine (onWorld_server m s).mono ?_
  rintro _ s' ⟨terminate, same⟩
  rw [same]
  exact acts.tail (.exit terminate)

theorem dispatchLine_acts {i : Fin n} (phase : s.server.loop.phase = .commands) (known : line (s.commandLine i)) :
    Ensures (System.dispatchLine sigList i env) s fun _ s' => ServerActs sigList line s.server s'.server := by
  refine Ensures.get_bind ?_
  have called : Ensures (System.onServer (System.serverCall sigList env (s.world.client i).recv.ancillaryFd.head?
      (s.commandLine i).1 (s.commandLine i).2)) s fun _ s₁ => ServerActs sigList line s.server s₁.server :=
    Ensures.zoom fun input server run => (awake_acts s).tail (.call phase known run)
  refine called.bind fun input s₁ acts => (onWorld_acts _ acts).bind fun _ s₂ acts => ?_
  split
  · exact ensures_modify acts
  · exact ensures_pure acts

theorem dumpNotice_acts {i : Fin n} (x : ι) (part : DumpPart) :
    Ensures (System.onServer (dumpNotice x part) >>= System.tell sigList i) s fun _ s' =>
      ServerActs sigList line s.server s'.server := by
  have looked : Ensures (System.onServer (dumpNotice x part)) s fun _ s₁ => ServerActs sigList line s.server s₁.server := by
    refine Ensures.zoom ((dumpNotice_spec x part _).mono fun _ server line => ?_)
    cases line with
    | state => exact (awake_acts s).tail (.report x)
    | _ => exact awake_acts s
  exact looked.bind fun notice s₁ acts => onWorld_acts _ acts

/-- An act of the daemon, beside its controllers. -/
theorem SysAct.serverActs (act : SysAct sigList line s s') :
    ServerActs sigList line s.server s'.server := by
  cases act with
  | control _ run | clock _ run | signal i _ _ run | fd i x _ run | report _ run => exact onWorld_acts _ .refl _ _ run
  | service i x part _ run => exact dumpNotice_acts x part _ _ run
  | dispatch i env phase here whole known run => exact dispatchLine_acts phase known _ _ run
  | loop event run =>
    have stepped : Ensures (System.onLoop (loopProgram sigList event)) s fun _ s' => ServerActs sigList line s.server s'.server := by
      refine Ensures.zoom (Ensures.zoom fun _ loop run => ?_)
      have step : loopStep sigList s.awakeServer.loop event = some loop := by rw [loopStep, run]; rfl
      exact (awake_acts s).tail (.step step)
    exact stepped _ _ run
  | register k fdnum flags mem run =>
    have registered : Ensures (System.onServer (System.registerFd k fdnum flags mem)) s fun _ s' =>
        ServerActs sigList line s.server s'.server :=
      Ensures.zoom fun _ server run => (awake_acts s).tail (.register k fdnum flags mem run)
    exact registered _ _ run
  | log log => exact .single (.log log)
  | logTime | logWriteable | crowded | notes => exact .refl
  | awake => exact awake_acts s

/-- What every act keeps beside the controllers holds in every state that is reached. -/
theorem server_reached {start s : System n ι κ} {events : List (System.Event n ι κ)} (holds : I start.server)
    (kept : ∀ s s', I s → ServerAct sigList (fun _ => True) s s' → I s')
    (reached : exec? (System.step sigList) start events = some s) : I s.server := by
  refine reached_of_acts (I := fun s => I s.server) holds (fun s s' holds act => ?_) reached
  exact act.serverActs.preserve kept holds

/-- The same where something is known of the lines that are executed. -/
theorem server_reached_along {start s : System n ι κ} {events : List (System.Event n ι κ)}
    (holds : I start.server) (kept : ∀ s s', I s → ServerAct sigList line s s' → I s')
    (along : Along? (System.step sigList) (LineMeets line) start events)
    (reached : exec? (System.step sigList) start events = some s) : I s.server := by
  refine reached_along (I := fun s => I s.server) holds (fun s s' holds act => ?_) along reached
  exact act.serverActs.preserve kept holds

end DaemonProxy.Proofs
