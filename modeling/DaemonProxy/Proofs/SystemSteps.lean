import DaemonProxy.Proofs.SystemTalks

/-! # Steps as sequences of acts

Every step of the daemon consists of acts, so what the acts keep holds in every state that is reached.
-/

namespace DaemonProxy.Proofs

open Lib Model

variable {n : ℕ} {ι κ : Type} [DecidableEq ι] [DecidableEq κ] {α β : Type} {sigList : List SigListItem}
  {line : Bytes × StrSeg → Prop}

section Steps

variable (sigList : List SigListItem)

theorem broadcast_acts (notices : List Notice) {s : System n ι κ}
    (happened : ∀ notice ∈ notices, notice ∈ reports s.server.loop.daemon.history) :
    Ensures (System.broadcast sigList notices) s fun _ s' => Quiet sigList line s s' := by
  induction notices generalizing s with
  | nil => exact ensures_pure (.refl s)
  | cons notice rest ih =>
    obtain ⟨head, tail⟩ := List.forall_mem_cons.mp happened
    -- what is reported are changes of state
    have act : ∀ s', (System.onWorld (ctlWrite none (notice.message sigList))).run s = some (⟨⟩, s') → SysAct sigList line s s' := by
      obtain ⟨record, member, same⟩ := List.mem_filterMap.mp head
      cases record with
      | reported x state now svc =>
        cases same
        exact fun _ run => .report member run
      | _ => exact nomatch same
    have told : Ensures (System.onWorld (ctlWrite none (notice.message sigList))) s fun _ s' =>
        Quiet sigList line s s' ∧ s'.server = s.server := by
      intro _ s' run
      have sends : Ensures (ctlWrite none (notice.message sigList)) s.world fun _ w => Sends s.world w ∧ True :=
        (ctlWrite_spec _ _ _).ensures.mono fun _ _ written => ⟨written.sends, trivial⟩
      obtain ⟨w, rfl, -⟩ := onWorld_sends sends _ _ run
      exact ⟨quiet_onWorld (act _ run) run, rfl⟩
    refine told.bind fun _ s₁ ⟨acts, same⟩ => ?_
    exact (ih (by rwa [same])).mono fun _ _ later => acts.trans later

theorem outputAll_acts (clients : List (Fin n)) : Acts sigList (System.outputAll clients : SysM n ι κ Unit) := by
  induction clients with
  | nil => exact .pure _
  | cons i rest ih => exact .bind (.control fun w => .output i) fun _ => ih

theorem logRun_acts (ready : ℤ → Bool) (replies : List LogReply) : Acts sigList (System.logRun ready replies : SysM n ι κ Unit) := by
  refine .get_bind fun s => .bind ⟨fun s₁ => ?_⟩ fun wake => ?_
  · exact Ensures.zoom fun _ log _ => ⟨.single (.log log), .same rfl rfl⟩
  · split
    · exact .pure _
    · exact .modify (fun s => .logTime _) fun _ => ⟨rfl, rfl⟩
    · exact .modify (fun s => .logWriteable _) fun _ => ⟨rfl, rfl⟩

theorem loop_acts (event : LoopEvent ι) : Acts sigList (System.onLoop (loopProgram sigList event) : SysM n ι κ Unit) := by
  have moves (s : System n ι κ) : Ensures (System.onLoop (loopProgram sigList event)) s fun _ s' => SessionMove s s' :=
    Ensures.zoom (Ensures.zoom fun _ _ _ => .same rfl rfl)
  exact ⟨fun s a s' run => ⟨.single (.loop event run), moves s a s' run⟩⟩

theorem register_acts (k : ℕ) (fdnum : ℤ) (flags : FdFlags) (mem : Option κ) :
    Acts sigList (System.onServer (System.registerFd k fdnum flags mem) : SysM n ι κ Unit) := by
  refine ⟨fun s a s' run => ⟨.single (.register k fdnum flags mem run), ?_⟩⟩
  have moves : Ensures (System.onServer (System.registerFd k fdnum flags mem)) s fun _ s' => SessionMove s s' := by
    refine Ensures.zoom ((registerFd_handles k fdnum flags mem _).mono ?_)
    rintro _ _ ⟨fds, openFds, rfl⟩
    exact .same rfl rfl
  exact moves a s' run

theorem mainTop_acts (t : Timespec) (ready : ℤ → Bool) (logReplies : List LogReply) :
    Acts sigList (System.mainTop sigList t ready logReplies : SysM n ι κ Unit) := by
  refine ⟨fun {line} s => Ensures.get_bind ?_⟩
  split
  · exact ensures_failure
  have timed : Ensures (System.onLoop (loopProgram sigList (.iterate t))) s fun _ s₁ =>
      Quiet sigList line s s₁ ∧ s₁.server.loop.daemon.now = gettimeMonFrac t := by
    have now : Ensures (System.onLoop (loopProgram sigList (.iterate t))) s fun _ s₁ => s₁.server.loop.daemon.now = gettimeMonFrac t := by
      refine Ensures.zoom (Ensures.zoom (Ensures.get_bind ?_))
      dsimp only
      split
      · exact ensures_failure
      split
      · exact ensures_failure
      · exact ensures_modify rfl
    exact fun _ s₁ run => ⟨(loop_acts sigList _).quiet s _ s₁ run, now _ s₁ run⟩
  refine timed.bind fun _ s₁ result => Ensures.modify_bind ?_
  obtain ⟨acts, now⟩ := result
  have noted := acts.trans (quiet_notes s₁.lastSignalTs s₁.dump false)
  have clocked : Ensures (System.onWorld (ctlProgram (.clock (gettimeMonFrac t))))
      (withNotes s₁ s₁.lastSignalTs s₁.dump s₁.interactive false) fun _ s' => Quiet sigList line s s' :=
    fun _ _ run => noted.trans (quiet_onWorld (.clock now run) run)
  exact clocked.bind fun _ s₂ acts => ((logRun_acts sigList ready logReplies).quiet s₂).mono fun _ _ later => acts.trans later

theorem runActive_acts (fork : ι → Option ℤ) (replies : Fin n → List WriteReply) :
    Acts sigList (System.program sigList (.runActive fork replies) : SysM n ι κ Unit) := by
  refine ⟨fun {line} s => during_ensures fun _ _ => Ensures.get_bind ?_⟩
  have moved : Ensures (System.onLoop (loopProgram sigList (.runActive fork))) s fun _ s' => Quiet sigList line s s' :=
    (loop_acts sigList (.runActive fork)).quiet s
  refine moved.bind fun _ s₁ acts => ?_
  have set : Ensures (System.onWorld (modify fun w => { w with replies })) s₁ fun _ s' => Quiet sigList line s s' :=
    fun _ _ run => acts.trans (quiet_control (.replies replies) run)
  refine set.bind fun _ s₂ acts => Ensures.get_bind ?_
  refine (broadcast_acts sigList _ fun notice member => ?_).mono fun _ _ later => acts.trans later
  obtain ⟨record, member, same⟩ := List.mem_filterMap.mp member
  exact List.mem_filterMap.mpr ⟨record, List.mem_of_mem_drop member, same⟩

theorem controlSocketRun_acts (accepts nonblock : Bool) : Acts sigList (System.controlSocketRun accepts nonblock : SysM n ι κ Unit) := by
  refine ⟨fun s => Ensures.get_bind ?_⟩
  dsimp only
  split
  case isTrue full =>
    refine ensures_modify ⟨.single (.crowded fun i => ?_), .same rfl rfl⟩
    exact Option.isSome_iff_ne_none.mp (List.all_eq_true.mp full i (List.mem_finRange i))
  case isFalse => exact fun _ _ run => quiet_control (.accept accepts nonblock) run

/-- A session starts only where there is none. -/
theorem setupInteractiveMode_acts (nonblock : Bool) (s : System n ι κ) :
    Ensures (System.setupInteractiveMode nonblock) s fun _ s' => SysActs sigList line s s' ∧ exitFlags s'.server = exitFlags s.server := by
  refine Ensures.get_bind ?_
  cases session : s.interactive with
  | some i => exact ensures_failure
  | none =>
    have made : Acts sigList (System.onWorld (ctlProgram (.new 0 1 false nonblock false)) : SysM n ι κ Unit) := .control fun w => .new ..
    refine (made.quiet s).bind fun _ s₁ quiet => ensures_modify ⟨quiet.acts.tail (.notes ..), ?_⟩
    cases quiet.move with
    | same flags _ => exact flags
    | ended _ opened _ => exact absurd session opened

/-- The controller that a step calls. -/
def calledController : System.Event n ι κ → Option (Fin n)
  | .call i _ _ _ => some i
  | _ => none

/-- What is known of the line that a step executes. -/
def LineMeets (line : Bytes × StrSeg → Prop) (s : System n ι κ) (event : System.Event n ι κ) : Prop :=
  ∀ i ∈ calledController event, Waits line s i

instance [DecidablePred line] (s : System n ι κ) (event : System.Event n ι κ) : Decidable (LineMeets line s event) :=
  inferInstanceAs (Decidable (∀ i ∈ calledController event, (s.world.client i).stateFn = some .runCommand →
    (s.world.client i).recv.overflow = false → line (s.commandLine i)))

theorem call_acts {i : Fin n} (env : CallEnv ι κ) (last : Bool) (replies : Fin n → List WriteReply) {s : System n ι κ}
    (waits : Waits line s i) :
    Ensures (System.program sigList (.call i env last replies)) s fun _ s' => SysActs sigList line s s' := by
  refine during_ensures fun phase _ => ?_
  have set : Ensures (System.onWorld (modify fun w => { w with replies })) s fun _ s' =>
      SysActs sigList line s s' ∧ s'.server = s.server ∧ s'.world.client = s.world.client := by
    intro a s' run
    obtain ⟨server, -, -, client⟩ := setReplies_same replies s a s' run
    exact ⟨.single (.control (.replies replies) run), server, client⟩
  refine set.bind fun _ s₁ ⟨acts, server, client⟩ => ?_
  have waits₁ : Waits line s₁ i := by simpa only [Waits, System.commandLine, client] using waits
  exact (iterate_acts (by rw [server, phase]) waits₁ env last).mono fun _ _ later => acts.trans later

/-- A step other than a call of a state function or the start of an interactive session. -/
theorem program_quiet {event : System.Event n ι κ} (other : ∀ i env last replies, event ≠ .call i env last replies)
    (main : ∀ nonblock, event ≠ .newInteractive nonblock) : Acts sigList (System.program sigList event) := by
  cases event with
  | register k fdnum flags mem => exact .during _ (register_acts sigList k fdnum flags mem)
  | new recvFd sendFd isSocket nonblock append => exact .during _ (.control fun w => .new ..)
  | newInteractive nonblock => exact absurd rfl (main nonblock)
  | arrive | exit | adopt => exact loop_acts sigList _
  | openOther => exact .control fun w => .openOther
  | closeOther fd => exact .control fun w => .closeOther fd
  | log level text replies =>
    rw [System.program]
    exact ⟨fun s => Ensures.zoom fun _ log _ => ⟨.single (.log log), .same rfl rfl⟩⟩
  | iterate t ready logReplies => exact mainTop_acts sigList t ready logReplies
  | reap pid => exact .during _ (loop_acts sigList _)
  | service wantRead wantWrite socketpair nonblock fork => exact .during _ (.control fun w => .service ..)
  | runActive fork replies => exact runActive_acts sigList fork replies
  | accept accepts nonblock => exact .during _ (controlSocketRun_acts sigList accepts nonblock)
  | read i reply garbage => exact .during _ (.control fun w => .read ..)
  | flush i replies => exact .during _ (.control fun w => .flush ..)
  | call i env last replies => exact absurd rfl (other i env last replies)
  | again => exact .during _ (.control fun w => .again)
  | finish replies ready logReplies =>
    refine .during _ (.bind (.control fun w => .replies _) fun _ => .bind (outputAll_acts sigList _) fun _ => ?_)
    exact .bind (logRun_acts sigList ready logReplies) fun _ => .modify (fun s => .notes ..) fun _ => ⟨rfl, rfl⟩

theorem program_acts (event : System.Event n ι κ) {s : System n ι κ} (meets : LineMeets line s event) :
    Ensures (System.program sigList event) s fun _ s' => SysActs sigList line s s' := by
  by_cases called : ∃ i env last replies, event = .call i env last replies
  · obtain ⟨i, env, last, replies, rfl⟩ := called
    exact call_acts sigList env last replies (meets i rfl)
  by_cases main : ∃ nonblock, event = .newInteractive nonblock
  · obtain ⟨nonblock, rfl⟩ := main
    exact during_ensures fun _ _ => (setupInteractiveMode_acts sigList nonblock s).mono fun _ _ result => result.1
  · have quiet : Acts sigList (System.program sigList event) := program_quiet sigList (by simpa using called) (by simpa using main)
    exact (quiet.quiet s).mono fun _ _ quiet => quiet.acts

variable {sigList}

/-- A step of the daemon consists of acts. -/
theorem step_acts {event : System.Event n ι κ} {s s' : System n ι κ} (meets : LineMeets line s event)
    (step : System.step sigList s event = some s') : SysActs sigList line s s' := by
  obtain ⟨⟨_, final⟩, run, rfl⟩ := Option.map_eq_some_iff.mp step
  exact program_acts sigList event meets _ _ run

/-- What holds at the start and is kept by every act holds in every state that is reached by lines of which `line` is known. -/
theorem reached_along {I : System n ι κ → Prop} {start s : System n ι κ} (holds : I start)
    (kept : ∀ s s', I s → SysAct sigList line s s' → I s') {events : List (System.Event n ι κ)}
    (along : Along? (System.step sigList) (LineMeets line) start events)
    (reached : exec? (System.step sigList) start events = some s) : I s :=
  exec?_preserves_along (fun _ _ _ meets holds step => (step_acts meets step).preserve kept holds) holds reached along

theorem lineMeets_true (s : System n ι κ) (event : System.Event n ι κ) : LineMeets (fun _ => True) s event :=
  fun _ _ _ _ => trivial

/-- What holds at the start and is kept by every act holds in every state that is reached. -/
theorem reached_of_acts {I : System n ι κ → Prop} {start s : System n ι κ} (holds : I start)
    (kept : ∀ s s', I s → SysAct sigList (fun _ => True) s s' → I s') {events : List (System.Event n ι κ)}
    (reached : exec? (System.step sigList) start events = some s) : I s :=
  exec?_preserves (fun s event _ holds step => (step_acts (lineMeets_true s event) step).preserve kept holds) holds reached

end Steps

end DaemonProxy.Proofs
