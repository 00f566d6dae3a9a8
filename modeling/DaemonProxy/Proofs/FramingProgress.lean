import DaemonProxy.Proofs.EventStream
import DaemonProxy.Proofs.Framing

/-! # A controller that is run settles

When the state function of a controller is called again and again, with nothing to report and with output that drains,
the controller comes to the point where it waits for input or closes.
-/

namespace DaemonProxy.Proofs

open Lib Model

variable {n : ℕ} {i : Fin n} {w w' : World n}

/-! ## Output that drains -/

/-- The client takes whatever it is given. -/
structure Drains (w : World n) (i : Fin n) : Prop where
  all : ∀ reply ∈ w.replies i, ∃ more, reply = .accepted more ∧ (w.client i).send.buf.length ≤ more ∧ overflowLine.length ≤ more
  enough : (if (w.client i).send.buf = [] then 0 else 1) + (if (w.client i).send.overflow then 1 else 0) ≤ (w.replies i).length
  lines : (w.client i).send.buf ≠ [] → (w.client i).send.buf.getLast? = some 10

/-- Replies that drain the output. -/
def drain (w : World n) (i : Fin n) : Fin n → List WriteReply := fun _ =>
  List.replicate 2 (.accepted ((w.client i).send.buf.length + overflowLine.length))

theorem drains_drain (lines : (w.client i).send.buf ≠ [] → (w.client i).send.buf.getLast? = some 10) :
    Drains { w with replies := drain w i } i := by
  refine ⟨fun reply member => ?_, ?_, lines⟩
  · exact ⟨_, List.eq_of_mem_replicate member, Nat.le_add_right .., Nat.le_add_left ..⟩
  · simp only [drain, List.length_replicate]
    split_ifs <;> omega

theorem flushLoop_drains (drains : Drains w i) {fuel : ℕ} (enough : flushVariant (w.client i).send < fuel) :
    Ends (flushLoop i fuel) w fun done _ => done = true := by
  induction fuel generalizing w with
  | zero => exact absurd enough (Nat.not_lt_zero _)
  | succ fuel ih =>
    obtain ⟨all, many, lines⟩ := drains
    simp only [flushLoop, ends_bind, ends_get, ends_ite, ends_modify, ends_pure]
    split_ifs with empty overflow gone partLine overflow
    · apply ih _ ((flushVariant_mark empty overflow).trans_le (Nat.le_of_lt_succ enough))
      refine ⟨fun reply member => ?_, ?_, fun _ => ?_⟩
      · obtain ⟨more, same, -, large⟩ := all reply member
        exact ⟨more, same, by simpa [World.markOverflow] using large, large⟩
      · have many : 1 ≤ (w.replies i).length := by simpa [empty, overflow] using many
        simpa [World.markOverflow, World.setSend, World.setClient, overflowLine, bytesOf] using many
      · simp [World.markOverflow]
        decide
    · apply ih _ ((flushVariant_drop empty).trans_le (Nat.le_of_lt_succ enough))
      refine ⟨fun reply member => ?_, ?_, fun pending => ?_⟩
      · obtain ⟨more, same, -, large⟩ := all reply member
        exact ⟨more, same, by simp [World.dropOutput], large⟩
      · simpa [World.dropOutput, World.setSend, World.setClient] using (Nat.le_add_left ..).trans many
      · simp [World.dropOutput] at pending
    · have whole := throughEol_of_getLast (lines empty)
      exact absurd (List.length_eq_zero_iff.mp (whole.symm.trans partLine)) empty
    · have whole := throughEol_of_getLast (lines empty)
      exact absurd (List.length_eq_zero_iff.mp (whole.symm.trans partLine)) empty
    · have whole := throughEol_of_getLast (lines empty)
      rw [if_neg empty] at many
      obtain ⟨reply, rest, replies⟩ := List.exists_cons_of_length_pos (show 0 < (w.replies i).length by omega)
      obtain ⟨more, rfl, large, -⟩ := all reply (replies ▸ List.mem_cons_self)
      rw [World.writeReply, replies]
      split_ifs
      · simp only [ends_bind, ends_modify, ends_pure]
      simp only [List.headD_cons, ends_bind, ends_modify]
      rw [whole, min_eq_right (by omega)]
      have pending := List.length_pos_iff.mpr empty
      apply ih _ ((flushVariant_accept pending empty).trans_le (Nat.le_of_lt_succ enough))
      have left : (w.acceptBytes i (w.client i).send.buf.length).replies i = rest := by
        simp [World.acceptBytes, World.setLog, World.setSend, World.setClient, World.callWrite, World.record, replies]
      refine ⟨fun reply member => ?_, ?_, fun pending => ?_⟩
      · rw [left] at member
        obtain ⟨more, same, -, large⟩ := all reply (replies ▸ List.mem_cons_of_mem _ member)
        exact ⟨more, same, by simp [World.acceptBytes], large⟩
      · rw [left]
        rw [replies, List.length_cons] at many
        simp [World.acceptBytes]
        omega
      · simp [World.acceptBytes] at pending

theorem ctlOutBufReady_drains (drains : Drains w i) : Ends (ctlOutBufReady i) w fun ready _ => ready = true := by
  simp only [ctlOutBufReady, ends_bind, ends_get, ends_ite, ends_pure]
  split_ifs
  simp only [ctlFlushOutbuf, ends_bind, ends_get]
  apply flushLoop_drains drains
  rw [flushVariant]
  split <;> omega

/-! ## A command -/

/-- Nothing is read, and the controller is of the same kind. -/
structure SameSource (i : Fin n) (w w' : World n) : Prop where
  append : (w'.client i).recv.appendFinalNewline = (w.client i).recv.appendFinalNewline
  stream : (w'.log i).stream = (w.log i).stream

theorem SameSource.refl (i : Fin n) (w : World n) : SameSource i w w := ⟨rfl, rfl⟩

variable {w₁ : World n}

theorem SameSource.trans (first : SameSource i w w₁) (second : SameSource i w₁ w') : SameSource i w w' :=
  ⟨second.append.trans first.append, second.stream.trans first.stream⟩

/-- The buffer of a controller stays as it is. -/
structure Kept (i : Fin n) (w w' : World n) : Prop where
  buf : (w'.client i).recv.buf = (w.client i).recv.buf
  lineLen : (w'.client i).recv.lineLen = (w.client i).recv.lineLen
  source : SameSource i w w'

theorem Kept.refl (i : Fin n) (w : World n) : Kept i w w := ⟨rfl, rfl, .refl i w⟩

theorem Kept.trans (first : Kept i w w₁) (second : Kept i w₁ w') : Kept i w w' :=
  ⟨second.buf.trans first.buf, second.lineLen.trans first.lineLen, first.source.trans second.source⟩

theorem SameInput.kept (same : SameInput w w' i) : Kept i w w' :=
  ⟨by rw [same.recv], by rw [same.recv], by rw [same.recv], same.stream⟩

/-- A command is over, or the controller closes. -/
structure CommandRun (i : Fin n) (w w' : World n) : Prop where
  kept : Kept i w w'
  state : (w'.client i).stateFn = some .endCommand ∨ (w'.client i).stateFn = some .dumpFds ∨
    (w'.client i).stateFn = some .close

theorem Sends.commandRun (sends : Sends w₁ w') (run : CommandRun i w w₁) : CommandRun i w w' := by
  have same := sends.sameInput i
  exact ⟨run.kept.trans same.kept, by rw [same.stateFn]; exact run.state⟩

theorem runHandler_run (here : (w.client i).stateFn = some .endCommand) (command : Command) (rest : StrSeg)
    (input : CallInput) : Ends (runHandler i command rest input) w fun _ w' => CommandRun i w w' := by
  have still : CommandRun i w w := ⟨.refl i w, .inl here⟩
  cases command with
  | echo =>
    cases rest with
    | none => exact (ends_pure _).mpr still
    | some text =>
      cases text with
      | nil => exact (ends_pure _).mpr still
      | cons c text =>
        simp only [runHandler, ctlCmdEcho, ends_bind, ends_pure]
        exact (ctlWrite_spec (some i) _ w).mono fun _ _ written => written.sends.commandRun still
  | exit =>
    refine (ctlCmdExit_spec i w).mono fun _ w' result => ?_
    obtain ⟨_, client, log⟩ := result
    refine ⟨⟨?_, ?_, ?_, by rw [log]⟩, .inr (.inr ?_)⟩
    all_goals rw [client, setClient_client]
  | statedump =>
    simp only [runHandler, ctlCmdStatedump, ends_bind, ends_modify, ends_pure]
    refine ⟨⟨?_, ?_, ?_, rfl⟩, .inr (.inl ?_)⟩
    all_goals simp [World.setState]
  | eventTimeout =>
    rw [runHandler, ctlCmdEventPipeTimeout]
    split
    · exact (ends_pure _).mpr still
    split
    · exact (ends_pure _).mpr still
    simp only [ends_ite, ends_bind, ends_modify, ends_pure]
    split_ifs
    · exact still
    · exact still
    · refine ⟨⟨?_, ?_, ?_, ?_⟩, .inl ?_⟩
      all_goals simp [World.setSend, here]
  | fdTake =>
    simp only [runHandler, takeQueuedFd, ends_bind, ends_get]
    cases (w.client i).recv.ancillaryFd with
    | nil => exact (ends_pure _).mpr still
    | cons fd fds =>
      simp only [ends_bind, ends_modify]
      have taken : ∀ w₁ : World n, w₁.client = (w.setRecv i { (w.client i).recv with ancillaryFd := fds }).client →
          w₁.log = w.log → CommandRun i w w₁ := by
        intro w₁ client log
        refine ⟨⟨?_, ?_, ?_, by rw [log]⟩, .inl ?_⟩
        all_goals simp [client, World.setRecv, here]
      cases input.error with
      | some error =>
        simp only [ends_bind, ends_modify, ends_pure]
        exact taken _ (closeFd_client ..) (closeFd_log ..)
      | none =>
        simp only [ends_bind, ends_modify, ends_pure]
        exact (writeList_spec i input.writes _).mono fun _ _ sends => sends.commandRun (taken _ rfl rfl)
  | other =>
    simp only [runHandler, ends_bind, ends_pure]
    exact (writeList_spec i input.writes w).mono fun _ _ sends => sends.commandRun still

theorem dispatchLine_run (here : (w.client i).stateFn = some .endCommand) (input : CallInput) :
    Ends (dispatchLine i input) w fun _ w' => CommandRun i w w' := by
  simp only [dispatchLine, ends_bind, ends_get, ends_modify]
  set text := (w.client i).recv.buf.take ((w.client i).recv.lineLen - 1)
  set w₁ : World n := w.setLog i { w.log i with items := (w.log i).items ++ [.line text] }
  have noted : CommandRun i w w₁ := ⟨⟨rfl, rfl, rfl, by simp [w₁]⟩, .inl here⟩
  cases ctlFindCommand (splitAtSep 9 text).1 with
  | none =>
    simp only [ends_ite, ends_pure]
    split
    · exact noted
    split
    · exact noted
    · exact (ctlNotifyError_spec i _ w₁).mono fun _ _ sends => sends.commandRun noted
  | some command =>
    simp only [ends_bind]
    refine (runHandler_run (w := w₁) here command _ input).mono fun error w₂ run => ?_
    have run : CommandRun i w w₂ := ⟨noted.kept.trans run.kept, run.state⟩
    cases error with
    | none => exact (ends_pure _).mpr run
    | some error => exact (ctlNotifyError_spec i _ w₂).mono fun _ _ sends => sends.commandRun run

theorem ctlStateRunCommand_run (allocated : (w.client i).stateFn ≠ none) (drains : Drains w i) (input : CallInput) :
    Ends (ctlStateRunCommand i input) w fun _ w' => CommandRun i w w' := by
  rw [ctlStateRunCommand, ends_bind]
  refine ((ctlOutBufReady_spec allocated).and (ctlOutBufReady_drains drains)).mono fun ready w₁ result => ?_
  obtain ⟨waited, isReady⟩ := result
  have same := waited.1.sends.sameInput i
  rw [if_pos isReady]
  simp only [ends_ite, ends_bind, ends_modify, ends_get, ends_pure]
  set w₂ := w₁.setState i .endCommand
  have here : (w₂.client i).stateFn = some .endCommand := by simp [w₂, World.setState]
  have kept : Kept i w w₂ := same.kept.trans
    ⟨by simp [w₂, World.setState], by simp [w₂, World.setState], by simp [w₂, World.setState], rfl⟩
  split
  · have cleared : ∀ w₃ : World n, w₃.client = (w₂.setRecv i { (w₂.client i).recv with overflow := false }).client →
        (w₃.log i).stream = (w₂.log i).stream → CommandRun i w w₃ := by
      intro w₃ client stream
      refine ⟨kept.trans ⟨?_, ?_, ?_, stream⟩, .inl ?_⟩
      all_goals simp [client, World.setRecv, here]
    split
    · exact (ctlNotifyError_spec i _ _).mono fun _ _ sends => sends.commandRun (cleared _ rfl (by simp [World.setRecv]))
    · exact cleared _ rfl rfl
  · exact (dispatchLine_run here input).mono fun _ _ run => ⟨kept.trans run.kept, run.state⟩

/-! ## Running a controller -/

/-- A call of the state function with nothing to report. -/
def idle : CallInput := ⟨[], [], none⟩

/-- The state function of controller `i` is called once. -/
def Move (tail : Bytes → Prop) (i : Fin n) (w w' : World n) : Prop :=
  (Completes w i → tail (w.client i).recv.buf) ∧ ∃ replies, ctlStep w (.iterate i idle false replies) = some w'

abbrev Moves (tail : Bytes → Prop) (i : Fin n) : World n → World n → Prop := Relation.ReflTransGen (Move tail i)

/-- The moves are a run of the machine. -/
theorem Moves.run {tail : Bytes → Prop} (moves : Moves tail i w w') :
    ∃ events, (∀ event ∈ events, ∃ replies, event = .iterate i idle false replies) ∧
      exec? ctlStep w events = some w' ∧ Along? ctlStep (LastLine tail) w events := by
  induction moves using Relation.ReflTransGen.head_induction_on with
  | refl => exact ⟨[], nofun, rfl, trivial⟩
  | head move _ ih =>
    obtain ⟨guarded, replies, step⟩ := move
    obtain ⟨events, calls, run, along⟩ := ih
    refine ⟨.iterate i idle false replies :: events, ?_, ?_, guarded, fun s same => ?_⟩
    · rintro event (_ | ⟨_, member⟩)
      · exact ⟨replies, rfl⟩
      · exact calls event member
    · rw [exec?, List.foldlM_cons, step]
      exact run
    · obtain rfl := Option.some.inj (step.symm.trans same)
      exact along

section Moves

variable {tail : Bytes → Prop}

variable {state : CtlState}

theorem move_of_call (here : (w.client i).stateFn = some state)
    (guarded : Completes w i → tail (w.client i).recv.buf) (replies : Fin n → List WriteReply) {P : World n → Prop}
    (call : Ends (callState i state idle) { w with replies } fun _ w' => P w' ∧ (w'.client i).stateFn ≠ some .free) :
    ∃ w', Move tail i w w' ∧ P w' := by
  have program : Ends (ctlProgram (.iterate i idle false replies)) w fun _ w' => P w' := by
    simp only [ctlProgram, iterate, ends_bind, ends_modify, ends_get, here]
    refine call.mono fun again w' result => ?_
    obtain ⟨holds, kept⟩ := result
    simp only [ends_pure, kept, decide_false, Bool.and_false, Bool.false_eq_true, if_false]
    exact holds
  obtain ⟨_, w', run, holds⟩ := program
  exact ⟨w', ⟨guarded, replies, by rw [ctlStep, run, Option.map_some]⟩, holds⟩

/-- Only a waiting controller takes what is left of its input. -/
theorem not_completes (here : (w.client i).stateFn = some state) (other : state ≠ .nextCommand) :
    Completes w i → tail (w.client i).recv.buf := fun completes =>
  absurd (Option.some.inj (here.symm.trans completes.waiting)) other

/-- The controller is back at the next command, with the line dropped from its buffer. -/
structure Back (i : Fin n) (w w' : World n) : Prop where
  state : (w'.client i).stateFn = some .nextCommand
  buf : (w'.client i).recv.buf = (w.client i).recv.buf.drop (w.client i).recv.lineLen
  source : SameSource i w w'

theorem endCommand_back (here : (w.client i).stateFn = some .endCommand) : ∃ w', Move tail i w w' ∧ Back i w w' := by
  apply move_of_call here (not_completes here nofun) w.replies
  simp only [callState, ctlStateEndCommand, ends_bind, ends_modify, ends_pure]
  refine ⟨⟨?_, ?_, ?_, rfl⟩, ?_⟩
  all_goals simp [World.setRecv, World.setState]

theorem Back.of_kept (kept : Kept i w w₁) (back : Back i w₁ w') : Back i w w' :=
  ⟨back.state, by rw [back.buf, kept.buf, kept.lineLen], kept.source.trans back.source⟩

/-- A state of `statedump` passes when there is nothing to list. -/
theorem dump_back (source : CtlState) {target : CtlState} (call : callState i source idle = ctlStateDump i target idle)
    (other : source ≠ .nextCommand) (goes : target ≠ .free)
    (later : ∀ w : World n, (w.client i).stateFn = some target → ∃ w', Moves tail i w w' ∧ Back i w w') (w : World n)
    (here : (w.client i).stateFn = some source) : ∃ w', Moves tail i w w' ∧ Back i w w' := by
  have passes : Ends (callState i source idle) { w with replies := w.replies } fun _ w' =>
      ((w'.client i).stateFn = some target ∧ Kept i w w') ∧ (w'.client i).stateFn ≠ some .free := by
    rw [call]
    simp only [ctlStateDump, idle, emitLines, ends_bind, ends_pure, if_true, ends_modify]
    refine ⟨⟨?_, ?_, ?_, ?_, rfl⟩, ?_⟩
    all_goals simp [World.setState, goes]
  obtain ⟨w₁, move, there, kept⟩ := move_of_call here (not_completes here other) w.replies passes
  obtain ⟨w', moves, back⟩ := later w₁ there
  exact ⟨w', .head move moves, back.of_kept kept⟩

theorem dispatched_back (dispatched : Dispatched state) (here : (w.client i).stateFn = some state) :
    ∃ w', Moves tail i w w' ∧ Back i w w' := by
  have ending (w : World n) (here : (w.client i).stateFn = some .endCommand) : ∃ w', Moves tail i w w' ∧ Back i w w' := by
    obtain ⟨w', move, back⟩ := endCommand_back here
    exact ⟨w', .single move, back⟩
  have signals := dump_back .dumpSignals rfl nofun nofun ending
  have services := dump_back .dumpServices rfl nofun nofun signals
  have fds := dump_back .dumpFds rfl nofun nofun services
  rcases dispatched with rfl | rfl | rfl | rfl
  · exact ending w here
  · exact fds w here
  · exact services w here
  · exact signals w here

/-- The output of the controller is made of lines. -/
def LinesOut (i : Fin n) (w : World n) : Prop := (w.client i).send.buf ≠ [] → (w.client i).send.buf.getLast? = some 10

theorem run_back (lines : LinesOut i w) (here : (w.client i).stateFn = some .runCommand) :
    ∃ w', Moves tail i w w' ∧ (Back i w w' ∨ (w'.client i).stateFn = some .close ∧ SameSource i w w') := by
  have call : Ends (callState i .runCommand idle) { w with replies := drain w i } fun _ w' =>
      CommandRun i { w with replies := drain w i } w' ∧ (w'.client i).stateFn ≠ some .free := by
    refine (ctlStateRunCommand_run (by simp [here]) (drains_drain lines) idle).mono fun _ w' run => ⟨run, ?_⟩
    rcases run.state with state | state | state <;> simp [state]
  obtain ⟨w₁, move, kept, state⟩ := move_of_call here (not_completes here nofun) (drain w i) call
  have kept : Kept i w w₁ := ⟨kept.buf, kept.lineLen, kept.source.append, kept.source.stream⟩
  have back : ∀ {state}, Dispatched state → (w₁.client i).stateFn = some state → ∃ w', Moves tail i w w' ∧ Back i w w' := by
    intro state dispatched there
    obtain ⟨w', moves, back⟩ := dispatched_back dispatched there
    exact ⟨w', .head move moves, back.of_kept kept⟩
  rcases state with there | there | there
  · obtain ⟨w', moves, back⟩ := back (.inl rfl) there
    exact ⟨w', moves, .inl back⟩
  · obtain ⟨w', moves, back⟩ := back (.inr (.inl rfl)) there
    exact ⟨w', moves, .inl back⟩
  · exact ⟨w₁, .single move, .inr ⟨there, kept.source⟩⟩

/-- Where a controller that waits for the next command can go. -/
inductive NextStep (i : Fin n) (w w' : World n) : Prop
  | parked (state : (w'.client i).stateFn = some .runCommand) (source : SameSource i w w')
      (shorter : ((w'.client i).recv.buf.drop (w'.client i).recv.lineLen).length < (w.client i).recv.buf.length)
  | cut (state : (w'.client i).stateFn = some .nextCommand) (source : SameSource i w w')
      (shorter : (w'.client i).recv.buf.length < (w.client i).recv.buf.length)
  | closing (state : (w'.client i).stateFn = some .close) (source : SameSource i w w')

theorem next_step (here : (w.client i).stateFn = some .nextCommand)
    (guarded : Completes w i → tail (w.client i).recv.buf) (unsettled : ¬ Settled (w.client i)) :
    ∃ w', Move tail i w w' ∧ NextStep i w w' := by
  apply move_of_call here guarded w.replies
  have park : ∀ buf eol, eol < buf.length → buf.length - (eol + 1) < (w.client i).recv.buf.length →
      NextStep i w (w.parkLine i buf eol) ∧ ((w.parkLine i buf eol).client i).stateFn ≠ some .free := by
    intro buf eol inside shorter
    refine ⟨.parked ?_ ⟨?_, rfl⟩ ?_, ?_⟩
    all_goals simp [World.parkLine, World.setRecv, World.setState]
    exact shorter
  have stuck : ¬ (0 ≤ (w.client i).recv.fd ∧ 10 ∉ (w.client i).recv.buf ∧ (w.client i).recv.buf.length < recvBufSize) :=
    fun waits => unsettled (.inr ⟨here, waits⟩)
  simp only [callState, ctlStateNextCommand, idle, emitLines, ends_bind, ends_pure, if_true, ends_get]
  have found : ∀ eol, (w.client i).recv.buf.findIdx? (· = 10) = some eol →
      NextStep i w (w.parkLine i (w.client i).recv.buf eol) ∧
        ((w.parkLine i (w.client i).recv.buf eol).client i).stateFn ≠ some .free := by
    intro eol found
    have inside := (List.findIdx?_eq_some_iff_getElem.mp found).1
    exact park _ eol inside (by omega)
  rw [ends_ite]
  split
  · rename_i opened
    cases place : (w.client i).recv.buf.findIdx? (· = 10) with
    | some eol =>
      simp only [ends_bind, ends_modify, ends_pure]
      exact found eol place
    | none =>
      have full : recvBufSize ≤ (w.client i).recv.buf.length := by
        by_contra room
        exact stuck ⟨opened, notMem_of_findIdx_eol place, by omega⟩
      have large : 1 < recvBufSize := by decide
      simp only [ends_bind, ends_modify, ends_pure, if_pos full]
      refine ⟨.cut ?_ ⟨?_, rfl⟩ ?_, ?_⟩
      all_goals simp [World.cutLine, World.setRecv, here]
      omega
  simp only [ends_ite, ends_bind, ends_modify, ends_pure]
  split_ifs with empty partLine
  · refine ⟨.closing ?_ ⟨?_, rfl⟩, ?_⟩
    all_goals simp [World.setState]
  · have pending := List.length_pos_iff.mpr empty
    exact park _ _ (by simp) (by simpa using pending)
  · cases place : (w.client i).recv.buf.findIdx? (· = 10) with
    | some eol =>
      simp only [ends_bind, ends_modify, ends_pure]
      exact found eol place
    | none =>
      simp only [ends_bind, ends_modify, ends_pure]
      refine ⟨.closing ?_ ⟨?_, rfl⟩, ?_⟩
      all_goals simp [World.setState, World.setRecv]

theorem Move.eventStream (move : Move tail i w w') (stream : ∃ entries, EventStream (outputView w i) entries) :
    ∃ entries, EventStream (outputView w' i) entries := by
  obtain ⟨-, replies, step⟩ := move
  refine ctlStep_preserves (I := fun w => ∃ entries, EventStream (outputView w i) entries) ?_ (lastLine_any w _) stream step
  rintro w w' ⟨entries, stream⟩ effect
  exact stream.effect effect

theorem Moves.eventStream (moves : Moves tail i w w') (stream : ∃ entries, EventStream (outputView w i) entries) :
    ∃ entries, EventStream (outputView w' i) entries := by
  induction moves with
  | refl => exact stream
  | tail _ move ih => exact move.eventStream ih

/-- The controller waits for input or closes, or is about to take several lines as one. -/
def Rests (tail : Bytes → Prop) (i : Fin n) (w : World n) : Prop :=
  Settled (w.client i) ∨ Completes w i ∧ ¬ tail (w.client i).recv.buf

/-- From the next command on, the controller comes to rest; the buffer gets shorter with every line. -/
theorem rests_of_waiting (stream : ∃ entries, EventStream (outputView w i) entries)
    (here : (w.client i).stateFn = some .nextCommand) :
    ∃ w', Moves tail i w w' ∧ SameSource i w w' ∧ Rests tail i w' := by
  induction size : (w.client i).recv.buf.length using Nat.strong_induction_on generalizing w with
  | _ size ih =>
    subst size
    by_cases rests : Rests tail i w
    · exact ⟨w, .refl, .refl i w, rests⟩
    rw [Rests, not_or, not_and_not_right] at rests
    obtain ⟨w₁, move, step⟩ := next_step here rests.2 rests.1
    have stream₁ := move.eventStream stream
    cases step with
    | closing state same => exact ⟨w₁, .single move, same, .inl (.inl state)⟩
    | cut state same shorter =>
      obtain ⟨w', moves, same', rests⟩ := ih _ shorter stream₁ state rfl
      exact ⟨w', .head move moves, same.trans same', rests⟩
    | parked state same shorter =>
      obtain ⟨entries, lines⟩ := stream₁
      obtain ⟨w₂, moves, back | closed⟩ := run_back lines.lines state
      · rw [← back.buf] at shorter
        obtain ⟨w', moves', same', rests⟩ := ih _ shorter (moves.eventStream ⟨entries, lines⟩) back.state rfl
        exact ⟨w', .head move (moves.trans moves'), (same.trans back.source).trans same', rests⟩
      · exact ⟨w₂, .head move moves, same.trans closed.2, .inl (.inl closed.1)⟩

/-- A controller that has not been destroyed comes to rest. -/
theorem rests_of_running (stream : ∃ entries, EventStream (outputView w i) entries)
    (here : (w.client i).stateFn = some state) (running : state ≠ .free) :
    ∃ w', Moves tail i w w' ∧ SameSource i w w' ∧ Rests tail i w' := by
  have again : ∀ w₁, Moves tail i w w₁ → Back i w w₁ →
      ∃ w', Moves tail i w w' ∧ SameSource i w w' ∧ Rests tail i w' := by
    intro w₁ moves back
    obtain ⟨w', moves', same, rests⟩ := rests_of_waiting (moves.eventStream stream) back.state
    exact ⟨w', moves.trans moves', back.source.trans same, rests⟩
  have dispatched (dispatched : Dispatched state) :
      ∃ w', Moves tail i w w' ∧ SameSource i w w' ∧ Rests tail i w' := by
    obtain ⟨w₁, moves, back⟩ := dispatched_back dispatched here
    exact again w₁ moves back
  cases state with
  | nextCommand => exact rests_of_waiting stream here
  | runCommand =>
    obtain ⟨entries, lines⟩ := stream
    obtain ⟨w₁, moves, back | closed⟩ := run_back lines.lines here
    · exact again w₁ moves back
    · exact ⟨w₁, moves, closed.2, .inl (.inl closed.1)⟩
  | endCommand => exact dispatched (.inl rfl)
  | dumpFds => exact dispatched (.inr (.inl rfl))
  | dumpServices => exact dispatched (.inr (.inr (.inl rfl)))
  | dumpSignals => exact dispatched (.inr (.inr (.inr rfl)))
  | close => exact ⟨w, .refl, .refl i w, .inl (.inl here)⟩
  | free => exact absurd rfl running

end Moves

end DaemonProxy.Proofs
