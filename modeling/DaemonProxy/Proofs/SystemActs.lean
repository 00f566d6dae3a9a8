import DaemonProxy.Proofs.ServiceSteps
import DaemonProxy.Proofs.Termination

/-! # What a step of the daemon consists of

Every step is a sequence of acts: the controllers do something on their own, a line goes out with something that the
daemon knows, a command is executed, the services move on. An invariant of the daemon is what every act keeps. The acts say
where a text comes from, so that what is known of the handles, the services and the signals is known of the lines.
-/

namespace DaemonProxy.Proofs

open Lib Model

variable {n : ℕ} {ι κ : Type} [DecidableEq ι] [DecidableEq κ] {α β : Type}

/-- What the controllers do without the other modules, and what holds then. -/
inductive Control (w : World n) : {α : Type} → CtlM n α → Prop
  | openOther : Control w (ctlProgram .openOther)
  | closeOther (fd : ℕ) : Control w (ctlProgram (.closeOther fd))
  | new (recvFd sendFd : ℤ) (isSocket nonblock append : Bool) :
      Control w (ctlProgram (.new recvFd sendFd isSocket nonblock append))
  | service (wantRead wantWrite socketpair nonblock fork : Bool) :
      Control w (ctlProgram (.service wantRead wantWrite socketpair nonblock fork))
  | accept (accepts nonblock : Bool) : Control w (controlSocketRun accepts nonblock)
  | read (i : Fin n) (reply : ReadReply) (garbage : List ℤ) : Control w (ctlProgram (.read i reply garbage))
  | flush (i : Fin n) (replies : Fin n → List WriteReply) : Control w (ctlProgram (.flush i replies))
  | replies (replies : Fin n → List WriteReply) : Control w (modify fun w => { w with replies })
  | again : Control w (modify fun w => { w with next := w.now })
  | output (i : Fin n) : Control w (outputPhase i)
  | ready (i : Fin n) (allocated : (w.client i).stateFn ≠ none) : Control w (ctlOutBufReady i)
  | next (i : Fin n) (here : (w.client i).stateFn = some .nextCommand) : Control w (ctlStateNextCommand i ⟨[], [], none⟩)
  | run (i : Fin n) (here : (w.client i).stateFn = some .runCommand) : Control w (modify (·.setState i .endCommand))
  | reject (i : Fin n) (here : (w.client i).stateFn = some .endCommand) (cut : (w.client i).recv.overflow = true) :
      Control w (System.rejectLongLine i)
  | finish (i : Fin n) (here : (w.client i).stateFn = some .endCommand) : Control w (ctlStateEndCommand i)
  | close (i : Fin n) (here : (w.client i).stateFn = some .close) : Control w (ctlStateClose i)
  | free (i : Fin n) (here : (w.client i).stateFn = some .free) : Control w (ctlStateFree i)
  | dump (i : Fin n) {source target : CtlState} (move : DumpMove source target)
      (here : (w.client i).stateFn = some source) : Control w (ctlStateDump i target ⟨[], [], none⟩)

/-- What the daemon notes about its controllers beside them. -/
def withNotes (s : System n ι κ) (lastSignalTs : Fin n → ℤ) (dump : Fin n → DumpPos) (interactive : Option (Fin n))
    (waiting : Bool) : System n ι κ := { s with lastSignalTs, dump, interactive, waiting }

/-- An act of the daemon; `line` is what is known of the lines that are executed. -/
inductive SysAct (sigList : List SigListItem) (line : Bytes × StrSeg → Prop) (s : System n ι κ) : System n ι κ → Prop
  | control {α : Type} {m : CtlM n α} {a : α} {s' : System n ι κ} (control : Control s.world m)
      (run : (System.onWorld m).run s = some (a, s')) : SysAct sigList line s s'
  /-- The clock of the controllers follows that of the services. -/
  | clock {t : Timespec} {s' : System n ι κ} (same : s.server.loop.daemon.now = gettimeMonFrac t)
      (run : (System.onWorld (ctlProgram (.clock (gettimeMonFrac t)))).run s = some (⟨⟩, s')) : SysAct sigList line s s'
  | signal (i : Fin n) {event : SigStatus} {s' : System n ι κ} (allocated : (s.world.client i).stateFn ≠ none)
      (new : sigGetNewEvents s.server.loop.sig.signals.slots (s.lastSignalTs i) = some event)
      (run : (System.tell sigList i (.signal event.signum event.lastReceivedTs event.numberPending)).run s = some (⟨⟩, s')) :
      SysAct sigList line s s'
  | fd (i : Fin n) (x : κ) {s' : System n ι κ} (allocated : (s.world.client i).stateFn ≠ none)
      (run : (System.tell sigList i (fdNotice s.server.fds x)).run s = some (⟨⟩, s')) : SysAct sigList line s s'
  | service (i : Fin n) (x : ι) (part : DumpPart) {s' : System n ι κ} (allocated : (s.world.client i).stateFn ≠ none)
      (run : (System.onServer (dumpNotice x part) >>= System.tell sigList i).run s = some (⟨⟩, s')) : SysAct sigList line s s'
  /-- A change of state that was reported goes to all controllers. -/
  | report {x : ι} {state : SvcState} {now : ℤ} {svc : SvcNotice} {s' : System n ι κ}
      (happened : .reported x state now svc ∈ s.server.loop.daemon.history)
      (run : (System.onWorld (ctlWrite none (Notice.message sigList (.svcState now svc)))).run s = some (⟨⟩, s')) :
      SysAct sigList line s s'
  | dispatch (i : Fin n) (env : CallEnv ι κ) {s' : System n ι κ} (phase : s.server.loop.phase = .commands)
      (here : (s.world.client i).stateFn = some .endCommand) (whole : (s.world.client i).recv.overflow = false)
      (known : line (s.commandLine i)) (run : (System.dispatchLine sigList i env).run s = some (⟨⟩, s')) : SysAct sigList line s s'
  | loop (event : LoopEvent ι) {s' : System n ι κ} (run : (System.onLoop (loopProgram sigList event)).run s = some (⟨⟩, s')) :
      SysAct sigList line s s'
  | register (k : ℕ) (fdnum : ℤ) (flags : FdFlags) (mem : Option κ) {s' : System n ι κ}
      (run : (System.onServer (System.registerFd k fdnum flags mem)).run s = some (⟨⟩, s')) : SysAct sigList line s s'
  | log (log : LogState) : SysAct sigList line s { s with server := { s.server with log } }
  /-- The log asks to be called again. -/
  | logTime (ts : ℤ) :
      SysAct sigList line s { s with world := { s.world with
        next := if 0 < wrap 64 (s.world.next - ts) then ts else s.world.next } }
  | logWriteable (fd : ℤ) : SysAct sigList line s { s with world := { s.world with wakeWrite := fd :: s.world.wakeWrite } }
  /-- No controller is free for a client that waits. -/
  | crowded (full : ∀ i, (s.world.client i).stateFn ≠ none) :
      SysAct sigList line s { s with world := { s.world with
        next := if wrap 64 (s.world.now + 5 * 4294967296) < s.world.next then wrap 64 (s.world.now + 5 * 4294967296)
          else s.world.next } }
  /-- The services see `wake->next`. -/
  | awake : SysAct sigList line s (s.setServer s.awakeServer)
  | notes (lastSignalTs : Fin n → ℤ) (dump : Fin n → DumpPos) (interactive : Option (Fin n)) (waiting : Bool) :
      SysAct sigList line s (withNotes s lastSignalTs dump interactive waiting)

/-- A sequence of acts. -/
abbrev SysActs (sigList : List SigListItem) (line : Bytes × StrSeg → Prop) : System n ι κ → System n ι κ → Prop :=
  Relation.ReflTransGen (SysAct sigList line)

variable {sigList : List SigListItem} {line : Bytes × StrSeg → Prop} {s s' : System n ι κ} {i : Fin n}

/-- What every act keeps, the acts keep. -/
theorem SysActs.preserve {I : System n ι κ → Prop} (kept : ∀ s s', I s → SysAct sigList line s s' → I s')
    (acts : SysActs sigList line s s') (holds : I s) : I s' := by
  induction acts with
  | refl => exact holds
  | tail _ act ih => exact kept _ _ ih act

/-- Acts that leave the exit of the daemon alone, but when they end the interactive session. -/
structure Quiet (sigList : List SigListItem) (line : Bytes × StrSeg → Prop) (s s' : System n ι κ) : Prop where
  acts : SysActs sigList line s s'
  move : SessionMove s s'

theorem Quiet.refl (s : System n ι κ) : Quiet sigList line s s := ⟨.refl, .refl s⟩

theorem Quiet.trans {s₁ s₂ s₃ : System n ι κ} (first : Quiet sigList line s₁ s₂) (second : Quiet sigList line s₂ s₃) :
    Quiet sigList line s₁ s₃ := ⟨first.acts.trans second.acts, first.move.trans second.move⟩

/-- What the controllers do to the exit is known. -/
theorem quiet_onWorld {m : CtlM n α} {a : α} (act : SysAct sigList line s s') (run : (System.onWorld m).run s = some (a, s')) :
    Quiet sigList line s s' := ⟨.single act, onWorld_moves m s a s' run⟩

theorem quiet_control {m : CtlM n α} {a : α} (control : Control s.world m) (run : (System.onWorld m).run s = some (a, s')) :
    Quiet sigList line s s' := quiet_onWorld (.control control run) run

theorem quiet_notes (lastSignalTs : Fin n → ℤ) (dump : Fin n → DumpPos) (waiting : Bool) :
    Quiet sigList line s (withNotes s lastSignalTs dump s.interactive waiting) := ⟨.single (.notes ..), .same rfl rfl⟩

/-- The program consists of such acts, and executes no line. -/
structure Acts (sigList : List SigListItem) (m : SysM n ι κ α) : Prop where
  quiet : ∀ {line} s, Ensures m s fun _ s' => Quiet sigList line s s'

namespace Acts

theorem pure (a : α) : Acts sigList (pure a : SysM n ι κ α) := ⟨fun s => ensures_pure (.refl s)⟩

theorem failure : Acts sigList (failure : SysM n ι κ α) := ⟨fun _ => ensures_failure⟩

theorem bind {m : SysM n ι κ α} {f : α → SysM n ι κ β} (first : Acts sigList m) (second : ∀ a, Acts sigList (f a)) :
    Acts sigList (m >>= f) :=
  ⟨fun s => (first.quiet s).bind fun a s₁ acts => ((second a).quiet s₁).mono fun _ _ later => acts.trans later⟩

theorem get_bind {f : System n ι κ → SysM n ι κ β} (second : ∀ s, Acts sigList (f s)) : Acts sigList (get >>= f) :=
  ⟨fun s => ((second s).quiet s).get_bind⟩

theorem ite {c : Prop} [Decidable c] {m m' : SysM n ι κ α} (first : Acts sigList m) (second : Acts sigList m') :
    Acts sigList (if c then m else m') := by
  split
  · exact first
  · exact second

theorem control {m : CtlM n α} (control : ∀ w, Control w m) : Acts sigList (System.onWorld m : SysM n ι κ α) :=
  ⟨fun _ _ _ run => quiet_control (control _) run⟩

/-- An act that leaves the exit and the controllers alone. -/
theorem modify {f : System n ι κ → System n ι κ} (act : ∀ {line} s, SysAct sigList line s (f s))
    (kept : ∀ s, exitFlags (f s).server = exitFlags s.server ∧ (f s).interactive = s.interactive) :
    Acts sigList (modify f : SysM n ι κ PUnit) :=
  ⟨fun s => ensures_modify ⟨.single (act s), .same (kept s).1 (kept s).2⟩⟩

theorem during (phase : Phase) {m : SysM n ι κ α} (acts : Acts sigList m) : Acts sigList (System.during phase m) :=
  get_bind fun _ => ite acts failure

end Acts

/-! ## State functions -/

/-- A function on the controllers that only sends. -/
theorem onWorld_sends {m : CtlM n α} {post : World n → Prop} (sends : Ensures m s.world fun _ w => Sends s.world w ∧ post w) :
    Ensures (System.onWorld m) s fun _ s' => ∃ world, s' = { s with world } ∧ Sends s.world world ∧ post world := by
  have zoomed : Ensures (zoom System.world (fun world s => { s with world }) m) s fun _ s₁ =>
      ∃ world, s₁ = { s with world } ∧ Sends s.world world ∧ post world := Ensures.zoom (sends.mono fun _ w sent => ⟨w, rfl, sent⟩)
  refine Ensures.get_bind (zoomed.bind ?_)
  rintro a _ ⟨w, rfl, sent, holds⟩
  refine Ensures.modify_bind (ensures_pure ⟨w, ?_, sent, holds⟩)
  have allocated : ∀ j, System.allocated s.world w j = false := by
    intro j
    rw [System.allocated, (sent.sameInput j).stateFn]
    cases (s.world.client j).stateFn <;> rfl
  have freed : ∀ j, System.freed s.world w j = false := by
    intro j
    rw [System.freed, System.allocated, (sent.sameInput j).stateFn]
    cases (s.world.client j).stateFn <;> rfl
  cases interactive : s.interactive <;> simp [System.noteClients, allocated, freed, interactive]

/-- A line of `statedump` about a service, and what it does: the first one is recorded. -/
inductive DumpLine (s : Server ι κ) (x : ι) : DumpPart → Notice → Server ι κ → Prop
  | state :
      DumpLine s x .state (.svcState s.loop.daemon.now (noticeOf (s.loop.daemon.objects x))) { s with
        loop := { s.loop with
          daemon := { s.loop.daemon with
            history := s.loop.daemon.history ++
              [.reported x (s.loop.daemon.objects x).state s.loop.daemon.now (noticeOf (s.loop.daemon.objects x))] } } }
  | tags {value : Option Bytes} (stored : packedGet (s.vars x) (bytesOf "tags") = some value) :
      DumpLine s x .tags (.svcVar .tags (s.loop.daemon.objects x).name (value.getD [])) s
  | args {value : Option Bytes} (stored : packedGet (s.vars x) (bytesOf "args") = some value) :
      DumpLine s x .args (.svcVar .args (s.loop.daemon.objects x).name (value.getD [])) s
  | fds {value : Option Bytes} (stored : packedGet (s.vars x) (bytesOf "fds") = some value) :
      DumpLine s x .fds (.svcVar .fds (s.loop.daemon.objects x).name (value.getD Bytewise.nullFds)) s
  | autoUp {value : Option Bytes} (stored : packedGet (s.vars x) (bytesOf "triggers") = some value) :
      DumpLine s x .autoUp
        (.svcAutoUp (s.loop.daemon.objects x).name (s.loop.daemon.objects x).restartInterval (value.getD [])) s

omit [DecidableEq ι] [DecidableEq κ] in
theorem varText_spec (x : ι) (name unset : Bytes) (s : Server ι κ) :
    Ensures (varText x name unset) s fun text s' => s' = s ∧ ∃ value, packedGet (s.vars x) name = some value ∧ text = value.getD unset := by
  refine Ensures.get_bind ?_
  split
  next value stored => exact ensures_pure ⟨rfl, value, stored, rfl⟩
  next => exact ensures_failure

theorem dumpNotice_spec (x : ι) (part : DumpPart) (s : Server ι κ) :
    Ensures (dumpNotice x part) s fun notice s' => DumpLine s x part notice s' := by
  refine Ensures.get_bind ?_
  cases part with
  | state =>
    have recorded : Ensures (onSvcTable (svcNotifyState x)) s fun _ s' => DumpLine s x .state
        (.svcState s.loop.daemon.now (noticeOf (s.loop.daemon.objects x))) s' := by
      refine Ensures.zoom (Ends.ensures ?_)
      simp only [svcNotifyState, ends_bind, ends_svcAt, ends_get, ends_record]
      exact .state
    exact recorded.bind fun _ _ line => ensures_pure line
  | tags =>
    refine (varText_spec x _ _ s).bind ?_
    rintro _ _ ⟨rfl, value, stored, rfl⟩
    exact ensures_pure (.tags stored)
  | args =>
    refine (varText_spec x _ _ s).bind ?_
    rintro _ _ ⟨rfl, value, stored, rfl⟩
    exact ensures_pure (.args stored)
  | fds =>
    refine (varText_spec x _ _ s).bind ?_
    rintro _ _ ⟨rfl, value, stored, rfl⟩
    exact ensures_pure (.fds stored)
  | autoUp =>
    refine (varText_spec x _ _ s).bind ?_
    rintro _ _ ⟨rfl, value, stored, rfl⟩
    exact ensures_pure (.autoUp stored)

end DaemonProxy.Proofs
