import DaemonProxy.Model.System
import DaemonProxy.Proofs.CommandFrames
import DaemonProxy.Proofs.ControllerEffects

/-! # The exit of the daemon

What a step of the daemon does to the terminate guard, to the program to execute on exit and to the exit flag: it executes
one of the commands for them, or the interactive session ends, or they stay as they are.
-/

namespace DaemonProxy.Proofs

open Lib Model

/-! ## A command does not free a controller -/

section Stays

variable {n : ℕ}

/-- No controller is destroyed or freed. -/
structure Stays (w w' : World n) : Prop where
  allocated : ∀ j, (w.client j).stateFn ≠ none → (w'.client j).stateFn ≠ none
  alive : ∀ j, (w.client j).stateFn ≠ some .free → (w'.client j).stateFn ≠ some .free

theorem Stays.refl (w : World n) : Stays w w := ⟨fun _ => id, fun _ => id⟩

theorem Stays.trans {w₁ w₂ w₃ : World n} (first : Stays w₁ w₂) (second : Stays w₂ w₃) : Stays w₁ w₃ :=
  ⟨fun j here => second.allocated j (first.allocated j here), fun j here => second.alive j (first.alive j here)⟩

variable {w w' : World n}

theorem stays_of_stateFn (same : ∀ j, (w'.client j).stateFn = (w.client j).stateFn) : Stays w w' :=
  ⟨fun j here => by rwa [same j], fun j here => by rwa [same j]⟩

theorem Sends.stays (sends : Sends w w') : Stays w w' :=
  stays_of_stateFn fun j => (sends.sameInput j).stateFn

theorem stays_of_client (same : w'.client = w.client) : Stays w w' :=
  stays_of_stateFn fun j => by rw [same]

theorem Stays.of_client {w₁ : World n} (stays : Stays w₁ w') (same : w₁.client = w.client) : Stays w w' :=
  (stays_of_client same).trans stays

theorem stays_setClient (w : World n) (i : Fin n) {ctl : Controller} (same : ctl.stateFn = (w.client i).stateFn) :
    Stays w (w.setClient i ctl) := by
  refine stays_of_stateFn fun j => ?_
  rcases eq_or_ne j i with rfl | other
  · rw [← same]
    exact congrArg Controller.stateFn (Function.update_self ..)
  · exact congrArg Controller.stateFn (Function.update_of_ne other ..)

/-- A controller goes on to another state, but does not end. -/
theorem stays_moved (i : Fin n) (others : ∀ j, j ≠ i → (w'.client j).stateFn = (w.client j).stateFn)
    (allocated : (w'.client i).stateFn ≠ none) (alive : (w'.client i).stateFn ≠ some .free) : Stays w w' := by
  refine ⟨fun j here => ?_, fun j here => ?_⟩
  · rcases eq_or_ne j i with rfl | other
    · exact allocated
    · rwa [others j other]
  · rcases eq_or_ne j i with rfl | other
    · exact alive
    · rwa [others j other]

theorem stays_setState (w : World n) (i : Fin n) {state : CtlState} (goes : state ≠ .free) : Stays w (w.setState i state) := by
  have set : ((w.setState i state).client i).stateFn = some state := by simp [World.setState]
  apply stays_moved i
  · intro j other
    exact congrArg Controller.stateFn (Function.update_of_ne other ..)
  · rw [set]
    exact Option.some_ne_none _
  · rw [set]
    exact fun same => goes (Option.some.inj same)

theorem takeQueuedFd_stays (i : Fin n) (input : CallInput) (w : World n) :
    Ends (takeQueuedFd i input) w fun _ w' => Stays w w' := by
  simp only [takeQueuedFd, ends_bind, ends_get]
  cases (w.client i).recv.ancillaryFd with
  | nil => exact (ends_pure _).mpr (.refl w)
  | cons fd rest =>
    simp only [ends_bind, ends_modify]
    have taken : Stays w (w.setRecv i { (w.client i).recv with ancillaryFd := rest }) := stays_setClient w i rfl
    cases input.error with
    | some error =>
      simp only [ends_bind, ends_modify, ends_pure]
      exact taken.trans (stays_of_client (closeFd_client ..))
    | none =>
      simp only [ends_bind, ends_modify, ends_pure]
      exact (writeList_spec i input.writes _).mono fun _ w' sends =>
        taken.trans (sends.stays.of_client rfl)

theorem runHandler_stays (i : Fin n) (command : Command) (rest : StrSeg) (input : CallInput) (w : World n) :
    Ends (runHandler i command rest input) w fun _ w' => Stays w w' := by
  cases command with
  | echo => exact (ctlCmdEcho_spec i rest w).mono fun _ _ sends => sends.stays
  | exit =>
    refine (ctlCmdExit_spec i w).mono fun _ w' result => ?_
    obtain ⟨_, client, _⟩ := result
    apply stays_moved i
    · intro j other
      rw [client]
      exact congrArg Controller.stateFn (Function.update_of_ne other ..)
    · rw [client, setClient_client]
      exact Option.some_ne_none _
    · rw [client, setClient_client]
      exact fun same => by cases same
  | statedump =>
    simp only [runHandler, ctlCmdStatedump, ends_bind, ends_modify, ends_pure]
    exact stays_setState w i (by rintro ⟨⟩)
  | eventTimeout =>
    refine (ctlCmdEventPipeTimeout_spec i rest w).mono fun _ w' result => ?_
    rcases result with rfl | ⟨reset, close, rfl⟩
    · exact .refl _
    · have set : Stays w (w.setSend i { (w.client i).send with
          timeoutReset := reset * 4294967296, timeoutClose := close * 4294967296 }) := stays_setClient w i rfl
      exact set.trans (stays_of_client rfl)
  | fdTake => exact takeQueuedFd_stays i input w
  | other =>
    simp only [runHandler, ends_bind, ends_pure]
    exact (writeList_spec i input.writes w).mono fun _ _ sends => sends.stays

theorem dispatchLine_stays (i : Fin n) (input : CallInput) (w : World n) :
    Ends (dispatchLine i input) w fun _ w' => Stays w w' := by
  simp only [dispatchLine, ends_bind, ends_get, ends_modify]
  split
  · simp only [ends_ite, ends_pure]
    split_ifs
    · exact stays_of_client rfl
    · exact stays_of_client rfl
    · exact (ctlNotifyError_spec i _ _).mono fun _ _ sends => sends.stays.of_client rfl
  · rw [ends_bind]
    refine (runHandler_stays i _ _ input _).mono fun error w₁ stays => ?_
    cases error with
    | none => exact (ends_pure _).mpr (stays.of_client rfl)
    | some error =>
      exact (ctlNotifyError_spec i _ w₁).mono fun _ _ sends => (stays.trans sends.stays).of_client rfl

theorem rejectLongLine_stays (i : Fin n) (w : World n) : Ends (System.rejectLongLine i) w fun _ w' => Stays w w' := by
  have cleared : Stays w (w.setRecv i { (w.client i).recv with overflow := false }) := stays_setClient w i rfl
  simp only [System.rejectLongLine, ends_bind, ends_get, ends_modify, ends_ite, ends_pure]
  split
  · exact (ctlNotifyError_spec i _ _).mono fun _ _ sends => cleared.trans (sends.stays.of_client rfl)
  · exact cleared

end Stays

/-! ## Sessions -/

section Sessions

variable {n : ℕ} {ι κ : Type}

/-- The exit is left alone, but when the interactive session ends: then the daemon exits, unless the guard is set. -/
inductive SessionMove (s s' : System n ι κ) : Prop
  | same (flags : exitFlags s'.server = exitFlags s.server) (session : s'.interactive = s.interactive)
  | ended (flags : exitFlags s'.server =
        if s.server.terminateGuard = 0 then { exitFlags s.server with terminate := true } else exitFlags s.server)
      (opened : s.interactive ≠ none) (session : s'.interactive = none)

theorem SessionMove.refl (s : System n ι κ) : SessionMove s s := .same rfl rfl

theorem SessionMove.trans {s₁ s₂ s₃ : System n ι κ} (first : SessionMove s₁ s₂) (second : SessionMove s₂ s₃) :
    SessionMove s₁ s₃ := by
  cases first with
  | same flags session =>
    cases second with
    | same flags' session' => exact .same (flags'.trans flags) (session'.trans session)
    | ended flags' opened session' =>
      have guard : s₂.server.terminateGuard = s₁.server.terminateGuard := congrArg ExitFlags.guard flags
      exact .ended (by rw [flags', flags, guard]) (by rwa [← session]) session'
  | ended flags opened session =>
    cases second with
    | same flags' session' => exact .ended (flags'.trans flags) opened (session'.trans session)
    | ended flags' opened' session' => exact absurd session opened'

theorem noteClients_moves (before : World n) (s : System n ι κ) : SessionMove s (s.noteClients before) := by
  rw [System.noteClients]
  dsimp only
  split
  case isTrue gone =>
    have opened : s.interactive ≠ none := by
      rintro closed
      rw [closed] at gone
      cases gone
    rw [System.mainNotifyControllerFreed]
    split
    case isTrue unguarded => exact .ended (if_pos unguarded).symm opened rfl
    case isFalse guarded => exact .ended (if_neg guarded).symm opened rfl
  case isFalse => exact .same rfl rfl

theorem freed_eq_false {before after : World n} (stays : Stays before after) (i : Fin n) : System.freed before after i = false := by
  rw [System.freed, System.allocated]
  cases gone : (after.client i).stateFn with
  | some state => rfl
  | none =>
    have free : (before.client i).stateFn = none := by
      by_contra allocated
      exact stays.allocated i allocated gone
    rw [free]
    rfl

theorem noteClients_stays {before : World n} {s : System n ι κ} (stays : Stays before s.world) :
    (s.noteClients before).world = s.world ∧ (s.noteClients before).server = s.server ∧
      (s.noteClients before).interactive = s.interactive := by
  have none : s.interactive.any (System.freed before s.world) = false := by
    cases s.interactive with
    | none => rfl
    | some i => exact freed_eq_false stays i
  rw [System.noteClients]
  simp [none]

variable {α : Type}

/-- A function on the controllers that frees none. -/
theorem onWorld_stays {m : CtlM n α} {s : System n ι κ} {post : α → World n → Prop}
    (stays : Ensures m s.world fun a w => Stays s.world w ∧ post a w) :
    Ensures (System.onWorld m) s fun a s' =>
      s'.server = s.server ∧ s'.interactive = s.interactive ∧ Stays s.world s'.world ∧ post a s'.world := by
  have zoomed : Ensures (zoom System.world (fun world s => { s with world }) m) s fun a s₁ =>
      s₁.server = s.server ∧ s₁.interactive = s.interactive ∧ Stays s.world s₁.world ∧ post a s₁.world :=
    Ensures.zoom (stays.mono fun _ _ holds => ⟨rfl, rfl, holds⟩)
  refine Ensures.get_bind (zoomed.bind fun a s₁ ⟨server, session, alive, holds⟩ => Ensures.modify_bind (ensures_pure ?_))
  obtain ⟨world', server', session'⟩ := noteClients_stays alive
  rw [world', server', session']
  exact ⟨server, session, alive, holds⟩

/-- A function on the controllers may end the session. -/
theorem onWorld_moves (m : CtlM n α) (s : System n ι κ) : Ensures (System.onWorld m) s fun _ s' => SessionMove s s' := by
  have zoomed : Ensures (zoom System.world (fun world s => { s with world }) m) s fun _ s₁ => SessionMove s s₁ :=
    Ensures.zoom fun _ _ _ => .same rfl rfl
  refine Ensures.get_bind (zoomed.bind fun a s₁ move => Ensures.modify_bind (ensures_pure ?_))
  exact move.trans (noteClients_moves s.world s₁)

section Programs

variable [DecidableEq ι] [DecidableEq κ] {s : System n ι κ}

/-- The replies of `write` are set for a step. -/
theorem setReplies_same (replies : Fin n → List WriteReply) (s : System n ι κ) :
    Ensures (System.onWorld (modify fun w => { w with replies })) s fun _ s' =>
      s'.server = s.server ∧ s'.interactive = s.interactive ∧ Stays s.world s'.world ∧ s'.world.client = s.world.client := by
  have set : Ensures (modify fun w => { w with replies }) s.world fun _ w => Stays s.world w ∧ w.client = s.world.client :=
    ensures_modify ⟨stays_of_client rfl, rfl⟩
  exact onWorld_stays set

/-- Registering a handle touches the handles only. -/
theorem registerFd_handles (k : ℕ) (fdnum : ℤ) (flags : FdFlags) (mem : Option κ) (server : Server ι κ) :
    Ensures (System.registerFd k fdnum flags mem) server fun _ s' => ∃ fds openFds, s' = { server with fds, openFds } := by
  rw [System.registerFd]
  split
  · exact ensures_failure
  · have made : Ensures (onFdTable (fdProgram (.register (System.registerName k) fdnum flags mem))) server fun _ s' =>
        ∃ fds, s' = { server with fds } := Ensures.zoom fun _ fds _ => ⟨fds, rfl⟩
    refine made.bind fun result _ ⟨fds, same⟩ => ?_
    subst same
    cases result with
    | ok _ => exact ensures_modify ⟨fds, _, rfl⟩
    | error _ => exact ensures_failure

theorem during_ensures {phase : Phase} {m : SysM n ι κ α} {post : α → System n ι κ → Prop}
    (ensures : s.server.loop.phase = phase → s.waiting = false → Ensures m s post) : Ensures (System.during phase m) s post := by
  refine Ensures.get_bind ?_
  split
  case isTrue now => exact ensures now.1 now.2
  case isFalse => exact ensures_failure

end Programs

end Sessions

end DaemonProxy.Proofs
