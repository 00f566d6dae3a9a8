import DaemonProxy.Lib.Run
import DaemonProxy.Model.ControllerRun
import DaemonProxy.Proofs.ControllerSend

/-! # What a step of the controllers' machine can do

Every event of the machine is a sequence of effects, each on one controller and its record, with what holds when the
effect takes place. An invariant of the machine is what every effect keeps. What happens to descriptors is left open
here: it is an effect of its own, of which only is said that controllers and records stay as they are.
-/

namespace DaemonProxy.Proofs

open Lib Model

variable {n : ℕ}

/-- The line is the `exit` command. -/
def Exits (text : Bytes) : Prop := ctlFindCommand (splitAtSep 9 text).1 = some .exit

instance (text : Bytes) : Decidable (Exits text) := inferInstanceAs (Decidable (_ = _))

/-- The states of `statedump`, in the order in which they follow each other. -/
inductive DumpMove : CtlState → CtlState → Prop
  | start : DumpMove .endCommand .dumpFds
  | fds : DumpMove .dumpFds .dumpServices
  | services : DumpMove .dumpServices .dumpSignals
  | signals : DumpMove .dumpSignals .endCommand

/-- The controller is about to take what is left of its input as a last line. -/
structure Completes (w : World n) (i : Fin n) : Prop where
  waiting : (w.client i).stateFn = some .nextCommand
  gone : (w.client i).recv.fd < 0
  nonempty : (w.client i).recv.buf ≠ []
  partLine : (w.client i).recv.buf.getLast? ≠ some 10
  append : (w.client i).recv.appendFinalNewline = true

instance (w : World n) (i : Fin n) : Decidable (Completes w i) :=
  decidable_of_iff ((w.client i).stateFn = some .nextCommand ∧ (w.client i).recv.fd < 0 ∧ (w.client i).recv.buf ≠ [] ∧
      (w.client i).recv.buf.getLast? ≠ some 10 ∧ (w.client i).recv.appendFinalNewline = true)
    ⟨fun ⟨waiting, gone, nonempty, partLine, append⟩ => ⟨waiting, gone, nonempty, partLine, append⟩,
      fun ⟨waiting, gone, nonempty, partLine, append⟩ => ⟨waiting, gone, nonempty, partLine, append⟩⟩

/-- The controller that `ctl_ctor` makes of a zero-filled one. -/
def newController (recvFd sendFd : ℤ) (isSocket : Bool) : Controller where
  stateFn := some .nextCommand
  recv := { fd := recvFd, isSocket }
  send := { fd := sendFd, timeoutReset := writeTimeout / 2, timeoutClose := writeTimeout }

/-- An effect of the machine; `tail` is what is known of a last line. -/
inductive Effect (tail : Bytes → Prop) (w : World n) : World n → Prop
  | send {w' : World n} (i : Fin n) (step : SendStep i w w') : Effect tail w w'
  | aside {w' : World n} (client : w'.client = w.client) (log : w'.log = w.log) : Effect tail w w'
  /-- A controller is allocated, but cannot be constructed and is freed at once. -/
  | cleared (i : Fin n) (free : (w.client i).stateFn = none) : Effect tail w ((w.setClient i {}).setLog i {})
  | constructed (i : Fin n) (recvFd sendFd : ℤ) (isSocket : Bool) (free : (w.client i).stateFn = none) :
      Effect tail w ((w.setClient i (newController recvFd sendFd isSocket)).setLog i {})
  | appends (i : Fin n) (append : Bool) (started : (w.client i).stateFn = some .nextCommand)
      (empty : (w.client i).recv.buf = []) (clear : (w.client i).recv.overflow = false) (unused : w.log i = {}) :
      Effect tail w (w.setRecv i { (w.client i).recv with appendFinalNewline := append })
  | queuedFds (i : Fin n) (fds : List ℤ) : Effect tail w (w.setRecv i { (w.client i).recv with ancillaryFd := fds })
  | read (i : Fin n) (bytes : Bytes) (opened : 0 ≤ (w.client i).recv.fd) (nonempty : bytes ≠ [])
      (room : (w.client i).recv.buf.length + bytes.length ≤ recvBufSize) :
      Effect tail w ((w.setRecv i { (w.client i).recv with buf := (w.client i).recv.buf ++ bytes }).setLog i
        { w.log i with stream := (w.log i).stream ++ bytes })
  | ended (i : Fin n) (opened : 0 ≤ (w.client i).recv.fd) (room : (w.client i).recv.buf.length < recvBufSize) :
      Effect tail w ((w.setRecv i { (w.client i).recv with fd := -1 }).setLog i { w.log i with ended := true })
  | parked (i : Fin n) (eol : ℕ) (waiting : (w.client i).stateFn = some .nextCommand)
      (found : (w.client i).recv.buf.findIdx? (· = 10) = some eol)
      (whole : 0 ≤ (w.client i).recv.fd ∨ (w.client i).recv.buf.getLast? = some 10 ∨
        (w.client i).recv.appendFinalNewline = false) :
      Effect tail w (w.setClient i { w.client i with
        stateFn := some .runCommand
        recv := { (w.client i).recv with buf := (w.client i).recv.buf.set eol 0, lineLen := eol + 1 } })
  | completed (i : Fin n) (completes : Completes w i) (last : tail (w.client i).recv.buf) :
      Effect tail w (w.setClient i { w.client i with
        stateFn := some .runCommand
        recv := { (w.client i).recv with
          buf := (w.client i).recv.buf ++ [0], lineLen := (w.client i).recv.buf.length + 1 } })
  | cut (i : Fin n) (waiting : (w.client i).stateFn = some .nextCommand) (opened : 0 ≤ (w.client i).recv.fd)
      (noEol : (w.client i).recv.buf.findIdx? (· = 10) = none) (full : recvBufSize ≤ (w.client i).recv.buf.length) :
      Effect tail w (w.cutLine i)
  | closing (i : Fin n) (waiting : (w.client i).stateFn = some .nextCommand) (gone : (w.client i).recv.fd < 0)
      (noEol : (w.client i).recv.buf.findIdx? (· = 10) = none)
      (ignored : (w.client i).recv.buf = [] ∨ (w.client i).recv.appendFinalNewline = false) :
      Effect tail w (w.setClient i { w.client i with
        stateFn := some .close, recv := { (w.client i).recv with buf := [] } })
  | dispatched (i : Fin n) (parked : (w.client i).stateFn = some .runCommand)
      (whole : (w.client i).recv.overflow = false)
      (stays : ¬ Exits ((w.client i).recv.buf.take ((w.client i).recv.lineLen - 1))) :
      Effect tail w ((w.setState i .endCommand).setLog i { w.log i with
        items := (w.log i).items ++ [.line ((w.client i).recv.buf.take ((w.client i).recv.lineLen - 1))] })
  | reported (i : Fin n) (parked : (w.client i).stateFn = some .runCommand)
      (cut : (w.client i).recv.overflow = true) :
      Effect tail w ((w.setClient i { w.client i with
        stateFn := some .endCommand, recv := { (w.client i).recv with overflow := false } }).setLog i
        { w.log i with items := (w.log i).items ++ if (w.client i).recv.buf.head? = some 35 then [] else [.tooLong] })
  | finished (i : Fin n) (executed : (w.client i).stateFn = some .endCommand) :
      Effect tail w (w.setClient i { w.client i with
        stateFn := some .nextCommand
        recv := { (w.client i).recv with
          buf := (w.client i).recv.buf.drop (w.client i).recv.lineLen, lineLen := 0 } })
  | moved (i : Fin n) {source target : CtlState} (move : DumpMove source target)
      (here : (w.client i).stateFn = some source) : Effect tail w (w.setState i target)
  | exited (i : Fin n) (parked : (w.client i).stateFn = some .runCommand)
      (whole : (w.client i).recv.overflow = false)
      (exits : Exits ((w.client i).recv.buf.take ((w.client i).recv.lineLen - 1))) :
      Effect tail w ((w.setClient i { w.client i with
        stateFn := some .close, recv := { (w.client i).recv with fd := -1 } }).setLog i { w.log i with
        items := (w.log i).items ++ [.line ((w.client i).recv.buf.take ((w.client i).recv.lineLen - 1))] })
  | destroyed (i : Fin n) (allocated : (w.client i).stateFn ≠ none) : Effect tail w (w.setState i .free)
  | freed (i : Fin n) (destroyed : (w.client i).stateFn = some .free) :
      Effect tail w (w.setClient i { w.client i with stateFn := none })
  | overdue (i : Fin n) (pending : (w.client i).send.buf ≠ []) :
      Effect tail w (w.setSend i { (w.client i).send with overflow := true })
  | timeouts (i : Fin n) (reset close : ℤ) :
      Effect tail w ((w.setSend i { (w.client i).send with
        timeoutReset := reset * 4294967296, timeoutClose := close * 4294967296 }).setLog i
          { w.log i with timeouts := (w.log i).timeouts ++ [(reset, close)] })

/-- A sequence of effects. -/
abbrev Effects (tail : Bytes → Prop) : World n → World n → Prop := Relation.ReflTransGen (Effect tail)

variable {tail : Bytes → Prop}

variable {w w' : World n}

theorem Sends.effects (steps : Sends w w') : Effects tail w w' := by
  induction steps with
  | refl => exact .refl
  | tail _ step ih =>
    obtain ⟨i, step⟩ := step
    exact ih.tail (.send i step)

variable {I : World n → Prop}

/-- What every effect keeps, the effects keep. -/
theorem Effects.preserve (kept : ∀ w w', I w → Effect tail w w' → I w')
    (effects : Effects tail w w') (holds : I w) : I w' := by
  induction effects with
  | refl => exact holds
  | tail _ effect ih => exact kept _ _ ih effect

/-! ## Construction and destruction -/

section Updates

variable (w : World n) (i : Fin n)

@[simp] theorem setClient_client (ctl : Controller) : (w.setClient i ctl).client i = ctl := Function.update_self ..

@[simp] theorem setClient_log (ctl : Controller) : (w.setClient i ctl).log = w.log := rfl

@[simp] theorem setClient_setClient (first second : Controller) :
    (w.setClient i first).setClient i second = w.setClient i second := by
  simp only [World.setClient, Function.update_idem]

theorem setLog_self : w.setLog i (w.log i) = w := by
  rw [World.setLog, Function.update_eq_self]

section At

variable {w i} {j : Fin n} {ctl : Controller} {log : ClientLog} {P : Controller → ClientLog → Prop}

/-- What holds of a controller and its record still holds when controller `i` is changed, if it holds after the change. -/
theorem setClient_at (holds : P (w.client j) (w.log j)) (acts : i = j → P ctl (w.log j)) :
    P ((w.setClient i ctl).client j) ((w.setClient i ctl).log j) := by
  rcases eq_or_ne j i with rfl | other
  · simpa using acts rfl
  · simpa [World.setClient, other] using holds

theorem setClient_setLog_at (holds : P (w.client j) (w.log j)) (acts : i = j → P ctl log) :
    P (((w.setClient i ctl).setLog i log).client j) (((w.setClient i ctl).setLog i log).log j) := by
  rcases eq_or_ne j i with rfl | other
  · simpa using acts rfl
  · simpa [World.setClient, World.setLog, other] using holds

end At

end Updates

section Life

variable {i : Fin n} {w : World n}

theorem ctlAlloc_spec (w : World n) : Ends ctlAlloc w fun found w' => match found with
    | none => w' = w ∧ ∀ i, (w.client i).stateFn ≠ none
    | some i => (w.client i).stateFn = none ∧ w' = (w.setClient i { stateFn := some .free }).setLog i {} := by
  simp only [ctlAlloc, ends_bind, ends_get]
  cases found : (List.finRange n).find? fun i => (w.client i).stateFn.isNone with
  | none =>
    simp only [ends_pure]
    refine ⟨trivial, fun i free => ?_⟩
    have := List.find?_eq_none.mp found i (List.mem_finRange i)
    simp [free] at this
  | some i =>
    simp only [ends_bind, ends_modify, ends_pure]
    exact ⟨by simpa using List.find?_some found, trivial⟩

/-- Of controllers and records, the constructor changes the one controller, which is zero-filled before. -/
theorem ctlCtor_spec (recvFd sendFd : ℤ) (isSocket nonblock : Bool) (fresh : ∃ stateFn, w.client i = { stateFn }) :
    Ends (ctlCtor i recvFd sendFd isSocket nonblock) w fun made w' => if made then
      ∃ isSocket, w'.client = (w.setClient i (newController recvFd sendFd isSocket)).client ∧ w'.log = w.log
    else w' = w := by
  obtain ⟨stateFn, fresh⟩ := fresh
  simp only [ctlCtor, ends_bind, ends_ite, ends_modify, ends_pure, fresh]
  split_ifs
  · trivial
  -- the descriptors change hands afterwards
  · exact ⟨_, rfl, rfl⟩
  · exact ⟨_, rfl, rfl⟩
  · exact ⟨_, rfl, rfl⟩
  · exact ⟨_, rfl, rfl⟩

theorem closeFds_client (fds : List ℤ) (w : World n) :
    (fds.foldl (fun w fd => w.closeFd i fd) w).client = w.client ∧
      (fds.foldl (fun w fd => w.closeFd i fd) w).log = w.log := by
  induction fds generalizing w with
  | nil => exact ⟨rfl, rfl⟩
  | cons fd rest ih =>
    obtain ⟨client, log⟩ := ih (w.closeFd i fd)
    exact ⟨client.trans (closeFd_client ..), log.trans (closeFd_log ..)⟩

/-- Of controllers and records, the destructor changes the state of the one controller. -/
theorem ctlDtor_client (i : Fin n) (w : World n) :
    Ends (ctlDtor i) w fun _ w' => w'.client = (w.setState i .free).client ∧ w'.log = w.log := by
  -- the descriptors are closed first
  have closed : ∀ w₁ : World n, w₁.client = w.client → w₁.log = w.log →
      ((w.client i).recv.ancillaryFd.foldl (fun w fd => w.closeFd i fd) w₁ |>.setState i .free).client =
          (w.setState i .free).client ∧
        ((w.client i).recv.ancillaryFd.foldl (fun w fd => w.closeFd i fd) w₁ |>.setState i .free).log = w.log := by
    intro w₁ client log
    obtain ⟨client', log'⟩ := closeFds_client (i := i) (w.client i).recv.ancillaryFd w₁
    simp only [World.setState, World.setClient, client', client, log', log, and_self]
  simp only [ctlDtor, ends_bind, ends_get, ends_ite, ends_modify]
  split_ifs
  · exact closed _ (by simp) (by simp)
  · exact closed _ (by simp) (by simp)
  · exact closed _ (by simp) (by simp)
  · exact closed _ rfl rfl

theorem ctlDtor_spec (allocated : (w.client i).stateFn ≠ none) :
    Ends (ctlDtor i) w fun _ w' => Effects tail w w' ∧ (w'.client i).stateFn = some .free := by
  refine (ctlDtor_client i w).mono fun _ w' ⟨client, log⟩ => ⟨?_, ?_⟩
  · exact .head (.destroyed i allocated) (.single (.aside client log))
  · rw [client]
    simp [World.setState]

theorem ctlFree_spec (destroyed : (w.client i).stateFn = some .free) : Ends (ctlFree i) w fun _ w' => Effects tail w w' := by
  simp only [ctlFree, ends_modify]
  exact .single (.freed i destroyed)

theorem ctlDtor_ctlFree_spec (tail : Bytes → Prop) (allocated : (w.client i).stateFn ≠ none) :
    Ends (ctlDtor i) w fun _ w₁ => Ends (ctlFree i) w₁ fun _ w' => Effects tail w w' :=
  (ctlDtor_spec allocated).mono fun _ _ ⟨effects, destroyed⟩ => (ctlFree_spec destroyed).mono fun _ _ => effects.trans

end Life

/-! ## Input -/

section Input

variable {i : Fin n} {w w₁ w' : World n}

/-- Descriptors are queued for the controller; its buffer stays as it is. -/
structure TakesFds (tail : Bytes → Prop) (i : Fin n) (w w' : World n) : Prop where
  effects : Effects tail w w'
  fd : (w'.client i).recv.fd = (w.client i).recv.fd
  buf : (w'.client i).recv.buf = (w.client i).recv.buf

theorem TakesFds.refl (i : Fin n) (w : World n) : TakesFds tail i w w := ⟨.refl, rfl, rfl⟩

theorem TakesFds.trans (first : TakesFds tail i w w₁) (second : TakesFds tail i w₁ w') : TakesFds tail i w w' :=
  ⟨first.effects.trans second.effects, second.fd.trans first.fd, second.buf.trans first.buf⟩

theorem takesFds_aside (client : w'.client = w.client) (log : w'.log = w.log) : TakesFds tail i w w' :=
  ⟨.single (.aside client log), by rw [client], by rw [client]⟩

theorem takeAncillary_takesFds (i : Fin n) (fd : ℤ) (w : World n) : TakesFds tail i w (takeAncillary i fd w) := by
  rw [takeAncillary]
  split
  · exact ⟨.single (.queuedFds i _), by simp [World.setRecv], by simp [World.setRecv]⟩
  · exact takesFds_aside (closeFd_client ..) (closeFd_log ..)

theorem garbage_takesFds (i : Fin n) (garbage : List ℤ) (w : World n) :
    TakesFds tail i w (garbage.foldl (fun w fd => takeAncillary i fd w) w) := by
  induction garbage generalizing w with
  | nil => exact .refl i w
  | cons fd rest ih => exact (takeAncillary_takesFds i fd w).trans (ih _)

theorem receiveFds_client (i : Fin n) (passed : ℕ) (w : World n) :
    (receiveFds i passed w).2.client = w.client ∧ (receiveFds i passed w).2.log = w.log := by
  induction passed generalizing w with
  | zero => exact ⟨rfl, rfl⟩
  | succ passed ih => exact ih (w.openFd (.controller i))

theorem passFds_takesFds (i : Fin n) (passed : ℕ) (w : World n) : TakesFds tail i w (passFds i passed w) := by
  obtain ⟨client, log⟩ := receiveFds_client i passed w
  let received := { (receiveFds i passed w).2 with
    delivered := (receiveFds i passed w).2.delivered ++ (receiveFds i passed w).1.map fun fd => (i, fd) }
  have opened : TakesFds tail i w received := takesFds_aside client log
  exact opened.trans (garbage_takesFds i _ _)

theorem closeInput_effects (opened : 0 ≤ (w.client i).recv.fd) (room : (w.client i).recv.buf.length < recvBufSize) :
    Effects tail w (closeInput i w) := by
  have aside : Effect tail w (w.closeFd i (w.client i).recv.fd) := .aside (closeFd_client ..) (closeFd_log ..)
  have ended : Effect tail (w.closeFd i (w.client i).recv.fd) _ := .ended i (by rwa [closeFd_client])
    (by rwa [closeFd_client])
  rw [closeFd_client, closeFd_log] at ended
  exact .head aside (.single ended)

theorem ctlReadMore_spec (i : Fin n) (reply : ReadReply) (garbage : List ℤ) (w : World n) :
    Ends (ctlReadMore i reply garbage) w fun _ w' => Effects tail w w' := by
  rw [ctlReadMore, ends_bind, ends_get, ends_ite, ends_pure]
  split
  · exact .refl
  rename_i usable
  rw [ends_bind, ends_modify]
  have opened : 0 ≤ (w.client i).recv.fd := by omega
  have room : (w.client i).recv.buf.length < recvBufSize := by omega
  have called : TakesFds tail i w (w.record .read i (w.client i).recv.fd) := takesFds_aside rfl rfl
  have failed := called.trans (garbage_takesFds i garbage _)
  generalize (if w.holder (w.client i).recv.fd = none then ReadReply.fatal else reply) = outcome
  cases outcome with
  | data first rest passed =>
    simp only [ends_bind, ends_ite, ends_modify, ends_pure]
    have read : ∀ w₁, TakesFds tail i w w₁ → Effects tail w ((w₁.setRecv i { (w₁.client i).recv with
        buf := (w₁.client i).recv.buf ++ (first :: rest).take (recvBufSize - (w.client i).recv.buf.length) }).setLog i
        { w₁.log i with stream := (w₁.log i).stream ++
          (first :: rest).take (recvBufSize - (w.client i).recv.buf.length) }) := by
      intro w₁ taken
      apply taken.effects.tail
      apply Effect.read
      · rw [taken.fd]
        exact opened
      · have : recvBufSize - (w.client i).recv.buf.length ≠ 0 := by omega
        simp [List.take_eq_nil_iff, this]
      · rw [taken.buf, List.length_take]
        omega
    split_ifs
    · exact read _ (called.trans (passFds_takesFds i passed _))
    · exact read _ called
  | eof =>
    simp only [ends_bind, ends_modify, ends_pure]
    exact called.effects.trans (closeInput_effects (by rwa [called.fd]) (by rwa [called.buf]))
  | again =>
    simp only [ends_bind, ends_ite, ends_modify, ends_pure]
    split_ifs
    · exact failed.effects
    · exact called.effects
  | fatal =>
    simp only [ends_bind, ends_ite, ends_modify, ends_pure]
    split_ifs
    · exact failed.effects.trans (closeInput_effects (by rwa [failed.fd]) (by rwa [failed.buf]))
    · exact called.effects.trans (closeInput_effects (by rwa [called.fd]) (by rwa [called.buf]))

end Input

/-! ## Commands -/

section Commands

variable {i : Fin n} {w w' : World n}

theorem writeList_spec (i : Fin n) (writes : List (Bool × Message)) (w : World n) :
    Ends (writeList i writes) w fun _ w' => Sends w w' := by
  induction writes generalizing w with
  | nil => exact (ends_pure _).mpr .refl
  | cons write rest ih =>
    rw [writeList, ends_bind]
    refine (ctlWrite_spec _ write.2 w).mono fun _ w₁ written => ?_
    exact (ih w₁).mono fun _ _ later => written.sends.trans later

theorem emitLines_spec (allocated : (w.client i).stateFn ≠ none) (lines : List Message) :
    Ends (emitLines i lines) w fun _ w' => Sends w w' := by
  induction lines generalizing w with
  | nil => exact (ends_pure _).mpr .refl
  | cons msg rest ih =>
    rw [emitLines, ends_bind]
    refine (ctlOutBufReady_spec allocated).mono fun ready w₁ waited => ?_
    simp only [ends_ite, ends_bind, ends_pure]
    split
    · refine (ctlWrite_spec _ msg w₁).mono fun _ w₂ written => ?_
      have sends : Sends w w₂ := waited.1.sends.trans written.sends
      exact (ih (by rwa [(sends.sameInput i).stateFn])).mono fun _ _ later => sends.trans later
    · exact waited.1.sends

theorem ctlNotifyError_spec (i : Fin n) (text : Bytes) (w : World n) :
    Ends (ctlNotifyError i text) w fun _ w' => Sends w w' :=
  (ctlWrite_spec (some i) _ w).mono fun _ _ written => written.sends

/-- What `ctl_cmd_exit` does to the controller; the descriptor is closed. -/
theorem ctlCmdExit_spec (i : Fin n) (w : World n) : Ends (ctlCmdExit i) w fun error w' => error = none ∧
    w'.client = (w.setClient i { w.client i with
      stateFn := some .close, recv := { (w.client i).recv with fd := -1 } }).client ∧ w'.log = w.log := by
  simp only [ctlCmdExit, ends_bind, ends_get, ends_ite, ends_modify, ends_pure]
  split_ifs
  · simp [World.setRecv, World.setState, World.setClient]
  · simp [World.setRecv, World.setState, World.setClient]

theorem ctlCmdEcho_spec (i : Fin n) (command : StrSeg) (w : World n) :
    Ends (ctlCmdEcho i command) w fun _ w' => Sends w w' := by
  cases command with
  | none => exact (ends_pure _).mpr .refl
  | some text =>
    cases text with
    | nil => exact (ends_pure _).mpr .refl
    | cons c text =>
      simp only [ctlCmdEcho, ends_bind, ends_pure]
      exact (ctlWrite_spec (some i) _ w).mono fun _ _ written => written.sends

theorem ctlCmdEventPipeTimeout_spec (i : Fin n) (command : StrSeg) (w : World n) :
    Ends (ctlCmdEventPipeTimeout i command) w fun _ w' => w' = w ∨ ∃ reset close, w' = (w.setSend i { (w.client i).send with
      timeoutReset := reset * 4294967296, timeoutClose := close * 4294967296 }).setLog i
        { w.log i with timeouts := (w.log i).timeouts ++ [(reset, close)] } := by
  rw [ctlCmdEventPipeTimeout]
  split
  · exact (ends_pure _).mpr (.inl rfl)
  split
  · exact (ends_pure _).mpr (.inl rfl)
  simp only [ends_ite, ends_bind, ends_modify, ends_pure]
  split_ifs
  · exact .inl trivial
  · exact .inl trivial
  · exact .inr ⟨_, _, rfl⟩

theorem takeQueuedFd_spec (i : Fin n) (input : CallInput) (w : World n) :
    Ends (takeQueuedFd i input) w fun _ w' => Effects tail w w' := by
  simp only [takeQueuedFd, ends_bind, ends_get]
  cases (w.client i).recv.ancillaryFd with
  | nil => exact (ends_pure _).mpr .refl
  | cons fd rest =>
    simp only [ends_bind, ends_modify]
    have taken : Effect tail w (w.setRecv i { (w.client i).recv with ancillaryFd := rest }) := .queuedFds i rest
    cases input.error with
    | some error =>
      simp only [ends_bind, ends_modify, ends_pure]
      exact .head taken (.single (.aside (closeFd_client ..) (closeFd_log ..)))
    | none =>
      simp only [ends_bind, ends_modify, ends_pure]
      have handed : ∀ w₁ : World n, Effect tail w₁ (w₁.setHolder fd (some .other)) := fun _ => .aside rfl rfl
      exact (writeList_spec i input.writes _).mono fun _ w' sends => .head taken (.head (handed _) sends.effects)

theorem runHandler_spec (here : (w.client i).stateFn = some .endCommand) {command : Command} (stays : command ≠ .exit)
    (rest : StrSeg) (input : CallInput) :
    Ends (runHandler i command rest input) w fun _ w' => Effects tail w w' := by
  cases command with
  | echo => exact (ctlCmdEcho_spec i rest w).mono fun _ _ sends => sends.effects
  | exit => exact absurd rfl stays
  | statedump =>
    simp only [runHandler, ctlCmdStatedump, ends_bind, ends_modify, ends_pure]
    exact .single (.moved i .start here)
  | eventTimeout =>
    refine (ctlCmdEventPipeTimeout_spec i rest w).mono fun _ w' result => ?_
    rcases result with rfl | ⟨reset, close, rfl⟩
    · exact .refl
    · exact .single (.timeouts i reset close)
  | fdTake => exact takeQueuedFd_spec i input w
  | other =>
    simp only [runHandler, ends_bind, ends_pure]
    exact (writeList_spec i input.writes w).mono fun _ _ sends => sends.effects

end Commands

/-! ## State functions -/

section States

variable {i : Fin n} {w : World n}

theorem dispatchLine_spec (parked : (w.client i).stateFn = some .runCommand)
    (whole : (w.client i).recv.overflow = false) (input : CallInput) :
    Ends (dispatchLine i input) (w.setState i .endCommand) fun _ w' => Effects tail w w' := by
  simp only [dispatchLine, ends_bind, ends_get, ends_modify]
  have recv : ((w.setState i .endCommand).client i).recv = (w.client i).recv := by simp [World.setState]
  simp only [recv]
  have dispatched : _ → Effect tail w _ := .dispatched i parked whole
  have exited : _ → Effect tail w _ := .exited i parked whole
  generalize (w.client i).recv.buf.take ((w.client i).recv.lineLen - 1) = text at dispatched exited ⊢
  set w₁ : World n := (w.setState i .endCommand).setLog i { w.log i with items := (w.log i).items ++ [.line text] }
  have here : (w₁.client i).stateFn = some .endCommand := by simp [w₁, World.setState]
  change Ends _ w₁ _
  cases found : ctlFindCommand (splitAtSep 9 text).1 with
  | none =>
    have dispatched := dispatched fun exits => by cases found.symm.trans exits
    simp only [ends_ite, ends_pure]
    split
    · exact .single dispatched
    split
    · exact .single dispatched
    · exact (ctlNotifyError_spec i _ w₁).mono fun _ _ sends => .head dispatched sends.effects
  | some command =>
    simp only [ends_bind]
    by_cases stays : command = .exit
    · subst stays
      refine (ctlCmdExit_spec i w₁).mono fun error w₂ result => ?_
      obtain ⟨success, client, log⟩ := result
      subst success
      apply (ends_pure _).mpr
      refine .head (exited found) (.single (.aside ?_ log))
      rw [client]
      simp [w₁, World.setState, World.setClient]
    · have dispatched := dispatched fun exits => stays (Option.some.inj (found.symm.trans exits))
      refine (runHandler_spec here stays _ input).mono fun error w₂ (effects : Effects tail w₁ w₂) => ?_
      cases error with
      | none => exact (ends_pure _).mpr (.head dispatched effects)
      | some error =>
        refine (ctlNotifyError_spec i _ w₂).mono fun _ _ sends => ?_
        exact .head dispatched (effects.trans sends.effects)

theorem ctlStateRunCommand_spec (parked : (w.client i).stateFn = some .runCommand) (input : CallInput) :
    Ends (ctlStateRunCommand i input) w fun _ w' => Effects tail w w' := by
  rw [ctlStateRunCommand, ends_bind]
  refine (ctlOutBufReady_spec (by simp [parked])).mono fun ready w₁ waited => ?_
  have same := waited.1.sends.sameInput i
  have waited : Effects tail w w₁ := waited.1.sends.effects
  have parked : (w₁.client i).stateFn = some .runCommand := same.stateFn.trans parked
  have recv : ((w₁.setState i .endCommand).client i).recv = (w₁.client i).recv := by simp [World.setState]
  simp only [ends_ite, ends_bind, ends_modify, ends_get, ends_pure, recv]
  split
  · cases cut : (w₁.client i).recv.overflow with
    | false =>
      simp only [Bool.false_eq_true, if_false]
      exact (dispatchLine_spec parked cut input).mono fun _ _ effects => waited.trans effects
    | true =>
      have reported : Effect tail w₁ _ := .reported i parked cut
      simp only [if_true]
      split
      · rename_i counted
        rw [if_neg counted] at reported
        refine (ctlNotifyError_spec i _ _).mono fun _ _ sends => ?_
        apply waited.trans (.head _ sends.effects)
        simpa [World.setState, World.setRecv] using reported
      · rename_i comment
        rw [not_not] at comment
        rw [if_pos comment, List.append_nil] at reported
        have unlogged (ctl : Controller) : (w₁.setClient i ctl).setLog i (w₁.log i) = w₁.setClient i ctl :=
          setLog_self (w₁.setClient i ctl) i
        rw [unlogged] at reported
        apply waited.tail
        simpa [World.setState, World.setRecv] using reported
  · exact waited

theorem ctlStateNextCommand_spec (waiting : (w.client i).stateFn = some .nextCommand)
    (guarded : Completes w i → tail (w.client i).recv.buf) (input : CallInput) :
    Ends (ctlStateNextCommand i input) w fun _ w' => Effects tail w w' := by
  rw [ctlStateNextCommand, ends_bind]
  refine (emitLines_spec (by simp [waiting]) input.lines).mono fun done w₁ sends => ?_
  have emitted : Effects tail w w₁ := sends.effects
  have here := waiting
  have waiting : (w₁.client i).stateFn = some .nextCommand := (sends.sameInput i).stateFn.trans waiting
  have park : ∀ buf eol, w₁.parkLine i buf eol = w₁.setClient i { w₁.client i with
      stateFn := some .runCommand
      recv := { (w₁.client i).recv with buf := buf.set eol 0, lineLen := eol + 1 } } := fun buf eol => by
    simp [World.parkLine, World.setState, World.setRecv]
  rw [ends_ite]
  split
  swap
  · exact (ends_pure _).mpr emitted
  rw [ends_bind, ends_get, ends_ite]
  split
  · rename_i opened
    cases found : (w₁.client i).recv.buf.findIdx? (· = 10) with
    | some eol =>
      simp only [ends_bind, ends_modify, ends_pure, park]
      exact emitted.tail (.parked i eol waiting found (.inl opened))
    | none =>
      simp only [ends_ite, ends_bind, ends_modify, ends_pure]
      split
      · rename_i full
        exact emitted.tail (.cut i waiting opened found full)
      · exact emitted
  rename_i gone
  have gone : (w₁.client i).recv.fd < 0 := by omega
  simp only [ends_ite, ends_bind, ends_modify, ends_pure]
  split
  · -- nothing left
    rename_i empty
    have closing : Effect tail w₁ _ := .closing i waiting gone (by simp [empty]) (.inl empty)
    have same : { (w₁.client i).recv with buf := [] } = (w₁.client i).recv := by rw [← empty]
    rw [same] at closing
    exact emitted.tail closing
  rename_i nonempty
  split
  · rename_i partLine
    have completes : Completes w i := by
      have recv := (sends.sameInput i).recv
      rw [recv] at gone nonempty partLine
      exact ⟨here, gone, nonempty, partLine.1, partLine.2⟩
    have completed : Effect tail w₁ _ := .completed i ⟨waiting, gone, nonempty, partLine.1, partLine.2⟩
      ((sends.sameInput i).recv ▸ guarded completes)
    rw [park]
    apply emitted.tail
    convert completed using 4
    simp
  rename_i whole
  have terminated : (w₁.client i).recv.buf.getLast? = some 10 ∨ (w₁.client i).recv.appendFinalNewline = false := by
    simpa [or_iff_not_imp_left] using whole
  cases found : (w₁.client i).recv.buf.findIdx? (· = 10) with
  | some eol =>
    simp only [ends_bind, ends_modify, ends_pure, park]
    exact emitted.tail (.parked i eol waiting found (.inr terminated))
  | none =>
    simp only [ends_bind, ends_modify, ends_pure]
    have unended : (w₁.client i).recv.buf.getLast? ≠ some 10 := by
      intro ends
      have := List.findIdx?_eq_none_iff.mp found 10 (List.mem_of_getLast? ends)
      simp at this
    have closing : Effect tail w₁ _ := .closing i waiting gone found (.inr (terminated.resolve_left unended))
    apply emitted.tail
    simpa [World.setState, World.setRecv] using closing

theorem ctlStateEndCommand_spec (executed : (w.client i).stateFn = some .endCommand) :
    Ends (ctlStateEndCommand i) w fun _ w' => Effects tail w w' := by
  have finished : Effect tail w _ := .finished i executed
  simp only [ctlStateEndCommand, ends_bind, ends_modify, ends_pure]
  apply Relation.ReflTransGen.single
  simpa [World.setRecv, World.setState] using finished

theorem ctlStateClose_spec (closing : (w.client i).stateFn = some .close) : Ends (ctlStateClose i) w fun _ w' => Effects tail w w' := by
  have allocated : (w.client i).stateFn ≠ none := by simp [closing]
  simp only [ctlStateClose, ends_bind, ends_get, ends_ite, ends_pure]
  split_ifs
  · refine (ctlFlushOutbuf_spec allocated).mono fun done w₁ flushed => ?_
    have effects : Effects tail w w₁ := flushed.steps.sends.effects
    split
    · exact (ctlDtor_spec (flushed.steps.allocated allocated)).mono fun _ _ destroyed => effects.trans destroyed.1
    · exact effects
  · exact (ctlDtor_spec allocated).mono fun _ _ destroyed => destroyed.1

theorem ctlStateFree_spec (destroyed : (w.client i).stateFn = some .free) :
    Ends (ctlStateFree i) w fun _ w' => Effects tail w w' := by
  simp only [ctlStateFree, ends_bind, ends_pure]
  exact ctlFree_spec destroyed

theorem ctlStateDump_spec {source target : CtlState} (move : DumpMove source target)
    (here : (w.client i).stateFn = some source) (input : CallInput) :
    Ends (ctlStateDump i target input) w fun _ w' => Effects tail w w' := by
  rw [ctlStateDump, ends_bind]
  refine (emitLines_spec (by simp [here]) input.lines).mono fun done w₁ sends => ?_
  simp only [ends_ite, ends_bind, ends_modify, ends_pure]
  split
  · exact sends.effects.tail (.moved i move ((sends.sameInput i).stateFn.trans here))
  · exact sends.effects

theorem callState_spec {state : CtlState} (here : (w.client i).stateFn = some state)
    (guarded : Completes w i → tail (w.client i).recv.buf) (input : CallInput) :
    Ends (callState i state input) w fun _ w' => Effects tail w w' := by
  cases state with
  | nextCommand => exact ctlStateNextCommand_spec here guarded input
  | runCommand => exact ctlStateRunCommand_spec here input
  | endCommand => exact ctlStateEndCommand_spec here
  | close => exact ctlStateClose_spec here
  | free => exact ctlStateFree_spec here
  | dumpFds => exact ctlStateDump_spec .fds here input
  | dumpServices => exact ctlStateDump_spec .services here input
  | dumpSignals => exact ctlStateDump_spec .signals here input

end States

/-! ## The machine -/

section Machine

variable {i : Fin n} {w : World n}

theorem iterate_spec (i : Fin n) (input : CallInput) (last : Bool) (w : World n)
    (guarded : Completes w i → tail (w.client i).recv.buf) :
    Ends (iterate i input last) w fun _ w' => Effects tail w w' := by
  simp only [iterate, ends_bind, ends_get]
  cases here : (w.client i).stateFn with
  | none => exact (ends_pure _).mpr .refl
  | some state =>
    simp only [ends_bind, ends_get, ends_ite, ends_pure]
    refine (callState_spec here guarded input).mono fun again w₁ effects => ?_
    split
    · rename_i freed
      simp only [Bool.and_eq_true, decide_eq_true_eq] at freed
      exact (ctlStateFree_spec freed.2).mono fun _ _ => effects.trans
    · exact effects

theorem Effects.aside {w₁ : World n} (effects : Effects tail w w₁) (client : w'.client = w₁.client)
    (log : w'.log = w₁.log) : Effects tail w w' := effects.tail (.aside client log)

theorem checkTimeout_spec (allocated : (w.client i).stateFn ≠ none) (pending : (w.client i).send.buf ≠ []) :
    Ends (checkTimeout i) w fun _ w' => Effects tail w w' := by
  simp only [checkTimeout, ends_bind, ends_get, ends_ite, ends_modify, ends_pure]
  split
  · exact ctlDtor_ctlFree_spec tail allocated
  split
  · have overdue : Effects tail w _ := .single (.overdue i pending)
    exact overdue.aside rfl rfl
  · exact .single (.aside rfl rfl)

theorem outputPhase_spec (i : Fin n) (w : World n) : Ends (outputPhase i) w fun _ w' => Effects tail w w' := by
  simp only [outputPhase, ends_bind, ends_get, ends_ite, ends_modify, ends_pure, if_true]
  split
  swap
  · exact .refl
  rename_i allocated
  rw [Option.isSome_iff_ne_none] at allocated
  split
  · refine (ctlFlushOutbuf_spec allocated).mono fun done w₁ flushed => ?_
    have effects : Effects tail w w₁ := flushed.steps.sends.effects
    split
    · rename_i blocked
      have allocated₁ := flushed.steps.allocated allocated
      refine (checkTimeout_spec allocated₁ (flushed.pending blocked.1)).mono fun kept w₂ (later : Effects tail w₁ w₂) => ?_
      split_ifs
      · exact .aside (effects.trans later) rfl rfl
      · exact effects.trans later
      · exact effects.trans later
    · split_ifs
      · exact effects.aside rfl rfl
      · exact effects.aside rfl rfl
      · exact effects.aside rfl rfl
      · exact effects
  · split_ifs
    · exact .single (.aside rfl rfl)
    · exact .refl

/-- A controller that has just been allocated. -/
theorem allocated_fresh (w : World n) (i : Fin n) :
    let w₁ := (w.setClient i { stateFn := some .free }).setLog i {}
    (∃ stateFn, w₁.client i = { stateFn }) ∧ w₁.log i = {} := by
  refine ⟨⟨some .free, ?_⟩, ?_⟩
  · simp
  · simp

/-- Since `w`, controller `i` has been allocated. -/
structure JustAllocated (i : Fin n) (w w₁ : World n) : Prop where
  free : (w.client i).stateFn = none
  client : w₁.client = (w.setClient i { stateFn := some .free }).client
  log : w₁.log = (w.setLog i {}).log

namespace JustAllocated

variable {w₁ w' : World n}

theorem fresh (allocated : JustAllocated i w w₁) : ∃ stateFn, w₁.client i = { stateFn } :=
  ⟨some .free, by rw [allocated.client, setClient_client]⟩

theorem constructs (allocated : JustAllocated i w w₁) {recvFd sendFd : ℤ} {isSocket : Bool}
    (client : w'.client = (w₁.setClient i (newController recvFd sendFd isSocket)).client) (log : w'.log = w₁.log) :
    Effects tail w w' := by
  refine .head (.constructed i recvFd sendFd isSocket allocated.free) (.single (.aside ?_ ?_))
  · rw [client, World.setClient, allocated.client]
    exact Function.update_idem ..
  · rw [log, allocated.log]
    rfl

/-- It is freed again without having been constructed. -/
theorem clears (allocated : JustAllocated i w w₁) (client : w'.client = w₁.client) (log : w'.log = w₁.log) :
    Effects tail w (w'.setClient i { w'.client i with stateFn := none }) := by
  refine .head (.cleared i allocated.free) (.single (.aside ?_ ?_))
  · simp only [World.setClient, client, allocated.client, Function.update_self, Function.update_idem, World.setLog]
  · exact (log.trans allocated.log)

theorem destroys (allocated : JustAllocated i w w₁) :
    Ends (ctlDtor i) w₁ fun _ w₂ => Ends (ctlFree i) w₂ fun _ w' => Effects tail w w' := by
  refine (ctlDtor_client i w₁).mono fun _ w₂ ⟨client, log⟩ => ends_modify.mpr (allocated.clears ?_ log)
  rw [client, World.setState, World.setClient, allocated.client]
  simp [World.setClient]

end JustAllocated

theorem ctlNew_spec (recvFd sendFd : ℤ) (isSocket nonblock append : Bool) (w : World n) :
    Ends (ctlNew recvFd sendFd isSocket nonblock append) w fun _ w' => Effects tail w w' := by
  rw [ctlNew, ends_bind]
  refine (ctlAlloc_spec w).mono fun found w₁ result => ?_
  cases found with
  | none =>
    obtain ⟨rfl, -⟩ := result
    exact (ends_pure _).mpr .refl
  | some i =>
    obtain ⟨free, rfl⟩ := result
    have allocated : JustAllocated i w ((w.setClient i { stateFn := some .free }).setLog i {}) := ⟨free, rfl, rfl⟩
    simp only [ends_bind, ends_ite, ends_modify, ends_pure]
    refine (ctlCtor_spec recvFd sendFd isSocket nonblock allocated.fresh).mono fun made w₂ built => ?_
    cases made with
    | true =>
      obtain ⟨isSocket, client, log⟩ := built
      have started : w₂.client i = newController recvFd sendFd isSocket := by rw [client, setClient_client]
      have unused : w₂.log i = {} := by rw [log, setLog_log]
      refine (allocated.constructs client log).tail (.appends i append ?_ ?_ ?_ unused)
      · rw [started]
        rfl
      · rw [started]
        rfl
      · rw [started]
        rfl
    | false =>
      obtain rfl := built
      simp only [Bool.false_eq_true, if_false, ctlStateFree, ctlFree, ends_bind, ends_modify, ends_pure]
      exact allocated.clears rfl rfl

theorem svcControlSocket_spec (wantRead wantWrite socketpair nonblock fork : Bool)
    (free : ∃ i, (w.client i).stateFn = none) :
    Ends (svcControlSocket wantRead wantWrite socketpair nonblock fork) w fun _ w' => Effects tail w w' := by
  rw [svcControlSocket, ends_bind]
  refine (ctlAlloc_spec w).mono fun found w₁ result => ?_
  cases found with
  | none =>
    obtain ⟨i, free⟩ := free
    exact absurd free (result.2 i)
  | some i =>
    obtain ⟨free, rfl⟩ := result
    set w₁ : World n := (w.setClient i { stateFn := some .free }).setLog i {}
    simp only [ends_bind, ends_get, ends_ite, ends_modify]
    split
    · have allocated : JustAllocated i w ((w₁.openFd .other).openFd .other) := ⟨free, rfl, rfl⟩
      refine (ctlCtor_spec _ _ _ _ allocated.fresh).mono fun made w₃ built => ?_
      cases made with
      | true =>
        obtain ⟨isSocket, client, log⟩ := built
        have effects : Effects tail w w₃ := allocated.constructs client log
        split
        · have started : (w₃.client i).stateFn ≠ none := by
            rw [client, setClient_client]
            rintro ⟨⟩
          refine (ctlDtor_ctlFree_spec tail started).mono fun _ w₄ freed => freed.mono fun _ w₅ later => ?_
          exact .aside (effects.trans later) rfl rfl
        · exact effects.aside rfl rfl
      | false =>
        obtain rfl := built
        simp only [Bool.false_and, Bool.not_false, if_true]
        exact allocated.destroys.mono fun _ _ freed => freed.mono fun _ _ effects => effects.aside rfl rfl
    · have allocated : JustAllocated i w w₁ := ⟨free, rfl, rfl⟩
      exact allocated.destroys

theorem controlSocketRun_spec (accepts nonblock : Bool) (w : World n) :
    Ends (controlSocketRun accepts nonblock) w fun _ w' => Effects tail w w' := by
  rw [controlSocketRun, ends_bind]
  refine (ctlAlloc_spec w).mono fun found w₁ result => ?_
  cases found with
  | none =>
    obtain ⟨rfl, -⟩ := result
    exact (ends_pure _).mpr .refl
  | some i =>
    obtain ⟨free, rfl⟩ := result
    set w₁ : World n := (w.setClient i { stateFn := some .free }).setLog i {}
    simp only [ends_bind, ends_get, ends_ite, ends_modify, ends_pure]
    split
    · have allocated : JustAllocated i w (w₁.openFd .other) := ⟨free, rfl, rfl⟩
      refine (ctlCtor_spec _ _ _ _ allocated.fresh).mono fun made w₂ built => ?_
      cases made with
      | true =>
        obtain ⟨isSocket, client, log⟩ := built
        exact allocated.constructs client log
      | false =>
        obtain rfl := built
        exact allocated.destroys.mono fun _ _ freed => freed.mono fun _ _ effects => effects.aside rfl rfl
    · -- the controller is freed and constructed all the same
      have allocated : JustAllocated i w w₁ := ⟨free, rfl, rfl⟩
      simp only [ctlFree, ends_modify]
      have fresh : ∃ stateFn, (w₁.setClient i { w₁.client i with stateFn := none }).client i = { stateFn } :=
        ⟨none, by simp [w₁]⟩
      refine (ctlCtor_spec (-1) (-1) true nonblock fresh).mono fun made w₂ built => ?_
      cases made with
      | true =>
        obtain ⟨isSocket, client, log⟩ := built
        have built : w₂.client = (w₁.setClient i (newController (-1) (-1) isSocket)).client := by
          rw [client, setClient_setClient]
        exact allocated.constructs built log
      | false =>
        obtain rfl := built
        exact allocated.clears rfl rfl

/-- No free controller is left for a service that wants a control socket. -/
def NoController (w : World n) : CtlEvent n → Prop
  | .service wantRead wantWrite _ _ _ => (wantRead || wantWrite) = true ∧ ∀ i, (w.client i).stateFn ≠ none
  | _ => False

/-- If the event takes what is left of an input as a last line, that line is as `tail` says. -/
def LastLine (tail : Bytes → Prop) (w : World n) : CtlEvent n → Prop
  | .iterate i _ _ _ => Completes w i → tail (w.client i).recv.buf
  | _ => True

instance [DecidablePred tail] (w : World n) : (event : CtlEvent n) → Decidable (LastLine tail w event)
  | .iterate i _ _ _ => inferInstanceAs (Decidable (Completes w i → tail (w.client i).recv.buf))
  | .clock _ | .openOther | .closeOther _ | .new .. | .service .. | .accept .. | .notify .. | .read .. | .flush ..
  | .output .. => isTrue trivial

theorem ctlProgram_spec (event : CtlEvent n) (w : World n) (served : ¬ NoController w event)
    (guarded : LastLine tail w event) :
    Ends (ctlProgram event) w fun _ w' => Effects tail w w' := by
  have given : ∀ replies, Effect tail w { w with replies } := fun _ => .aside rfl rfl
  cases event with
  | clock | openOther => exact ends_modify.mpr (.single (.aside rfl rfl))
  | closeOther fd =>
    simp only [ctlProgram, ends_modify]
    split
    · exact .single (.aside rfl rfl)
    · exact .refl
  | new recvFd sendFd isSocket nonblock append =>
    simp only [ctlProgram, ends_bind, ends_get, ends_ite, ends_pure]
    split
    · exact ctlNew_spec recvFd sendFd isSocket nonblock append w
    · exact .refl
  | service wantRead wantWrite socketpair nonblock fork =>
    simp only [ctlProgram, ends_ite, ends_pure]
    split
    · rename_i wanted
      have free : ∃ i, (w.client i).stateFn = none := by
        by_contra none
        exact served ⟨wanted, fun i free => none ⟨i, free⟩⟩
      exact svcControlSocket_spec wantRead wantWrite socketpair nonblock fork free
    · exact .refl
  | accept accepts nonblock => exact controlSocketRun_spec accepts nonblock w
  | notify msg replies =>
    simp only [ctlProgram, ends_bind, ends_modify]
    exact (ctlWrite_spec none msg _).mono fun _ _ written => .head (given replies) written.sends.effects
  | read i reply garbage =>
    simp only [ctlProgram, ends_bind, ends_get, ends_ite, ends_pure]
    split
    · exact ctlReadMore_spec i reply garbage w
    · exact .refl
  | flush i replies =>
    simp only [ctlProgram, ends_bind, ends_get, ends_ite, ends_modify, ends_pure]
    split
    · rename_i connected
      rw [Bool.and_eq_true] at connected
      have allocated : (({ w with replies } : World n).client i).stateFn ≠ none :=
        Option.isSome_iff_ne_none.mp connected.1
      exact (ctlFlushOutbuf_spec allocated).mono fun _ _ flushed => .head (given replies) flushed.steps.sends.effects
    · exact .single (.aside rfl rfl)
  | iterate i input last replies =>
    simp only [ctlProgram, ends_bind, ends_modify]
    have guarded : Completes { w with replies } i → tail (w.client i).recv.buf := fun completes =>
      guarded ⟨completes.waiting, completes.gone, completes.nonempty, completes.partLine, completes.append⟩
    exact (iterate_spec i input last { w with replies } guarded).mono fun _ _ effects => .head (given replies) effects
  | output i replies =>
    simp only [ctlProgram, ends_bind, ends_modify]
    exact (outputPhase_spec i _).mono fun _ _ effects => .head (given replies) effects

/-- A step of the machine has effects only; it fails when a service finds no free controller. -/
theorem ctlStep_effects (event : CtlEvent n) (w : World n) (served : ¬ NoController w event)
    (guarded : LastLine tail w event) :
    ∃ w', ctlStep w event = some w' ∧ Effects tail w w' := by
  obtain ⟨_, w', run, effects⟩ := ctlProgram_spec event w served guarded
  exact ⟨w', by rw [ctlStep, run, Option.map_some], effects⟩

theorem ctlStep_noController {event : CtlEvent n} (full : NoController w event) : ctlStep w event = none := by
  cases event with
  | service wantRead wantWrite socketpair nonblock fork =>
    obtain ⟨wanted, taken⟩ := full
    obtain ⟨found, w₁, run, result⟩ := ctlAlloc_spec w
    cases found with
    | none =>
      rw [ctlStep, ctlProgram, if_pos wanted, svcControlSocket, StateT.run_bind, run]
      rfl
    | some i => exact absurd result.1 (taken i)
  | _ => exact full.elim

/-- What every effect keeps, a step keeps. -/
theorem ctlStep_preserves (kept : ∀ w w', I w → Effect tail w w' → I w') {event : CtlEvent n} (guarded : LastLine tail w event) (holds : I w) (step : ctlStep w event = some w') : I w' := by
  by_cases full : NoController w event
  · rw [ctlStep_noController full] at step
    cases step
  · obtain ⟨_, same, effects⟩ := ctlStep_effects event w full guarded
    obtain rfl := Option.some.inj (same.symm.trans step)
    exact effects.preserve kept holds

theorem lastLine_any (w : World n) (event : CtlEvent n) : LastLine (fun _ => True) w event := by
  cases event with
  | iterate => exact fun _ => trivial
  | _ => trivial

/-- What holds at the start and is kept by every effect holds in every state that is reached. -/
theorem reached_of_effects {standard : ℕ} (start : I (World.init n standard))
    (kept : ∀ w w', I w → Effect (fun _ => True) w w' → I w') {events : List (CtlEvent n)}
    (reached : exec? ctlStep (World.init n standard) events = some w) : I w :=
  exec?_preserves (fun w event _ holds step => ctlStep_preserves kept (lastLine_any w event) holds step) start reached

end Machine

end DaemonProxy.Proofs
