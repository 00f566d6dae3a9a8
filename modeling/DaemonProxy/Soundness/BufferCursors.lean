import DaemonProxy.Proofs.EventStream

/-! # The cursors of the controllers' buffers

The position counters of `recv_buf` and `send_buf` and the length of the line stay in range in every state that a step
of the machine goes through, and every store into a buffer that the code makes in such a state is inside the buffer.
-/

namespace DaemonProxy.Soundness

open Lib Model Proofs

variable {n : ℕ} {ctl : Controller}

/-- The buffers of a controller. -/
inductive CtlBuffer
  | recv | send

def CtlBuffer.size : CtlBuffer → ℤ
  | .recv => recvBufSize
  | .send => sendBufSize

/-- In this state, the code may store a number of bytes into a buffer, from an index on. The arguments are the tests
that it makes before. -/
inductive BufferStore (ctl : Controller) : CtlBuffer → ℤ → ℤ → Prop
  /-- `read` and `recvmsg` in `ctl_read_more`. -/
  | read (opened : 0 ≤ ctl.recv.fd) (room : ctl.recv.buf.length < recvBufSize) :
      BufferStore ctl .recv ctl.recv.buf.length (recvBufSize - ctl.recv.buf.length)
  /-- The newline that `ctl_state_next_command` appends, and the NUL that then replaces it. -/
  | newline (waiting : ctl.stateFn = some .nextCommand) (gone : ctl.recv.fd < 0) : BufferStore ctl .recv ctl.recv.buf.length 1
  /-- The NUL in the place of the newline that it finds. -/
  | terminator (eol : ℕ) (found : ctl.recv.buf.findIdx? (· = 10) = some eol) : BufferStore ctl .recv eol 1
  /-- `create_missing_dirs`, which `fd.open` calls with a string that starts in the command: it writes between the start
  and the NUL that ends the string. -/
  | slash (start index : ℕ) (argument : start < ctl.recv.lineLen)
      (string : ∀ before, start ≤ before → before < index → ctl.recv.buf[before]? ≠ some 0) : BufferStore ctl .recv index 1
  /-- `memmove` in `ctl_state_end_command`. -/
  | shift : BufferStore ctl .recv 0 (ctl.recv.buf.length - ctl.recv.lineLen)
  /-- `vsnprintf` in `ctl_write`. -/
  | print : BufferStore ctl .send ctl.send.buf.length (sendBufSize - ctl.send.buf.length)
  /-- `memcpy` in `ctl_write`. -/
  | copy (msgLen : ℕ) (fits : (msgLen : ℤ) < sendBufSize - ctl.send.buf.length) : BufferStore ctl .send ctl.send.buf.length msgLen
  /-- `memmove` in `ctl_flush_outbuf`, after a `write` of lines. -/
  | flush (count : ℕ) (within : count ≤ throughEol ctl.send.buf) : BufferStore ctl .send 0 (ctl.send.buf.length - count)
  /-- `memcpy` of the overflow line. -/
  | overflow : BufferStore ctl .send 0 9

/-- The counters are in range, and so is what is stored. -/
structure CursorsInRange (ctl : Controller) : Prop where
  line : ctl.recv.lineLen ≤ ctl.recv.buf.length
  recv : ctl.recv.buf.length ≤ recvBufSize
  last : ctl.stateFn = some .nextCommand → ctl.recv.fd < 0 → ctl.recv.buf.length < recvBufSize
  send : ctl.send.buf.length < sendBufSize
  stores : ∀ buffer start count, BufferStore ctl buffer start count → 0 ≤ start ∧ 0 ≤ count ∧ start + count ≤ buffer.size

/-! ## The input -/

/-- What is kept of the input: a line in the buffer is ended by a NUL, and the end of the input is only seen when there
is room. -/
structure InputInRange (ctl : Controller) : Prop where
  terminated : 0 < ctl.recv.lineLen → ctl.recv.buf[ctl.recv.lineLen - 1]? = some 0
  fits : ctl.recv.buf.length ≤ recvBufSize
  waiting : ctl.stateFn = some .nextCommand → ctl.recv.lineLen = 0
  parked : ctl.stateFn = some .runCommand → 0 < ctl.recv.lineLen
  gone : ctl.recv.fd < 0 → ctl.recv.buf.length < recvBufSize ∨ 0 < ctl.recv.lineLen

theorem InputInRange.line (input : InputInRange ctl) : ctl.recv.lineLen ≤ ctl.recv.buf.length := by
  by_cases parked : 0 < ctl.recv.lineLen
  · obtain ⟨within, -⟩ := List.getElem?_eq_some_iff.mp (input.terminated parked)
    omega
  · omega

/-- A controller with nothing in its buffer. -/
theorem inputInRange_empty (empty : ctl.recv.buf = []) (none : ctl.recv.lineLen = 0) (state : ctl.stateFn ≠ some .runCommand) :
    InputInRange ctl := by
  have room : ctl.recv.buf.length < recvBufSize := by
    rw [empty]
    decide
  exact ⟨fun parked => by omega, room.le, fun _ => none, fun parked => absurd parked state, fun _ => .inl room⟩

/-- The state changes, but the buffer does not. -/
theorem InputInRange.move (input : InputInRange ctl) {state : Option CtlState} {recv : RecvSide} {send : SendSide}
    (buf : recv.buf = ctl.recv.buf) (lineLen : recv.lineLen = ctl.recv.lineLen)
    (fd : recv.fd < 0 → ctl.recv.fd < 0 ∨ recv.buf.length < recvBufSize ∨ 0 < recv.lineLen)
    (waiting : state = some .nextCommand → ctl.stateFn = some .nextCommand)
    (parked : state = some .runCommand → ctl.stateFn = some .runCommand) : InputInRange ⟨state, recv, send⟩ := by
  refine ⟨?_, buf ▸ input.fits, ?_, ?_, ?_⟩
  · rw [buf, lineLen]
    exact input.terminated
  · exact fun here => lineLen.trans (input.waiting (waiting here))
  · exact fun here => lineLen ▸ input.parked (parked here)
  · intro gone
    rcases fd gone with before | now
    · rw [buf, lineLen]
      exact input.gone before
    · exact now

/-- A line that ends at `eol` is the next command. -/
theorem inputInRange_parked {buf : Bytes} {eol : ℕ} (ended : buf[eol]? = some 0) (fits : buf.length ≤ recvBufSize)
    (state : ctl.stateFn = some .runCommand) (same : ctl.recv.buf = buf) (lineLen : ctl.recv.lineLen = eol + 1) :
    InputInRange ctl := by
  refine ⟨fun _ => ?_, same ▸ fits, ?_, fun _ => by omega, fun _ => .inr (by omega)⟩
  · rw [same, lineLen, Nat.add_sub_cancel, ended]
  · rw [state]
    rintro ⟨⟩

theorem InputInRange.effect {tail : Bytes → Prop} {w w' : World n} (input : ∀ i, InputInRange (w.client i))
    (effect : Effect tail w w') (j : Fin n) : InputInRange (w'.client j) := by
  have other : ∀ {i : Fin n} {ctl : Controller}, InputInRange ctl → InputInRange ((w.setClient i ctl).client j) :=
    fun {i ctl} changed => setClient_at (P := fun ctl _ => InputInRange ctl) (input j) fun _ => changed
  cases effect with
  | send i step =>
    have same := step.sameInput j
    exact (input j).move (congrArg _ same.recv) (congrArg _ same.recv) (fun gone => .inl (same.recv ▸ gone))
      same.stateFn.symm.trans same.stateFn.symm.trans
  | aside client => exact client ▸ input j
  | cleared | constructed => exact other (inputInRange_empty rfl rfl (by rintro ⟨⟩))
  | appends i | queuedFds i | overdue i | timeouts i => exact other ((input i).move rfl rfl .inl id id)
  | read i bytes opened nonempty room =>
    have line := (input i).line
    refine other ⟨fun parked => ?_, ?_, (input i).waiting, (input i).parked, fun gone => absurd opened (not_le.mpr gone)⟩
    · have parked : 0 < (w.client i).recv.lineLen := parked
      have within : (w.client i).recv.lineLen - 1 < (w.client i).recv.buf.length := by omega
      exact (List.getElem?_append_left within).trans ((input i).terminated parked)
    · rwa [List.length_append]
  | ended i opened room => exact other ((input i).move rfl rfl (fun _ => .inr (.inl room)) id id)
  | parked i eol waiting found =>
    obtain ⟨within, -⟩ := List.findIdx?_eq_some_iff_getElem.mp found
    exact other (inputInRange_parked (List.getElem?_set_self within) (List.length_set.trans_le (input i).fits) rfl rfl rfl)
  | completed i completes =>
    have room := ((input i).gone completes.gone).resolve_right (by rw [(input i).waiting completes.waiting]; simp)
    refine other (inputInRange_parked (List.getElem?_concat_length ..) ?_ rfl rfl rfl)
    rw [List.length_append, List.length_singleton]
    exact room
  | cut i waiting opened =>
    have none := (input i).waiting waiting
    refine other ⟨fun parked => absurd none parked.ne', ?_, fun _ => none, (input i).parked, fun gone => absurd opened (not_le.mpr gone)⟩
    exact (List.length_take_le' ..).trans (input i).fits
  | closing i waiting => exact other (inputInRange_empty rfl ((input i).waiting waiting) (by rintro ⟨⟩))
  | dispatched i | reported i => exact other ((input i).move rfl rfl .inl (by rintro ⟨⟩) (by rintro ⟨⟩))
  | finished i =>
    refine other ⟨fun parked => absurd parked (lt_irrefl 0), ?_, fun _ => rfl, by rintro ⟨⟩, fun gone => .inl ?_⟩
    · exact (List.length_drop ..).trans_le ((Nat.sub_le ..).trans (input i).fits)
    · have := (input i).gone gone
      have := (input i).fits
      have := (input i).line
      rw [List.length_drop]
      omega
  | moved i move =>
    have moves : ∀ state, state = CtlState.nextCommand ∨ state = .runCommand → ¬ ∃ source, DumpMove source state := by
      rintro _ (rfl | rfl) ⟨_, ⟨⟩⟩
    refine other ((input i).move rfl rfl .inl ?_ ?_)
    · exact fun here => absurd ⟨_, move⟩ (moves _ (.inl (Option.some.inj here)))
    · exact fun here => absurd ⟨_, move⟩ (moves _ (.inr (Option.some.inj here)))
  | exited i parked =>
    have line := (input i).parked parked
    exact other ((input i).move rfl rfl (fun _ => .inr (.inr line)) (by rintro ⟨⟩) (by rintro ⟨⟩))
  | destroyed i | freed i => exact other ((input i).move rfl rfl .inl (by rintro ⟨⟩) (by rintro ⟨⟩))

/-! ## The output -/

theorem sendBuf_effect {tail : Bytes → Prop} {w w' : World n} {j : Fin n} (fits : (w.client j).send.buf.length < sendBufSize)
    (effect : Effect tail w w') : (w'.client j).send.buf.length < sendBufSize := by
  cases effect.output j with
  | same same | overdue _ same =>
    rwa [show (w'.client j).send.buf = (w.client j).send.buf from congrArg OutputView.buf same]
  | fresh fd fresh =>
    rw [show (w'.client j).send.buf = [] from congrArg OutputView.buf fresh]
    decide
  | step step =>
    cases step with
    | accepted count =>
      simp only [World.acceptBytes, setLog_client, setSend_send, List.length_drop]
      omega
    | blocked | failed | refused => simpa [World.blockWrite, World.failWrite, World.refuse] using fits
    | discarded | cut =>
      simp only [World.dropOutput, setSend_send]
      decide
    | marked =>
      simp only [World.markOverflow, setSend_send]
      decide
    | queued msg clear room => simpa [World.queueText] using room

/-! ## Stores -/

theorem cursorsInRange_of (input : InputInRange ctl) (output : ctl.send.buf.length < sendBufSize) : CursorsInRange ctl := by
  have last : ctl.stateFn = some .nextCommand → ctl.recv.fd < 0 → ctl.recv.buf.length < recvBufSize := fun waiting gone =>
    (input.gone gone).resolve_right (by rw [input.waiting waiting]; simp)
  have line := input.line
  have fits := input.fits
  refine ⟨line, fits, last, output, ?_⟩
  rintro _ _ _ store
  cases store <;> simp only [CtlBuffer.size]
  case newline waiting gone =>
    have room := last waiting gone
    omega
  case terminator eol found =>
    obtain ⟨within, -⟩ := List.findIdx?_eq_some_iff_getElem.mp found
    omega
  case slash start index argument string =>
    -- the string does not go on after the end of the line
    have within : index < ctl.recv.lineLen := by
      by_contra beyond
      exact string (ctl.recv.lineLen - 1) (by omega) (by omega) (input.terminated (by omega))
    omega
  case flush count within =>
    have lines : throughEol ctl.send.buf ≤ ctl.send.buf.length :=
      (List.dropWhile_sublist _).length_le.trans_eq List.length_reverse
    omega
  case overflow => decide
  all_goals omega

/-- In every state that a run reaches, and in every state that the next step goes through, the cursors are in range. -/
theorem buffer_cursors_in_range {standard : ℕ} {events : List (CtlEvent n)} {w : World n}
    (reached : exec? ctlStep (World.init n standard) events = some w) :
    (∀ i, CursorsInRange (w.client i)) ∧ ∀ event w', ctlStep w event = some w' →
      Relation.ReflTransGen (fun before after : World n => Effect (fun _ => True) before after ∧
        (∀ i, CursorsInRange (before.client i)) ∧ ∀ i, CursorsInRange (after.client i)) w w' := by
  let Kept (w : World n) : Prop := ∀ i, InputInRange (w.client i) ∧ (w.client i).send.buf.length < sendBufSize
  have range : ∀ {w : World n}, Kept w → ∀ i, CursorsInRange (w.client i) := fun kept i =>
    cursorsInRange_of (kept i).1 (kept i).2
  have kept : ∀ w w' : World n, Kept w → Effect (fun _ => True) w w' → Kept w' := fun w w' kept effect i =>
    ⟨InputInRange.effect (fun i => (kept i).1) effect i, sendBuf_effect (kept i).2 effect⟩
  have start : Kept (World.init n standard) := fun i => ⟨inputInRange_empty rfl rfl (by rintro ⟨⟩), show 0 < sendBufSize by decide⟩
  have now : Kept w := reached_of_effects start kept reached
  refine ⟨range now, fun event w' step => ?_⟩
  have served : ¬ NoController w event := fun full => by
    rw [ctlStep_noController full] at step
    cases step
  obtain ⟨_, same, effects⟩ := ctlStep_effects event w served (lastLine_any w event)
  obtain rfl := Option.some.inj (same.symm.trans step)
  clear same step
  induction effects with
  | refl => exact .refl
  | tail before effect ih =>
    have middle := Effects.preserve kept before now
    exact ih.tail ⟨effect, range middle, range (kept _ _ middle effect)⟩

/-- A client that fills the buffer with a line is read from again once the line is cut. -/
theorem buffer_cursors_in_range_full_line : ∃ w, exec? ctlStep (World.init 1 3) [.new 0 1 false true true,
      .read 0 (.data 97 (List.replicate 2000 97) 0) [], .iterate 0 ⟨[], [], none⟩ false fun _ => []] = some w ∧
    ∀ i, CursorsInRange (w.client i) := by
  obtain ⟨w, reached, -⟩ := (Option.any_eq_true _ _).mp (show (exec? ctlStep (World.init 1 3) [.new 0 1 false true true,
    .read 0 (.data 97 (List.replicate 2000 97) 0) [], .iterate 0 ⟨[], [], none⟩ false fun _ => []]).any
      (fun w => (w.client 0).recv.overflow) = true by decide +kernel)
  exact ⟨w, reached, (buffer_cursors_in_range reached).1⟩

end DaemonProxy.Soundness
