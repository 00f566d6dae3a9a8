import DaemonProxy.Lib.Segments
import DaemonProxy.Proofs.ControllerEffects

/-! # Framing of commands

What the lines of an input are, and the invariant that ties a controller to them: the lines consumed so far have been
dispatched, and the buffer stands for the rest of the input. When a line is cut its first byte stands for the bytes
that were dropped, of which there are enough to make the line too long.
-/

namespace DaemonProxy.Proofs

open Lib Model

variable {n : ℕ}

/-! ## The lines of an input -/

/-- What a line gives: itself, or an error if it is too long, unless it is a comment. -/
def frameLine (line : Bytes) : List Item :=
  if line.length < recvBufSize then [.line line] else if line.head? = some 35 then [] else [.tooLong]

/-- What the lines of an input give; an unterminated rest gives nothing. -/
def frames (input : Bytes) : List Item := (segments 10 input).flatMap frameLine

/-- The item is an `exit` command. -/
def ExitItem : Item → Prop
  | .line text => Exits text
  | .tooLong => False

instance : DecidablePred ExitItem
  | .line text => inferInstanceAs (Decidable (Exits text))
  | .tooLong => isFalse id

/-- The items up to the first `exit` command. -/
def untilExit : List Item → List Item
  | [] => []
  | item :: rest => if ExitItem item then [item] else item :: untilExit rest

/-- No `exit` command is among the items. -/
def NoExit (items : List Item) : Prop := ∀ item ∈ items, ¬ ExitItem item

/-- An `exit` command is the last of the items, and the only one. -/
def LastExit (items : List Item) : Prop := ∃ before text, items = before ++ [.line text] ∧ NoExit before ∧ Exits text

section Items

variable {items : List Item}

theorem NoExit.untilExit_append (stays : NoExit items) (more : List Item) :
    untilExit (items ++ more) = items ++ untilExit more := by
  induction items with
  | nil => rfl
  | cons item rest ih =>
    rw [List.cons_append, untilExit, if_neg (stays item List.mem_cons_self),
      ih fun other member => stays other (List.mem_cons_of_mem _ member), List.cons_append]

theorem LastExit.untilExit_append (exits : LastExit items) (more : List Item) : untilExit (items ++ more) = items := by
  obtain ⟨before, text, rfl, stays, exits⟩ := exits
  rw [List.append_assoc, stays.untilExit_append, List.singleton_append, untilExit, if_pos (show ExitItem (.line text) from exits)]

theorem NoExit.concat (stays : NoExit items) {more : List Item} (also : NoExit more) : NoExit (items ++ more) := by
  intro item member
  rcases List.mem_append.mp member with old | new
  · exact stays item old
  · exact also item new

theorem frames_append {first : Bytes} (whole : WholeSegments 10 first) (rest : Bytes) :
    frames (first ++ rest) = frames first ++ frames rest := by
  rw [frames, whole.segments_append, List.flatMap_append, frames, frames]

theorem frames_line {line : Bytes} (within : 10 ∉ line) : frames (line ++ [10]) = frameLine line := by
  rw [frames, segments_cons within, List.flatMap_cons]
  exact List.append_nil _

theorem frames_of_notMem {rest : Bytes} (within : 10 ∉ rest) : frames rest = [] := by
  rw [frames, segments_of_notMem within, List.flatMap_nil]

end Items

/-! ## What the buffer stands for -/

/-- The bytes a buffer stands for. -/
inductive StandsFor : Bool → Bytes → Bytes → Prop
  | whole (buf : Bytes) : StandsFor false buf buf
  | cut (first : UInt8) (skipped rest : Bytes) (long : recvBufSize ≤ skipped.length + 1) (within : 10 ∉ first :: skipped) :
      StandsFor true (first :: rest) (first :: (skipped ++ rest))

section StandsFor

variable {overflow : Bool} {buf rest : Bytes}

theorem StandsFor.append (stands : StandsFor overflow buf rest) (bytes : Bytes) :
    StandsFor overflow (buf ++ bytes) (rest ++ bytes) := by
  cases stands with
  | whole => exact .whole _
  | cut first skipped rest long within =>
    have longer := StandsFor.cut first skipped (rest ++ bytes) long within
    rwa [← List.append_assoc] at longer

theorem StandsFor.notMem (stands : StandsFor overflow buf rest) (within : 10 ∉ buf) : 10 ∉ rest := by
  cases stands with
  | whole => exact within
  | cut first skipped rest long without =>
    simp only [List.mem_cons, List.mem_append, not_or] at within without ⊢
    exact ⟨within.1, without.2, within.2⟩

theorem StandsFor.nil (stands : StandsFor overflow [] rest) : overflow = false ∧ rest = [] := by
  cases stands
  exact ⟨rfl, rfl⟩

theorem StandsFor.ne_nil (stands : StandsFor overflow buf rest) (nonempty : buf ≠ []) : rest ≠ [] := by
  cases stands with
  | whole => exact nonempty
  | cut => exact List.cons_ne_nil _ _

/-- Where the buffer ends in a newline, so does what it stands for, and the other way round. -/
theorem StandsFor.getLast (stands : StandsFor overflow buf rest) :
    buf.getLast? = some 10 ↔ rest.getLast? = some 10 := by
  cases stands with
  | whole => exact Iff.rfl
  | cut first skipped rest long within =>
    rcases List.eq_nil_or_concat' rest with rfl | ⟨rest, last, rfl⟩
    · rw [List.append_nil]
      refine ⟨fun ends => absurd (List.mem_of_getLast? ends) ?_, fun ends => absurd (List.mem_of_getLast? ends) within⟩
      exact fun member => within (List.mem_cons.mpr (.inl (List.mem_singleton.mp member)))
    · rw [← List.append_assoc, ← List.cons_append, ← List.cons_append, List.getLast?_concat, List.getLast?_concat]

/-- The first line of the buffer stands for the first line of the rest. -/
theorem StandsFor.line {line after : Bytes} (stands : StandsFor overflow (line ++ 10 :: after) rest) (within : 10 ∉ line) :
    ∃ full, StandsFor overflow line full ∧ rest = full ++ 10 :: after ∧ 10 ∉ full := by
  generalize same : line ++ 10 :: after = buf at stands
  cases stands with
  | whole => exact ⟨line, .whole line, same.symm, within⟩
  | cut first skipped rest long without =>
    cases line with
    | nil =>
      have first : (10 : UInt8) = first := (List.cons.inj same).1
      exact absurd (first ▸ List.mem_cons_self) without
    | cons c line =>
      obtain ⟨rfl, rfl⟩ := List.cons.inj same
      have stands := StandsFor.cut c skipped line long without
      exact ⟨_, stands, by simp, stands.notMem within⟩

/-- A buffer without a newline that is full can be cut to its first byte. -/
theorem StandsFor.take_one (stands : StandsFor overflow buf rest) (within : 10 ∉ buf) (full : recvBufSize ≤ buf.length) :
    StandsFor true (buf.take 1) rest := by
  cases stands with
  | whole =>
    cases buf with
    | nil => exact absurd full (by decide)
    | cons first skipped =>
      have stands := StandsFor.cut first skipped [] full within
      rwa [List.append_nil] at stands
  | cut first skipped rest long without =>
    have stands := StandsFor.cut first (skipped ++ rest) [] (by rw [List.length_append]; omega) (by
      simp only [List.mem_cons, List.mem_append, not_or] at within without ⊢
      exact ⟨within.1, without.2, within.2⟩)
    rwa [List.append_nil] at stands

/-- A line that was cut is too long; another one is the line in the buffer. -/
theorem StandsFor.frameLine {line full : Bytes} (stands : StandsFor overflow line full) (short : line.length < recvBufSize) :
    frameLine full = if overflow then (if line.head? = some 35 then [] else [.tooLong]) else [.line line] := by
  cases stands with
  | whole => rw [Proofs.frameLine, if_pos short, if_neg Bool.false_ne_true]
  | cut first skipped rest long without =>
    have long : ¬ (first :: (skipped ++ rest)).length < recvBufSize := by
      simp only [List.length_cons, List.length_append]
      omega
    rw [Proofs.frameLine, if_neg long, if_pos rfl, List.head?_cons, List.head?_cons]

end StandsFor

/-! ## The invariant -/

/-- What is to be framed: what was read, with a newline for a last line if that is asked for. -/
inductive Input (recv : RecvSide) (stream : Bytes) : Bytes → Prop
  | plain : Input recv stream stream
  | completed (append : recv.appendFinalNewline = true) (gone : recv.fd < 0) (partLine : ¬ WholeSegments 10 stream) :
      Input recv stream (stream ++ [10])

/-- The states in which a command has been dispatched and still stands in the buffer. -/
def Dispatched (state : CtlState) : Prop :=
  state = .endCommand ∨ state = .dumpFds ∨ state = .dumpServices ∨ state = .dumpSignals

/-- How a controller's state and buffer stand for the rest of the input. -/
inductive Stage : Option CtlState → RecvSide → List Item → Bytes → Prop
  | waiting {recv : RecvSide} {items : List Item} {rest : Bytes} (stays : NoExit items)
      (stands : StandsFor recv.overflow recv.buf rest) (room : recv.fd < 0 → recv.buf.length < recvBufSize) :
      Stage (some .nextCommand) recv items rest
  | parked {recv : RecvSide} {items : List Item} (stays : NoExit items) (line full after : Bytes)
      (buf : recv.buf = line ++ 0 :: after) (len : recv.lineLen = line.length + 1)
      (stands : StandsFor recv.overflow line full) (within : 10 ∉ full) :
      Stage (some .runCommand) recv items (full ++ 10 :: after)
  | dispatched {recv : RecvSide} {items : List Item} {rest : Bytes} {state : CtlState} (stays : NoExit items)
      (here : Dispatched state) (clear : recv.overflow = false) (line : Bytes) (buf : recv.buf = line ++ rest)
      (len : recv.lineLen = line.length) (nonempty : line ≠ []) : Stage (some state) recv items rest
  | closed {recv : RecvSide} {items : List Item} {rest : Bytes} (stays : NoExit items) (gone : recv.fd < 0)
      (within : 10 ∉ rest) (complete : recv.appendFinalNewline = true → rest = []) :
      Stage (some .close) recv items rest
  | exited {recv : RecvSide} {items : List Item} {rest : Bytes} (exits : LastExit items) (gone : recv.fd < 0) :
      Stage (some .close) recv items rest
  | vacated {recv : RecvSide} {items : List Item} {rest : Bytes} {state : Option CtlState}
      (gone : state = none ∨ state = some .free) (ends : NoExit items ∨ LastExit items) : Stage state recv items rest

/-- The lines of the input that were consumed have been dispatched, and the controller stands for the rest. -/
structure Framed (ctl : Controller) (log : ClientLog) (input consumed rest : Bytes) : Prop where
  source : Input ctl.recv log.stream input
  split : input = consumed ++ rest
  whole : WholeSegments 10 consumed
  items : log.items = frames consumed
  stage : Stage ctl.stateFn ctl.recv log.items rest
  fits : ctl.recv.buf.length ≤ recvBufSize

/-- The controller's input is framed. -/
def IsFramed (ctl : Controller) (log : ClientLog) : Prop := ∃ input consumed rest, Framed ctl log input consumed rest

section Invariant

variable {ctl : Controller} {log : ClientLog} {input consumed rest : Bytes}

theorem Input.congr {recv recv' : RecvSide} {stream : Bytes} (source : Input recv stream input)
    (append : recv'.appendFinalNewline = recv.appendFinalNewline) (gone : recv.fd < 0 → recv'.fd < 0) :
    Input recv' stream input := by
  cases source with
  | plain => exact .plain
  | completed asked closed partLine => exact .completed (append.trans asked) (gone closed) partLine

/-- A controller that has not read anything. -/
theorem isFramed_fresh (stage : Stage ctl.stateFn ctl.recv [] []) (empty : ctl.recv.buf = []) : IsFramed ctl {} :=
  ⟨[], [], [], .plain, rfl, .inl rfl, rfl, stage, by simp [empty]⟩

/-- Up to the first `exit` command, the items are those of the input. -/
theorem Stage.items {state : Option CtlState} {recv : RecvSide} {items : List Item} (stage : Stage state recv items rest) :
    NoExit items ∨ LastExit items := by
  cases stage with
  | waiting stays | parked stays | dispatched stays | closed stays => exact .inl stays
  | exited exits => exact .inr exits
  | vacated _ items => exact items

section Inversion

variable {recv : RecvSide} {items : List Item}

theorem Stage.of_waiting (stage : Stage (some .nextCommand) recv items rest) :
    NoExit items ∧ StandsFor recv.overflow recv.buf rest ∧ (recv.fd < 0 → recv.buf.length < recvBufSize) := by
  cases stage with
  | waiting stays stands room => exact ⟨stays, stands, room⟩
  | dispatched _ here => rcases here with other | other | other | other <;> cases other
  | vacated gone => rcases gone with gone | gone <;> cases gone

theorem Stage.of_parked (stage : Stage (some .runCommand) recv items rest) : NoExit items ∧
    ∃ line full after, rest = full ++ 10 :: after ∧ recv.buf = line ++ 0 :: after ∧ recv.lineLen = line.length + 1 ∧
      StandsFor recv.overflow line full ∧ 10 ∉ full := by
  cases stage with
  | parked stays line full after buf len stands within =>
    exact ⟨stays, line, full, after, rfl, buf, len, stands, within⟩
  | dispatched _ here => rcases here with other | other | other | other <;> cases other
  | vacated gone => rcases gone with gone | gone <;> cases gone

theorem Stage.of_dispatched {state : CtlState} (here : Dispatched state) (stage : Stage (some state) recv items rest) :
    NoExit items ∧ recv.overflow = false ∧ ∃ line, recv.buf = line ++ rest ∧ recv.lineLen = line.length ∧ line ≠ [] := by
  cases stage with
  | dispatched stays _ clear line buf len nonempty => exact ⟨stays, clear, line, buf, len, nonempty⟩
  | vacated gone =>
    rcases gone with gone | gone
    · cases gone
    · rcases here with rfl | rfl | rfl | rfl <;> cases gone
  | _ => rcases here with other | other | other | other <;> cases other

end Inversion

/-- What matters of a controller and its record. -/
theorem IsFramed.congr (framed : IsFramed ctl log) {ctl' : Controller} {log' : ClientLog}
    (stateFn : ctl'.stateFn = ctl.stateFn) (recv : ctl'.recv = ctl.recv) (stream : log'.stream = log.stream)
    (items : log'.items = log.items) : IsFramed ctl' log' := by
  obtain ⟨input, consumed, rest, source, split, whole, lines, stage, fits⟩ := framed
  rw [← recv, ← stream] at source
  rw [← stateFn, ← recv, ← items] at stage
  exact ⟨input, consumed, rest, source, split, whole, items.trans lines, stage, recv ▸ fits⟩

theorem IsFramed.queuedFds (framed : IsFramed ctl log) (fds : List ℤ) :
    IsFramed { ctl with recv := { ctl.recv with ancillaryFd := fds } } log := by
  obtain ⟨input, consumed, rest, source, split, whole, lines, stage, fits⟩ := framed
  refine ⟨input, consumed, rest, ?_, split, whole, lines, ?_, fits⟩
  · exact source.congr rfl id
  · generalize ctl.stateFn = state at stage
    cases stage with
    | waiting stays stands room => exact .waiting stays stands room
    | parked stays line full after buf len stands within => exact .parked stays line full after buf len stands within
    | dispatched stays here clear line buf len nonempty => exact .dispatched stays here clear line buf len nonempty
    | closed stays gone within complete => exact .closed stays gone within complete
    | exited exits gone => exact .exited exits gone
    | vacated gone ends => exact .vacated gone ends

/-- As long as there is more to come, the input is what was read. -/
theorem Framed.opened (framed : Framed ctl log input consumed rest) (opened : 0 ≤ ctl.recv.fd) : input = log.stream := by
  obtain ⟨source, -⟩ := framed
  cases source with
  | plain => rfl
  | completed _ gone => omega

theorem IsFramed.read (framed : IsFramed ctl log) (opened : 0 ≤ ctl.recv.fd) {bytes : Bytes}
    (room : ctl.recv.buf.length + bytes.length ≤ recvBufSize) :
    IsFramed { ctl with recv := { ctl.recv with buf := ctl.recv.buf ++ bytes } }
      { log with stream := log.stream ++ bytes } := by
  obtain ⟨input, consumed, rest, framed⟩ := framed
  obtain rfl := framed.opened opened
  obtain ⟨-, split, whole, items, stage, fits⟩ := framed
  refine ⟨_, consumed, rest ++ bytes, .plain, by rw [split, List.append_assoc], whole, items, ?_, by simpa using room⟩
  generalize ctl.stateFn = state at stage
  cases stage with
  | waiting stays stands => exact .waiting stays (stands.append bytes) fun gone => absurd opened (not_le.mpr gone)
  | parked stays line full after buf len stands within =>
    have buf : ctl.recv.buf ++ bytes = line ++ 0 :: (after ++ bytes) := by rw [buf, List.append_assoc, List.cons_append]
    have parked : Stage (some .runCommand) { ctl.recv with buf := ctl.recv.buf ++ bytes } log.items
        (full ++ 10 :: (after ++ bytes)) := .parked stays line full (after ++ bytes) buf len stands within
    simpa using parked
  | dispatched stays here clear line buf len nonempty =>
    exact .dispatched stays here clear line (by simp [buf]) len nonempty
  | closed stays gone => omega
  | exited exits gone => omega
  | vacated gone ends => exact .vacated gone ends

theorem IsFramed.ended (framed : IsFramed ctl log) (opened : 0 ≤ ctl.recv.fd) (room : ctl.recv.buf.length < recvBufSize) :
    IsFramed { ctl with recv := { ctl.recv with fd := -1 } } { log with ended := true } := by
  obtain ⟨input, consumed, rest, framed⟩ := framed
  obtain rfl := framed.opened opened
  obtain ⟨-, split, whole, items, stage, fits⟩ := framed
  refine ⟨_, consumed, rest, .plain, split, whole, items, ?_, fits⟩
  generalize ctl.stateFn = state at stage
  cases stage with
  | waiting stays stands => exact .waiting stays stands fun _ => room
  | parked stays line full after buf len stands within => exact .parked stays line full after buf len stands within
  | dispatched stays here clear line buf len nonempty => exact .dispatched stays here clear line buf len nonempty
  | closed stays gone => omega
  | exited exits gone => omega
  | vacated gone ends => exact .vacated gone ends

/-- What a newline is found in the buffer for. -/
theorem eq_of_findIdx_eol {buf : Bytes} {eol : ℕ} (found : buf.findIdx? (· = 10) = some eol) :
    ∃ line after, buf = line ++ 10 :: after ∧ 10 ∉ line ∧ line.length = eol ∧ buf.set eol 0 = line ++ 0 :: after := by
  obtain ⟨inside, here, before⟩ := List.findIdx?_eq_some_iff_getElem.mp found
  have here : buf[eol] = 10 := by simpa using here
  have split : buf = buf.take eol ++ 10 :: buf.drop (eol + 1) := by
    rw [← here, List.getElem_cons_drop, List.take_append_drop]
  have len : (buf.take eol).length = eol := by
    rw [List.length_take]
    omega
  refine ⟨buf.take eol, buf.drop (eol + 1), split, fun member => ?_, len, ?_⟩
  · obtain ⟨k, bound, same⟩ := List.mem_take_iff_getElem.mp member
    have := before k (by omega)
    simp [same] at this
  · rw [List.set_eq_take_append_cons_drop, if_pos inside]

theorem notMem_of_findIdx_eol {buf : Bytes} (none : buf.findIdx? (· = 10) = none) : 10 ∉ buf := fun member => by
  simpa using List.findIdx?_eq_none_iff.mp none 10 member

theorem IsFramed.parked (framed : IsFramed ctl log) (waiting : ctl.stateFn = some .nextCommand) {eol : ℕ}
    (found : ctl.recv.buf.findIdx? (· = 10) = some eol) :
    IsFramed { ctl with
      stateFn := some .runCommand, recv := { ctl.recv with buf := ctl.recv.buf.set eol 0, lineLen := eol + 1 } } log := by
  obtain ⟨input, consumed, rest, source, split, whole, items, stage, fits⟩ := framed
  refine ⟨input, consumed, rest, ?_, split, whole, items, ?_, by simpa using fits⟩
  · exact source.congr rfl id
  · rw [waiting] at stage
    obtain ⟨line, after, buf, within, rfl, marked⟩ := eq_of_findIdx_eol found
    obtain ⟨stays, stands, -⟩ := stage.of_waiting
    rw [buf] at stands
    obtain ⟨full, first, rfl, without⟩ := stands.line within
    exact .parked stays line full after marked rfl first without

theorem IsFramed.completed (framed : IsFramed ctl log) (waiting : ctl.stateFn = some .nextCommand)
    (gone : ctl.recv.fd < 0) (nonempty : ctl.recv.buf ≠ []) (partLine : ctl.recv.buf.getLast? ≠ some 10)
    (append : ctl.recv.appendFinalNewline = true) (within : 10 ∉ ctl.recv.buf) :
    IsFramed { ctl with
      stateFn := some .runCommand
      recv := { ctl.recv with buf := ctl.recv.buf ++ [0], lineLen := ctl.recv.buf.length + 1 } } log := by
  obtain ⟨input, consumed, rest, source, split, whole, items, stage, fits⟩ := framed
  rw [waiting] at stage
  obtain ⟨stays, stands, room⟩ := stage.of_waiting
  have unfinished : ¬ WholeSegments 10 rest := by
    rintro (empty | ends)
    · exact stands.ne_nil nonempty empty
    · exact partLine (stands.getLast.mpr ends)
  have plain : input = log.stream := by
    cases source with
    | plain => rfl
    | completed =>
      -- the newline has been added already, so that the rest is not a part of a line
      exact absurd ((wholeSegments_append whole rest).mp (split ▸ wholeSegments_concat _)) unfinished
  subst plain
  have unended : ¬ WholeSegments 10 log.stream := by
    rwa [split, wholeSegments_append whole]
  refine ⟨log.stream ++ [10], consumed, rest ++ [10], .completed append gone unended, by rw [split, List.append_assoc], whole,
    items, ?_, by
      rw [List.length_append, List.length_singleton]
      exact room gone⟩
  exact .parked stays ctl.recv.buf rest [] rfl rfl stands (stands.notMem within)

theorem IsFramed.cut (framed : IsFramed ctl log) (waiting : ctl.stateFn = some .nextCommand) (opened : 0 ≤ ctl.recv.fd)
    (noEol : ctl.recv.buf.findIdx? (· = 10) = none) (full : recvBufSize ≤ ctl.recv.buf.length) :
    IsFramed { ctl with recv := { ctl.recv with buf := ctl.recv.buf.take 1, overflow := true } } log := by
  obtain ⟨input, consumed, rest, framed⟩ := framed
  obtain rfl := framed.opened opened
  obtain ⟨-, split, whole, items, stage, fits⟩ := framed
  rw [waiting] at stage
  obtain ⟨stays, stands, room⟩ := stage.of_waiting
  have within := notMem_of_findIdx_eol noEol
  have cut := stands.take_one within full
  refine ⟨_, consumed, rest, .plain, split, whole, items, ?_, ?_⟩
  · rw [waiting]
    exact .waiting stays cut fun gone => absurd opened (not_le.mpr gone)
  · exact (List.length_take_le' ..).trans fits

theorem IsFramed.closing (framed : IsFramed ctl log) (waiting : ctl.stateFn = some .nextCommand) (gone : ctl.recv.fd < 0)
    (noEol : ctl.recv.buf.findIdx? (· = 10) = none) (ignored : ctl.recv.buf = [] ∨ ctl.recv.appendFinalNewline = false) :
    IsFramed { ctl with stateFn := some .close, recv := { ctl.recv with buf := [] } } log := by
  obtain ⟨input, consumed, rest, source, split, whole, items, stage, fits⟩ := framed
  rw [waiting] at stage
  obtain ⟨stays, stands, -⟩ := stage.of_waiting
  have within := notMem_of_findIdx_eol noEol
  refine ⟨input, consumed, rest, ?_, split, whole, items, .closed stays gone (stands.notMem within) ?_, Nat.zero_le _⟩
  · exact source.congr rfl id
  · intro append
    have empty := ignored.resolve_right fun other => Bool.false_ne_true (other.symm.trans append)
    rw [empty] at stands
    exact stands.nil.2

/-- The line that is parked in the buffer, and what it gives. -/
theorem Framed.first (framed : Framed ctl log input consumed rest) (parked : ctl.stateFn = some .runCommand) :
    NoExit log.items ∧ ∃ line after, ctl.recv.buf = line ++ 0 :: after ∧ ctl.recv.lineLen = line.length + 1 ∧
      ctl.recv.buf.take (ctl.recv.lineLen - 1) = line ∧ ctl.recv.buf.head? = (line ++ [0]).head? ∧
      ∃ full, input = (consumed ++ (full ++ [10])) ++ after ∧ WholeSegments 10 (consumed ++ (full ++ [10])) ∧
        frames (consumed ++ (full ++ [10])) = log.items ++
          if ctl.recv.overflow then (if line.head? = some 35 then [] else [.tooLong]) else [.line line] := by
  obtain ⟨source, split, whole, items, stage, fits⟩ := framed
  rw [parked] at stage
  obtain ⟨stays, line, full, after, rfl, buf, len, stands, within⟩ := stage.of_parked
  have short : line.length < recvBufSize := by
    rw [buf] at fits
    simp only [List.length_append, List.length_cons] at fits
    omega
  refine ⟨stays, line, after, buf, len, ?_, ?_, full, ?_, ?_, ?_⟩
  · rw [buf, len, Nat.add_sub_cancel, List.take_left]
  · rw [buf]
    cases line <;> rfl
  · rw [split]
    simp
  · rw [wholeSegments_append whole]
    exact wholeSegments_concat full
  · rw [frames_append whole, frames_line within, items, stands.frameLine short]

theorem IsFramed.dispatched (framed : IsFramed ctl log) (parked : ctl.stateFn = some .runCommand)
    (clear : ctl.recv.overflow = false) (stays : ¬ Exits (ctl.recv.buf.take (ctl.recv.lineLen - 1))) :
    IsFramed { ctl with stateFn := some .endCommand }
      { log with items := log.items ++ [.line (ctl.recv.buf.take (ctl.recv.lineLen - 1))] } := by
  obtain ⟨input, consumed, rest, framed⟩ := framed
  obtain ⟨quiet, line, after, buf, len, taken, -, full, split, whole, items⟩ := framed.first parked
  rw [clear, if_neg Bool.false_ne_true] at items
  rw [taken] at stays ⊢
  have quiet' : NoExit (log.items ++ [.line line]) := by
    apply quiet.concat
    intro item member
    obtain rfl := List.mem_singleton.mp member
    exact stays
  refine ⟨input, _, after, framed.source, split, whole, items.symm, ?_, framed.fits⟩
  exact .dispatched quiet' (.inl rfl) clear (line ++ [0]) (by simp [buf]) (by simp [len]) (by simp)

theorem IsFramed.reported (framed : IsFramed ctl log) (parked : ctl.stateFn = some .runCommand)
    (cut : ctl.recv.overflow = true) :
    IsFramed { ctl with stateFn := some .endCommand, recv := { ctl.recv with overflow := false } }
      { log with items := log.items ++ if ctl.recv.buf.head? = some 35 then [] else [.tooLong] } := by
  obtain ⟨input, consumed, rest, framed⟩ := framed
  obtain ⟨quiet, line, after, buf, len, -, head, full, split, whole, items⟩ := framed.first parked
  have head : ctl.recv.buf.head? = some 35 ↔ line.head? = some 35 := by
    rw [head]
    cases line <;> simp
  simp only [cut, if_true] at items
  simp only [head]
  have quiet' : NoExit (log.items ++ if line.head? = some 35 then [] else [.tooLong]) := by
    apply quiet.concat
    intro item member
    split at member
    · cases member
    · obtain rfl := List.mem_singleton.mp member
      exact id
  have source : Input { ctl.recv with overflow := false } log.stream input :=
    framed.source.congr rfl id
  refine ⟨input, _, after, source, split, whole, items.symm, ?_, framed.fits⟩
  exact .dispatched quiet' (.inl rfl) rfl (line ++ [0]) (by simp [buf]) (by simp [len]) (by simp)

theorem IsFramed.exited (framed : IsFramed ctl log) (parked : ctl.stateFn = some .runCommand)
    (clear : ctl.recv.overflow = false) (exits : Exits (ctl.recv.buf.take (ctl.recv.lineLen - 1))) :
    IsFramed { ctl with stateFn := some .close, recv := { ctl.recv with fd := -1 } }
      { log with items := log.items ++ [.line (ctl.recv.buf.take (ctl.recv.lineLen - 1))] } := by
  obtain ⟨input, consumed, rest, framed⟩ := framed
  obtain ⟨quiet, line, after, buf, len, taken, -, full, split, whole, items⟩ := framed.first parked
  rw [clear, if_neg Bool.false_ne_true] at items
  rw [taken] at exits ⊢
  have source : Input { ctl.recv with fd := -1 } log.stream input :=
    framed.source.congr rfl fun _ => show (-1 : ℤ) < 0 by decide
  refine ⟨input, _, after, source, split, whole, items.symm, ?_, framed.fits⟩
  exact .exited ⟨log.items, line, rfl, quiet, exits⟩ (show (-1 : ℤ) < 0 by decide)

theorem IsFramed.finished (framed : IsFramed ctl log) (executed : ctl.stateFn = some .endCommand) :
    IsFramed { ctl with
      stateFn := some .nextCommand
      recv := { ctl.recv with buf := ctl.recv.buf.drop ctl.recv.lineLen, lineLen := 0 } } log := by
  obtain ⟨input, consumed, rest, source, split, whole, items, stage, fits⟩ := framed
  rw [executed] at stage
  obtain ⟨stays, clear, line, buf, len, nonempty⟩ := stage.of_dispatched (.inl rfl)
  have left : ctl.recv.buf.drop ctl.recv.lineLen = rest := by rw [buf, len, List.drop_left]
  have shorter : rest.length < recvBufSize := by
    rw [buf, List.length_append] at fits
    have := List.length_pos_iff.mpr nonempty
    omega
  rw [left]
  refine ⟨input, consumed, rest, ?_, split, whole, items, ?_, shorter.le⟩
  · exact source.congr rfl id
  · apply Stage.waiting stays
    · rw [show ctl.recv.overflow = false from clear]
      exact .whole rest
    · exact fun _ => shorter

theorem IsFramed.moved (framed : IsFramed ctl log) {source target : CtlState} (move : DumpMove source target)
    (here : ctl.stateFn = some source) : IsFramed { ctl with stateFn := some target } log := by
  obtain ⟨input, consumed, rest, taken, split, whole, items, stage, fits⟩ := framed
  rw [here] at stage
  have both : Dispatched source ∧ Dispatched target := by
    cases move <;> simp [Dispatched]
  obtain ⟨stays, clear, line, buf, len, nonempty⟩ := stage.of_dispatched both.1
  exact ⟨input, consumed, rest, taken, split, whole, items, .dispatched stays both.2 clear line buf len nonempty, fits⟩

theorem IsFramed.vacated (framed : IsFramed ctl log) {state : Option CtlState} (gone : state = none ∨ state = some .free) :
    IsFramed { ctl with stateFn := state } log := by
  obtain ⟨input, consumed, rest, source, split, whole, items, stage, fits⟩ := framed
  exact ⟨input, consumed, rest, source, split, whole, items, .vacated gone stage.items, fits⟩

end Invariant

/-! ## Effects -/

/-- Framing is claimed where no newline is added, or where one is only added to a single line. -/
def FramedIf (tail : Bytes → Prop) (ctl : Controller) (log : ClientLog) : Prop :=
  (ctl.recv.appendFinalNewline = false ∨ ∀ buf, tail buf → 10 ∉ buf) → IsFramed ctl log

section Effects

variable {tail : Bytes → Prop} {w : World n}

theorem FramedIf.effect {w' : World n} (framed : ∀ i, FramedIf tail (w.client i) (w.log i)) (effect : Effect tail w w')
    (j : Fin n) : FramedIf tail (w'.client j) (w'.log j) := by
  have changed : ∀ {i ctl}, FramedIf tail ctl (w.log i) → FramedIf tail ((w.setClient i ctl).client j) (w.log j) :=
    fun {i ctl} acts => setClient_at (framed j) fun same => same ▸ acts
  have logged : ∀ {i ctl log}, FramedIf tail ctl log → FramedIf tail (((w.setClient i ctl).setLog i log).client j)
      (((w.setClient i ctl).setLog i log).log j) :=
    fun {i ctl log} acts => setClient_setLog_at (framed j) fun _ => acts
  cases effect with
  | send i step =>
    have same := step.sameInput j
    intro claimed
    rw [same.recv] at claimed
    exact (framed j claimed).congr same.stateFn same.recv same.stream same.items
  | aside client log =>
    rw [client, log]
    exact framed j
  | cleared i => exact logged fun _ => isFramed_fresh (.vacated (.inl rfl) (.inl nofun)) rfl
  | constructed i recvFd sendFd isSocket =>
    exact logged fun _ => isFramed_fresh (.waiting nofun (.whole []) fun _ => show 0 < recvBufSize by decide) rfl
  | appends i append started empty clear unused =>
    refine changed fun _ => ?_
    rw [unused]
    have stands : StandsFor (w.client i).recv.overflow (w.client i).recv.buf [] := by
      rw [clear, empty]
      exact .whole []
    have room : (w.client i).recv.buf.length < recvBufSize := by
      rw [empty]
      decide
    refine isFramed_fresh ?_ empty
    change Stage (w.client i).stateFn _ _ _
    rw [started]
    exact .waiting nofun stands fun _ => room
  | queuedFds i fds => exact changed fun claimed => (framed i claimed).queuedFds fds
  | read i bytes opened nonempty room => exact logged fun claimed => (framed i claimed).read opened room
  | ended i opened room => exact logged fun claimed => (framed i claimed).ended opened room
  | parked i eol waiting found => exact changed fun claimed => (framed i claimed).parked waiting found
  | completed i completes last =>
    refine changed fun claimed => ?_
    have within := (claimed.resolve_left fun other => Bool.false_ne_true (other.symm.trans completes.append)) _ last
    exact (framed i claimed).completed completes.waiting completes.gone completes.nonempty completes.partLine
      completes.append within
  | cut i waiting opened noEol full => exact changed fun claimed => (framed i claimed).cut waiting opened noEol full
  | closing i waiting gone noEol ignored =>
    exact changed fun claimed => (framed i claimed).closing waiting gone noEol ignored
  | dispatched i parked whole stays => exact logged fun claimed => (framed i claimed).dispatched parked whole stays
  | reported i parked cut => exact logged fun claimed => (framed i claimed).reported parked cut
  | finished i executed => exact changed fun claimed => (framed i claimed).finished executed
  | moved i move here => exact changed fun claimed => (framed i claimed).moved move here
  | exited i parked whole exits => exact logged fun claimed => (framed i claimed).exited parked whole exits
  | destroyed i => exact changed fun claimed => (framed i claimed).vacated (.inr rfl)
  | freed i => exact changed fun claimed => (framed i claimed).vacated (.inl rfl)
  | overdue i => exact changed fun claimed => (framed i claimed).congr rfl rfl rfl rfl
  | timeouts i => exact logged fun claimed => (framed i claimed).congr rfl rfl rfl rfl

end Effects

/-! ## What is dispatched -/

/-- The input with the newline that its last line lacks. -/
def completed (stream : Bytes) : Bytes := if stream ≠ [] ∧ stream.getLast? ≠ some 10 then stream ++ [10] else stream

theorem completed_of_whole {stream : Bytes} (whole : WholeSegments 10 stream) : completed stream = stream := by
  rw [completed, if_neg]
  rintro ⟨nonempty, unended⟩
  exact whole.elim nonempty unended

theorem completed_of_not_whole {stream : Bytes} (partLine : ¬ WholeSegments 10 stream) :
    completed stream = stream ++ [10] := by
  rw [completed, if_pos (not_or.mp partLine)]

/-- The controller is closing, or waits for more input. -/
def Settled (ctl : Controller) : Prop :=
  ctl.stateFn = some .close ∨
    ctl.stateFn = some .nextCommand ∧ 0 ≤ ctl.recv.fd ∧ 10 ∉ ctl.recv.buf ∧ ctl.recv.buf.length < recvBufSize

section Outcome

variable {ctl : Controller} {log : ClientLog} {input consumed rest : Bytes}

theorem Framed.frames_eq (framed : Framed ctl log input consumed rest) (more : Bytes) :
    frames (consumed ++ more) = log.items ++ frames more := by
  rw [frames_append framed.whole, framed.items]

/-- What was dispatched is the beginning of what the consumed lines and any others give. -/
theorem Framed.leading (framed : Framed ctl log input consumed rest) (more : Bytes) :
    log.items <+: untilExit (frames (consumed ++ more)) := by
  rw [framed.frames_eq]
  rcases framed.stage.items with stays | exits
  · rw [stays.untilExit_append]
    exact List.prefix_append ..
  · rw [exits.untilExit_append]

theorem Framed.untilExit_of_notMem (framed : Framed ctl log input consumed rest) {more : Bytes} (within : 10 ∉ more) :
    untilExit (frames (consumed ++ more)) = log.items := by
  rw [framed.frames_eq, frames_of_notMem within]
  rcases framed.stage.items with stays | exits
  · rw [stays.untilExit_append]
    exact List.append_nil _
  · rw [exits.untilExit_append]

/-- A controller that is closing has either seen an `exit` command or has no further line. -/
theorem Stage.of_closing {recv : RecvSide} {items : List Item} (stage : Stage (some .close) recv items rest) :
    LastExit items ∨ 10 ∉ rest ∧ (recv.appendFinalNewline = true → rest = []) := by
  cases stage with
  | closed _ _ within complete => exact .inr ⟨within, complete⟩
  | exited exits => exact .inl exits
  | dispatched _ here => rcases here with other | other | other | other <;> cases other
  | vacated gone => rcases gone with gone | gone <;> cases gone

theorem Framed.settled (framed : Framed ctl log input consumed rest) (settled : Settled ctl) :
    log.items = untilExit (frames input) := by
  rw [framed.split]
  rcases settled with closing | ⟨waiting, -, within, -⟩
  · have stage := framed.stage
    rw [closing] at stage
    rcases stage.of_closing with exits | ⟨within, -⟩
    · rw [framed.frames_eq, exits.untilExit_append]
    · exact (framed.untilExit_of_notMem within).symm
  · have stage := framed.stage
    rw [waiting] at stage
    obtain ⟨-, stands, -⟩ := stage.of_waiting
    exact (framed.untilExit_of_notMem (stands.notMem within)).symm

theorem Framed.plain (framed : Framed ctl log input consumed rest) (plain : ctl.recv.appendFinalNewline = false) :
    input = log.stream := by
  cases framed.source with
  | plain => rfl
  | completed append => exact absurd (plain.symm.trans append) Bool.false_ne_true

/-- With the missing newline, the input begins with the consumed lines as well. -/
theorem Framed.completed (framed : Framed ctl log input consumed rest) :
    ∃ more, completed log.stream = consumed ++ more := by
  cases framed.source with
  | plain =>
    rw [Proofs.completed]
    split
    · exact ⟨rest ++ [10], by rw [framed.split, List.append_assoc]⟩
    · exact ⟨rest, framed.split⟩
  | completed _ _ partLine => exact ⟨rest, by rw [completed_of_not_whole partLine, framed.split]⟩

theorem Framed.closing (framed : Framed ctl log input consumed rest) (closing : ctl.stateFn = some .close)
    (append : ctl.recv.appendFinalNewline = true) : log.items = untilExit (frames (Proofs.completed log.stream)) := by
  have stage := framed.stage
  rw [closing] at stage
  rcases stage.of_closing with exits | ⟨-, complete⟩
  · obtain ⟨more, same⟩ := framed.completed
    rw [same, framed.frames_eq, exits.untilExit_append]
  · obtain rfl := complete append
    have whole : input = Proofs.completed log.stream := by
      cases framed.source with
      | plain => rw [completed_of_whole (by rw [framed.split, List.append_nil]; exact framed.whole)]
      | completed _ _ partLine => rw [completed_of_not_whole partLine]
    rw [← whole]
    exact framed.settled (.inl closing)

end Outcome

end DaemonProxy.Proofs
