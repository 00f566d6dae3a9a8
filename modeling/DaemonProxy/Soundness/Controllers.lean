import DaemonProxy.Proofs.FramingProgress
import DaemonProxy.Proofs.Stalls

/-! # Controllers

What clients of the daemon can rely on: the events they get, and the commands that their input gives.
-/

namespace DaemonProxy.Soundness

open Lib Model Proofs

variable {n : ℕ}

/-! ## Events -/

/-- What holds of the events of all clients. -/
structure EventsIntact (w : World n) : Prop where
  /-- What a client accepted is the beginning of the bytes of its entries; while it is connected, its buffer holds the
  rest. The entries are all messages for the client, in order, and overflow lines stand for those that are dropped. -/
  streams : ∀ i, ∃ entries : List Entry, entries.filterMap Entry.message = (w.log i).offered ∧ Represented entries ∧
    (w.log i).accepted <+: entries.flatMap Entry.bytes ∧
    ((w.client i).send.fd ≠ -1 → (w.log i).accepted ++ (w.client i).send.buf = entries.flatMap Entry.bytes)
  /-- A broadcast gives the same text to every connected client that is not left with the overflow flag. -/
  broadcast : ∀ msg replies, ∃ w', ctlStep w (.notify msg replies) = some w' ∧
    ∀ i, if w.connected i then Received msg w w' i else outputView w' i = outputView w i

/-- In every run the event streams of the clients are intact, and the machine goes on unless a service finds no free
controller. -/
theorem event_streams_intact {standard : ℕ} {events : List (CtlEvent n)} {w : World n}
    (reached : exec? ctlStep (World.init n standard) events = some w) :
    EventsIntact w ∧ ∀ event, ctlStep w event = none ↔ NoController w event := by
  refine ⟨⟨fun i => ?_, fun msg replies => ?_⟩, fun event => ⟨fun stuck => ?_, ctlStep_noController⟩⟩
  · obtain ⟨entries, stream⟩ := reached_eventStream reached i
    exact ⟨entries, stream.messages, stream.represented, stream.leading, stream.connected⟩
  · obtain ⟨_, w', run, written⟩ := ctlWrite_spec none msg { w with replies }
    have step : ctlStep w (.notify msg replies) = some w' := by
      change ((ctlWrite none msg).run { w with replies }).map Prod.snd = some w'
      rw [run, Option.map_some]
    refine ⟨w', step, fun i => ?_⟩
    have listed : i ∈ addressed { w with replies } none ↔ w.connected i = true := by
      simp only [addressed, List.mem_filter, List.mem_finRange, true_and]
      rfl
    split
    · rename_i connected
      exact (written.received i (listed.mpr connected)).congr_left rfl rfl
    · rename_i gone
      obtain ⟨client, log⟩ := written.others i (gone ∘ listed.mp)
      simp only [outputView, client, log]
  · by_contra served
    obtain ⟨w', step, -⟩ := ctlStep_effects event w served (lastLine_any w event)
    rw [stuck] at step
    cases step

/-- A client is opened on descriptors 0 and 1 and sent a line, of which `write` takes three bytes. -/
theorem event_streams_intact_greeting :
    (exec? ctlStep (World.init 1 3) [.new 0 1 false true false, .notify ⟨bytesOf "hello"⟩ fun _ => [],
      .flush 0 fun _ => [.accepted 2, .again]]).any (fun w => (w.log 0).accepted = bytesOf "hel") ∧
    ∀ w ∈ exec? ctlStep (World.init 1 3) [.new 0 1 false true false, .notify ⟨bytesOf "hello"⟩ fun _ => [],
      .flush 0 fun _ => [.accepted 2, .again]], EventsIntact w ∧ ∀ event, ctlStep w event = none ↔ NoController w event :=
  ⟨by decide +kernel, fun _ reached => event_streams_intact reached⟩

/-! ## Commands -/

/-- The input of every controller that does not add a newline is framed, in every run. -/
theorem reached_framed {standard : ℕ} {events : List (CtlEvent n)} {w : World n}
    (reached : exec? ctlStep (World.init n standard) events = some w) {i : Fin n}
    (plain : (w.client i).recv.appendFinalNewline = false) : IsFramed (w.client i) (w.log i) := by
  have framed : ∀ i, FramedIf (fun _ => True) (w.client i) (w.log i) := by
    apply reached_of_effects (I := fun w => ∀ i, FramedIf (fun _ => True) (w.client i) (w.log i)) _ _ reached
    · exact fun _ _ => isFramed_fresh (.vacated (.inl rfl) (.inl nofun)) rfl
    · exact fun w w' framed effect => FramedIf.effect framed effect
  exact framed i (.inl plain)

/-- What a controller dispatches depends on the bytes it has read only. -/
structure DispatchesStream (w : World n) (i : Fin n) : Prop where
  /-- At any time it is the beginning of what their lines give, up to an `exit` command. -/
  leading : (w.log i).items <+: untilExit (frames (w.log i).stream)
  /-- It is all of that when the controller waits for input or closes. -/
  settled : Settled (w.client i) → (w.log i).items = untilExit (frames (w.log i).stream)
  /-- A controller that has not been destroyed gets there when it is run and its output drains. -/
  progress : ∀ state, (w.client i).stateFn = some state → state ≠ .free → ∃ later w',
    (∀ event ∈ later, ∃ replies, event = .iterate i idle false replies) ∧ exec? ctlStep w later = some w' ∧
    (w'.log i).stream = (w.log i).stream ∧ (w'.log i).items = untilExit (frames (w.log i).stream)

theorem framing_by_stream {standard : ℕ} {events : List (CtlEvent n)} {w : World n}
    (reached : exec? ctlStep (World.init n standard) events = some w) (i : Fin n)
    (plain : (w.client i).recv.appendFinalNewline = false) : DispatchesStream w i := by
  obtain ⟨input, consumed, rest, framed⟩ := reached_framed reached plain
  obtain rfl := framed.plain plain
  refine ⟨?_, framed.settled, fun state here running => ?_⟩
  · rw [framed.split]
    exact framed.leading rest
  · obtain ⟨w', moves, same, rests⟩ : ∃ w', Moves (fun _ => True) i w w' ∧ SameSource i w w' ∧ Rests _ i w' :=
      rests_of_running (reached_eventStream reached i) here running
    obtain ⟨later, calls, run, -⟩ := moves.run
    have settled : Settled (w'.client i) := rests.resolve_right fun merged => merged.2 trivial
    have plain : (w'.client i).recv.appendFinalNewline = false := same.append.trans plain
    obtain ⟨input, consumed, rest, framed⟩ := reached_framed ((exec?_append reached later).trans run) plain
    obtain rfl := framed.plain plain
    exact ⟨later, w', calls, run, same.stream, by rw [framed.settled settled, same.stream]⟩

/-- A client sends one command in two reads; the second read brings the next one as well. -/
theorem framing_by_stream_two_reads : ∃ w, exec? ctlStep (World.init 1 3) [.new 0 1 false true false,
      .read 0 (.data 101 (bytesOf "cho\ta") 0) [], .iterate 0 idle false fun _ => [],
      .read 0 (.data 98 (bytesOf "\nexit\n") 0) [], .iterate 0 idle false fun _ => []] = some w ∧ DispatchesStream w 0 := by
  obtain ⟨w, reached, plain⟩ := (Option.any_eq_true _ _).mp (show (exec? ctlStep (World.init 1 3) [
      .new 0 1 false true false, .read 0 (.data 101 (bytesOf "cho\ta") 0) [], .iterate 0 idle false fun _ => [],
      .read 0 (.data 98 (bytesOf "\nexit\n") 0) [], .iterate 0 idle false fun _ => []]).any
    (fun w => (w.client 0).recv.appendFinalNewline = false) = true by decide +kernel)
  exact ⟨w, reached, framing_by_stream reached 0 (by simpa using plain)⟩

/-! ## The last line -/

/-- When a last line is completed, it is a single line. -/
abbrev SingleLastLine (w : World n) (event : CtlEvent n) : Prop := LastLine (10 ∉ ·) w event

/-- What a controller that completes the last line dispatches. -/
structure DispatchesCompleted (w : World n) (i : Fin n) : Prop where
  /-- At any time it is the beginning of what the lines of the input give, the last one included. -/
  leading : (w.log i).items <+: untilExit (frames (completed (w.log i).stream))
  /-- It is all of that when the controller closes. -/
  closing : (w.client i).stateFn = some .close → (w.log i).items = untilExit (frames (completed (w.log i).stream))
  /-- It is what the lines read so far give when the controller waits for input. -/
  waiting : Settled (w.client i) → (w.client i).stateFn ≠ some .close →
    (w.log i).items = untilExit (frames (w.log i).stream)
  /-- A controller that has not been destroyed gets to one of these when it is run and its output drains, unless it
  comes to a last line that is not single. -/
  progress : ∀ state, (w.client i).stateFn = some state → state ≠ .free → ∃ later w',
    (∀ event ∈ later, ∃ replies, event = .iterate i idle false replies) ∧ exec? ctlStep w later = some w' ∧
    (w'.log i).stream = (w.log i).stream ∧ (Settled (w'.client i) ∨ Completes w' i ∧ 10 ∈ (w'.client i).recv.buf)

/-- In a run in which completed last lines are single, a controller that completes the last line of its input dispatches
what the input with the missing newline gives. -/
theorem last_line_completed {standard : ℕ} {events : List (CtlEvent n)} {w : World n}
    (reached : exec? ctlStep (World.init n standard) events = some w)
    (single : Along? ctlStep SingleLastLine (World.init n standard) events) (i : Fin n)
    (append : (w.client i).recv.appendFinalNewline = true) : DispatchesCompleted w i := by
  have framed : ∀ i, FramedIf (10 ∉ ·) (w.client i) (w.log i) := by
    apply exec?_preserves_along (I := fun w => ∀ i, FramedIf (10 ∉ ·) (w.client i) (w.log i)) _ _ reached single
    · intro w event w' guarded framed step
      exact ctlStep_preserves (I := fun w => ∀ i, FramedIf (10 ∉ ·) (w.client i) (w.log i))
        (fun _ _ framed effect => FramedIf.effect framed effect) guarded framed step
    · exact fun _ _ => isFramed_fresh (.vacated (.inl rfl) (.inl nofun)) rfl
  obtain ⟨input, consumed, rest, framed⟩ := framed i (.inr fun _ => id)
  refine ⟨?_, fun closing => framed.closing closing append, fun settled other => ?_, fun state here running => ?_⟩
  · obtain ⟨more, same⟩ := framed.completed
    rw [same]
    exact framed.leading more
  · have opened := (settled.resolve_left other).2.1
    rw [← framed.opened opened]
    exact framed.settled settled
  · obtain ⟨w', moves, same, rests⟩ : ∃ w', Moves (10 ∉ ·) i w w' ∧ SameSource i w w' ∧ Rests _ i w' :=
      rests_of_running (reached_eventStream reached i) here running
    obtain ⟨later, calls, run, -⟩ := moves.run
    refine ⟨later, w', calls, run, same.stream, rests.imp_right fun merged => ⟨merged.1, ?_⟩⟩
    simpa using merged.2

/-- Two commands of which the second lacks its newline, dispatched one by one. -/
theorem last_line_completed_commands : ∃ w, exec? ctlStep (World.init 1 3) [.new 0 (-1) false true true,
      .read 0 (.data 101 (bytesOf "cho\necho") 0) [], .iterate 0 idle false fun _ => [],
      .iterate 0 idle false fun _ => [], .iterate 0 idle false fun _ => [], .read 0 .eof [],
      .iterate 0 idle false fun _ => []] = some w ∧ DispatchesCompleted w 0 := by
  obtain ⟨w, reached, append⟩ := (Option.any_eq_true _ _).mp (show (exec? ctlStep (World.init 1 3) [
      .new 0 (-1) false true true, .read 0 (.data 101 (bytesOf "cho\necho") 0) [], .iterate 0 idle false fun _ => [],
      .iterate 0 idle false fun _ => [], .iterate 0 idle false fun _ => [], .read 0 .eof [],
      .iterate 0 idle false fun _ => []]).any (fun w => (w.client 0).recv.appendFinalNewline) = true by decide +kernel)
  exact ⟨w, reached, last_line_completed reached (by decide +kernel) 0 append⟩

/-- When the end of the input is seen while a whole line is still in the buffer, that line and the last one are
dispatched as one command. -/
theorem lines_merged_at_eof : (exec? ctlStep (World.init 1 3) [.new 0 (-1) false true true,
      .read 0 (.data 101 (bytesOf "cho\necho") 0) [], .read 0 .eof [], .iterate 0 idle false fun _ => [],
      .iterate 0 idle false fun _ => [], .iterate 0 idle false fun _ => [], .iterate 0 idle false fun _ => []]).any
    (fun w => (w.client 0).stateFn = some .close ∧ (w.log 0).items = [.line (bytesOf "echo\necho")] ∧
      untilExit (frames (completed (w.log 0).stream)) = [.line (bytesOf "echo"), .line (bytesOf "echo")]) := by
  decide +kernel

/-! ## Stalled clients -/

/-- How the delay of a client's output is measured, and what comes of it. -/
structure ClosedOnTime (w : World n) (i : Fin n) : Prop where
  /-- While it is connected, its `send_blocked_ts` is the time of the first of the calls of `write` that have failed for
  now since one succeeded, or zero when the last one succeeded. -/
  recorded : (w.client i).send.fd ≠ -1 →
    (w.client i).send.blockedTs = (blockedSince (w.log i).writes).elim 0 recordedTs
  /-- Whatever a call took, those before it do not count any more. -/
  restarts : ∀ earlier time more later, (w.log i).writes = earlier ++ (time, .accepted more) :: later →
    blockedSince (w.log i).writes = blockedSince later
  /-- The output phase destroys it just when its output is overdue after the phase has tried to write. -/
  destroys : (w.client i).stateFn ≠ none → ∀ replies, ∃ w', ctlStep w (.output i replies) = some w' ∧
    ((w'.client i).stateFn = none ↔ Overdue w.now (w'.log i))

/-- In every run the clients are closed on time. -/
theorem stalled_clients_closed {standard : ℕ} {events : List (CtlEvent n)} {w : World n}
    (reached : exec? ctlStep (World.init n standard) events = some w) (i : Fin n) : ClosedOnTime w i := by
  have ok := reached_outputOk reached i
  refine ⟨ok.clocked.recorded, ?_, fun allocated replies => ?_⟩
  · intro earlier time more later writes
    rw [writes]
    apply blockedSince_restarts
    nofun
  · have waiting : OutputOk { w with replies } i := ⟨ok.stream, ok.clocked⟩
    obtain ⟨_, w', run, destroys⟩ := outputPhase_destroys waiting allocated
    refine ⟨w', ?_, destroys⟩
    change ((outputPhase i).run { w with replies }).map Prod.snd = some w'
    rw [run, Option.map_some]

/-- A client does not take a line at all, and is destroyed 30 seconds later. -/
theorem stalled_clients_closed_silent :
    (exec? ctlStep (World.init 1 3) [.new 0 1 false true false, .clock 5, .notify ⟨bytesOf "hello"⟩ fun _ => [],
      .output 0 fun _ => [.again], .clock (5 + writeTimeout), .output 0 fun _ => [.again]]).any
        (fun w => (w.client 0).stateFn = none) ∧
    ∀ w ∈ exec? ctlStep (World.init 1 3) [.new 0 1 false true false, .clock 5, .notify ⟨bytesOf "hello"⟩ fun _ => [],
      .output 0 fun _ => [.again], .clock (5 + writeTimeout)], ClosedOnTime w 0 :=
  ⟨by decide +kernel, fun _ reached => stalled_clients_closed reached 0⟩

/-- One byte is taken in between, and the client lives on. -/
example : (exec? ctlStep (World.init 1 3) [.new 0 1 false true false, .clock 5, .notify ⟨bytesOf "hello"⟩ fun _ => [],
      .output 0 fun _ => [.again], .clock (4 + writeTimeout), .output 0 fun _ => [.accepted 0, .again],
      .clock (5 + writeTimeout), .output 0 fun _ => [.again]]).any (fun w => (w.client 0).stateFn = some .nextCommand) := by
  decide +kernel

end DaemonProxy.Soundness
