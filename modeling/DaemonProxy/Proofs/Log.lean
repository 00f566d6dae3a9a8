import DaemonProxy.Lib.Run
import DaemonProxy.Model.Log
import Mathlib.Logic.Relation

/-! # What the log module does with its buffer

A flush is a sequence of steps: `write` takes some bytes, after which the line about lost messages is appended if it
fits, or `write` fails. Every call into the module keeps, drops or queues a message and flushes.
-/

namespace DaemonProxy.Proofs

open Lib Model

/-! ## Flushing -/

/-- One round of `log_flush`. -/
inductive FlushStep (s : LogState) : LogState → Prop
  | taken (count : ℕ) (some : 0 < count) (bound : count ≤ s.buffer.length) : FlushStep s ((s.takeBytes count).appendLost)
  | blocked : FlushStep s s.block

abbrev Flushes : LogState → LogState → Prop := Relation.ReflTransGen FlushStep

/-- The count of lost messages is an `int`. -/
abbrev Countable (s : LogState) : Prop := s.msgLost ≤ 2147483647

theorem length_lostLine_le {count : ℕ} (small : count ≤ 2147483647) : (lostLine count).length ≤ 38 := by
  have digits : (natText count).length ≤ 10 := length_natText_le (by decide) (by omega)
  have first : (bytesOf "warning: lost ").length = 14 := by decide
  have last : (bytesOf " log messages\n").length = 14 := by decide
  rw [lostLine, List.length_append, List.length_append]
  omega

section Append

variable (s : LogState)

theorem appendLost_fd : s.appendLost.fd = s.fd := by
  rw [LogState.appendLost]
  split <;> rfl

theorem appendLost_replies : s.appendLost.replies = s.replies := by
  rw [LogState.appendLost]
  split <;> rfl

theorem appendLost_blocked : s.appendLost.blocked = s.blocked := by
  rw [LogState.appendLost]
  split <;> rfl

theorem appendLost_history : s.appendLost.history = s.history := by
  rw [LogState.appendLost]
  split <;> rfl

variable {s}

theorem Countable.appendLost (small : Countable s) : Countable s.appendLost := by
  rw [LogState.appendLost]
  split
  · exact Nat.zero_le _
  · exact small

end Append

/-- What is left to write; the line about lost messages counts for more than it takes. -/
def flushMeasure (s : LogState) : ℕ := s.buffer.length + if s.msgLost = 0 then 0 else 39

variable {s : LogState}

theorem flushMeasure_appendLost (small : Countable s) : flushMeasure s.appendLost ≤ flushMeasure s := by
  rw [LogState.appendLost]
  split
  · rename_i appended
    have := length_lostLine_le small
    simp only [flushMeasure, List.length_append, if_pos, if_neg appended.1]
    omega
  · exact le_rfl

theorem flushMeasure_takeBytes {count : ℕ} (positive : 0 < count) (bound : count ≤ s.buffer.length) :
    flushMeasure (s.takeBytes count) < flushMeasure s := by
  have shorter : (s.buffer.drop count).length < s.buffer.length := by
    rw [List.length_drop]
    omega
  exact Nat.add_lt_add_right shorter _

theorem flushMeasure_lt (s : LogState) : flushMeasure s < s.buffer.length + 64 := by
  rw [flushMeasure]
  split <;> omega

/-- The result of the loop. -/
structure LogFlushed (s : LogState) (done : Bool) (s' : LogState) : Prop where
  flushes : Flushes s s'
  fd : s'.fd = s.fd
  small : Countable s'
  empty : done = true → s'.buffer = [] ∧ s'.blocked = s.blocked
  stuck : done = false → s'.blocked = true

theorem logFlushLoop_spec {fuel : ℕ} (small : Countable s) (enough : flushMeasure s < fuel) :
    Ends (logFlushLoop fuel) s (LogFlushed s) := by
  induction fuel generalizing s with
  | zero => exact absurd enough (Nat.not_lt_zero _)
  | succ fuel ih =>
    simp only [logFlushLoop, ends_bind, ends_get, ends_ite, ends_pure]
    split
    · rename_i empty
      exact ⟨.refl, rfl, small, fun _ => ⟨empty, rfl⟩, by rintro ⟨⟩⟩
    rename_i pending
    have positive : 0 < s.buffer.length := List.length_pos_iff.mpr pending
    cases s.replies.headD .failed with
    | failed =>
      simp only [ends_bind, ends_modify, ends_pure]
      exact ⟨.single .blocked, rfl, small, by rintro ⟨⟩, fun _ => rfl⟩
    | accepted more =>
      simp only [ends_bind, ends_modify]
      set count := min (more + 1) s.buffer.length
      have taken : FlushStep s ((s.takeBytes count).appendLost) := .taken count (by omega) (by omega)
      have kept : Countable (s.takeBytes count) := small
      have less : flushMeasure (s.takeBytes count) < flushMeasure s := flushMeasure_takeBytes (by omega) (by omega)
      have := flushMeasure_appendLost kept
      refine (ih kept.appendLost (by omega)).mono fun done s' flushed => ?_
      refine ⟨.head taken flushed.flushes, ?_, flushed.small, fun finished => ?_, flushed.stuck⟩
      · rw [flushed.fd, appendLost_fd]
        rfl
      · obtain ⟨empty, same⟩ := flushed.empty finished
        exact ⟨empty, same.trans (appendLost_blocked _)⟩

theorem logFlush_spec (small : Countable s) :
    Ends logFlush s fun _ s' => Flushes s s' ∧ s'.fd = s.fd ∧ Countable s' ∧
      (s.blocked = true → s' = s) ∧ (0 ≤ s.fd → s'.buffer = [] ∨ s'.blocked = true) := by
  simp only [logFlush, ends_bind, ends_get, ends_ite, ends_pure]
  split
  · rename_i idle
    refine ⟨.refl, trivial, small, fun _ => trivial, fun attached => .inr ?_⟩
    exact idle.resolve_left (not_lt.mpr attached)
  rename_i active
  rw [not_or] at active
  refine (logFlushLoop_spec small (flushMeasure_lt s)).mono fun done s' flushed => ?_
  refine ⟨flushed.flushes, flushed.fd, flushed.small, fun blocked => absurd blocked active.2, fun _ => ?_⟩
  cases done with
  | true => exact .inl (flushed.empty rfl).1
  | false => exact .inr (flushed.stuck rfl)

/-! ## What a call does -/

/-- Nothing changed about the messages. -/
structure Alike (s s' : LogState) : Prop where
  buffer : s'.buffer = s.buffer
  msgLost : s'.msgLost = s.msgLost
  written : s'.written = s.written
  history : s'.history = s.history

abbrev LogMoves : LogState → LogState → Prop := Relation.ReflTransGen fun s s' => Alike s s' ∨ FlushStep s s'

variable {s' : LogState}

theorem Alike.moves (alike : Alike s s') : LogMoves s s' := .single (.inl alike)

theorem Flushes.moves (flushes : Flushes s s') : LogMoves s s' :=
  flushes.lift id fun _ _ => .inr

/-- What the moves keep, a sequence of moves keeps. -/
theorem LogMoves.preserve {I : LogState → Prop} (alike : ∀ s s', I s → Alike s s' → I s')
    (flush : ∀ s s', I s → FlushStep s s' → I s') (moves : LogMoves s s') (holds : I s) : I s' := by
  induction moves with
  | refl => exact holds
  | tail _ move ih => exact move.elim (alike _ _ ih) (flush _ _ ih)

/-- Between two calls the buffer is empty or the log is blocked, and a log without a destination is blocked. -/
structure LogSettled (s : LogState) : Prop where
  detached : s.fd < 0 → s.blocked = true
  pending : s.buffer ≠ [] → s.blocked = true

/-- What a call that logs no message does. -/
structure LogMaintains (s s' : LogState) : Prop where
  moves : LogMoves s s'
  small : Countable s'
  settled : LogSettled s'

theorem LogMaintains.trans {mid : LogState} (first : LogMoves s mid) (second : LogMaintains mid s') : LogMaintains s s' :=
  ⟨Relation.ReflTransGen.trans first second.moves, second.small, second.settled⟩

theorem logFlush_maintains (small : Countable s) (detached : s.fd < 0 → s.blocked = true) :
    Ends logFlush s fun _ s' => LogMaintains s s' ∧ s'.fd = s.fd := by
  refine (logFlush_spec small).mono fun _ s' ⟨flushes, fd, small', idle, active⟩ => ⟨⟨flushes.moves, small', ?_, ?_⟩, fd⟩
  · intro negative
    rw [fd] at negative
    rw [idle (detached negative)]
    exact detached negative
  · intro pending
    rcases lt_or_ge s.fd 0 with negative | attached
    · rw [idle (detached negative)]
      exact detached negative
    · exact (active attached).resolve_left pending

theorem Alike.keep (alike : Alike s s') (small : Countable s) (detached : s'.fd < 0 → s'.blocked = true)
    (pending : s'.buffer ≠ [] → s'.blocked = true) : LogMaintains s s' :=
  ⟨alike.moves, alike.msgLost.trans_le small, detached, pending⟩

theorem logFdAttach_spec (small : Countable s) (fdnum : Bytes → Option ℤ) :
    Ends (logFdAttach fdnum) s fun attached s' => LogMaintains s s' ∧ (attached = true ↔ 0 ≤ s'.fd) := by
  simp only [logFdAttach, ends_bind, ends_get, ends_ite, ends_modify, ends_pure]
  set found := s.findFd fdnum
  split
  · rename_i negative
    have alike : Alike s { found with blocked := true } := ⟨rfl, rfl, rfl, rfl⟩
    refine ⟨alike.keep small (fun _ => rfl) fun _ => rfl, by rintro ⟨⟩, fun attached => ?_⟩
    exact absurd attached (not_le.mpr negative)
  rename_i attached
  set unblocked : LogState := { found with blocked := false, blockedNextAttempt := 0 }
  have alike : Alike s unblocked := ⟨rfl, rfl, rfl, rfl⟩
  have positive : 0 ≤ unblocked.fd := not_lt.mp attached
  have detached : unblocked.fd < 0 → unblocked.blocked = true := fun negative => absurd negative attached
  split
  · have flush := logFlush_maintains (s := unblocked) small detached
    refine flush.mono fun _ s' flushed => ⟨flushed.1.trans alike.moves, fun _ => ?_, fun _ => trivial⟩
    rw [flushed.2]
    exact positive
  · rename_i empty
    exact ⟨alike.keep small detached fun pending => absurd pending empty, fun _ => positive, fun _ => trivial⟩

theorem logFdSetName_maintains (small : Countable s) (name : Bytes) (fdnum : Bytes → Option ℤ) :
    Ends (logFdSetName name fdnum) s fun _ s' => LogMaintains s s' := by
  simp only [logFdSetName, logFdReset, ends_bind, ends_modify, ends_pure]
  set renamed : LogState := { s with fd := -1, blocked := true, blockedNextAttempt := 0, destFdName := name }
  have alike : Alike s renamed := ⟨rfl, rfl, rfl, rfl⟩
  exact (logFdAttach_spec (s := renamed) small fdnum).mono fun _ _ attached => attached.1.trans alike.moves

theorem logRetry_maintains (small : Countable s) (attached : 0 ≤ s.fd) (now : ℤ) :
    Ends (logRetry now) s fun _ s' => LogMaintains s s' := by
  simp only [logRetry, ends_bind, ends_get, ends_ite, ends_modify, ends_pure]
  set unblocked : LogState := { s with blocked := false, blockedNextAttempt := 0 }
  have alike : Alike s unblocked := ⟨rfl, rfl, rfl, rfl⟩
  have detached : unblocked.fd < 0 → unblocked.blocked = true := fun negative => absurd negative (not_lt.mpr attached)
  refine (logFlush_maintains (s := unblocked) small detached).mono fun _ s' result => ?_
  obtain ⟨maintains, _⟩ := result
  have flushed := maintains.trans alike.moves
  split
  · have delayed : ∀ next, Alike s' { s' with blockedNextAttempt := next } := fun _ => ⟨rfl, rfl, rfl, rfl⟩
    exact ⟨Relation.ReflTransGen.trans flushed.moves (delayed _).moves, flushed.small, flushed.settled.1, flushed.settled.2⟩
  · exact flushed

theorem logRunBlocked_maintains (small : Countable s) (settled : LogSettled s) (attached : 0 ≤ s.fd) (now : ℤ)
    (ready : ℤ → Bool) : Ends (logRunBlocked now ready) s fun _ s' => LogMaintains s s' := by
  have stay : LogMaintains s s := ⟨.refl, small, settled⟩
  simp only [logRunBlocked, ends_bind, ends_get, ends_ite, ends_pure]
  split
  · exact stay
  split
  · refine (logRetry_maintains small attached now).mono fun _ s' maintains => ?_
    split_ifs <;> exact maintains
  · split_ifs <;> exact stay

theorem logRun_maintains (small : Countable s) (settled : LogSettled s) (now : ℤ) (ready : ℤ → Bool)
    (fdnum : Bytes → Option ℤ) : Ends (logRun now ready fdnum) s fun _ s' => LogMaintains s s' := by
  simp only [logRun, ends_bind, ends_get, ends_ite, ends_pure]
  split
  · refine (logFdAttach_spec small fdnum).mono fun attached mid result => ?_
    obtain ⟨first, found⟩ := result
    split
    · exact first
    · rename_i success
      have positive : 0 ≤ mid.fd := found.mp (eq_true_of_ne_false success)
      exact (logRunBlocked_maintains first.small first.settled positive now ready).mono fun _ _ second =>
        second.trans first.moves
  · rename_i attached
    exact logRunBlocked_maintains small settled (not_lt.mp attached) now ready

/-! ## Messages -/

/-- There is room for the line. -/
abbrev HasRoom (s : LogState) (line : Bytes) : Prop := s.msgLost = 0 ∧ s.buffer.length + line.length ≤ logBufferSize

/-- `log_write` with a message that passes the filter. -/
inductive Logs (s : LogState) (line : Bytes) : Bool → LogState → Prop
  | queued {s' : LogState} (room : HasRoom s line) (flushed : LogMaintains (s.queue line) s') : Logs s line true s'
  | lost (full : ¬ HasRoom s line) : Logs s line false s.lose

theorem length_logLine (level : LogLevel) (text : Bytes) :
    (logLine level text).length = (logLevelName level ++ bytesOf ": ").length + text.length + 1 := by
  rw [logLine, List.length_append, List.length_append]
  rfl

theorem loseMessage_spec (countable : s.msgLost < 2147483647) {post : PUnit → LogState → Prop}
    (holds : post ⟨⟩ s.lose) : Ends loseMessage s post := by
  simp only [loseMessage, ends_bind, ends_get, ends_ite, if_neg countable.ne, ends_modify]
  exact holds

theorem logWrite_spec {level : LogLevel} (unfiltered : s.filter < level.value) (settled : LogSettled s)
    (countable : s.msgLost < 2147483647) (text : Bytes) :
    Ends (logWrite level text) s (Logs s (logLine level text)) := by
  have length := length_logLine level text
  simp only [logWrite, ends_bind, ends_get, ends_ite, ends_pure, if_neg (not_le.mpr unfiltered), ends_modify]
  split
  · rename_i lost
    exact loseMessage_spec countable (.lost fun room => lost room.1)
  rename_i clear
  rw [not_not] at clear
  split
  · refine loseMessage_spec countable (.lost fun room => ?_)
    omega
  split
  · refine loseMessage_spec countable (.lost fun room => ?_)
    omega
  · have room : HasRoom s (logLine level text) := ⟨clear, by omega⟩
    have small : Countable (s.queue (logLine level text)) := countable.le
    refine (logFlush_maintains small settled.detached).mono fun _ s' flushed => .queued room flushed.1

/-! ## Steps of the machine -/

/-- The step is defined: the count of lost messages does not overflow. -/
def Counts (s : LogState) : LogEvent → Prop
  | .write level _ _ => s.filter < level.value → s.msgLost < 2147483647
  | _ => True

/-- What a step does: a message that passes the filter is queued or lost, other calls only maintain the buffer. -/
inductive LogEffect (s : LogState) : LogEvent → LogState → Prop
  | maintained {event s'} (filtered : ∀ level text replies, event = .write level text replies → level.value ≤ s.filter)
      (maintains : LogMaintains s s') : LogEffect s event s'
  | queued {level text replies s'} (unfiltered : s.filter < level.value) (room : HasRoom s (logLine level text))
      (flushed : LogMaintains (s.queue (logLine level text)) s') : LogEffect s (.write level text replies) s'
  | lost {level text replies} (unfiltered : s.filter < level.value) (full : ¬ HasRoom s (logLine level text)) :
      LogEffect s (.write level text replies) { s.lose with replies }

variable {event : LogEvent}

theorem logProgram_effect (small : Countable s) (settled : LogSettled s)
    (counts : Counts s event) : Ends (logProgram event) s fun _ s' => LogEffect s event s' := by
  have given : ∀ replies, Alike s { s with replies } := fun _ => ⟨rfl, rfl, rfl, rfl⟩
  cases event with
  | write level text replies =>
    simp only [logProgram, ends_bind, ends_modify, ends_pure]
    rcases lt_or_ge s.filter level.value with unfiltered | filtered
    · have settled' : LogSettled { s with replies } := ⟨settled.detached, settled.pending⟩
      refine (logWrite_spec (s := { s with replies }) unfiltered settled' (counts unfiltered) text).mono fun _ s' logs => ?_
      cases logs with
      | queued room flushed =>
        have same : Alike (s.queue (logLine level text)) (LogState.queue (logLine level text) { s with replies }) :=
          ⟨rfl, rfl, rfl, rfl⟩
        exact .queued unfiltered room (flushed.trans same.moves)
      | lost full => exact .lost unfiltered full
    · simp only [logWrite, ends_bind, ends_get, ends_ite, ends_pure, if_pos filtered]
      refine .maintained ?_ ((given replies).keep small settled.detached settled.pending)
      rintro _ _ _ ⟨⟩
      exact filtered
  | setFilter value =>
    simp only [logProgram, logSetFilter, ends_modify]
    exact .maintained (by simp) (Alike.keep ⟨rfl, rfl, rfl, rfl⟩ small settled.detached settled.pending)
  | reset =>
    simp only [logProgram, logFdReset, ends_modify]
    exact .maintained (by simp) (Alike.keep ⟨rfl, rfl, rfl, rfl⟩ small (fun _ => rfl) fun _ => rfl)
  | setName name fdnum replies =>
    simp only [logProgram, ends_bind, ends_modify]
    exact (logFdSetName_maintains (s := { s with replies }) small name fdnum).mono fun _ _ maintains =>
      .maintained (by simp) (maintains.trans (given replies).moves)
  | run now ready fdnum replies =>
    simp only [logProgram, ends_bind, ends_modify, ends_pure]
    have settled' : LogSettled { s with replies } := ⟨settled.detached, settled.pending⟩
    exact (logRun_maintains (s := { s with replies }) small settled' now ready fdnum).mono fun _ _ maintains =>
      .maintained (by simp) (maintains.trans (given replies).moves)

/-- A message beyond the range of the count has no step. -/
theorem counts_of_step (small : Countable s) (step : logStep s event = some s') :
    Counts s event := by
  cases event with
  | write level text replies =>
    intro unfiltered
    refine lt_of_le_of_ne small fun full => ?_
    have stops {α : Type} : (failure : Option α) = none := rfl
    have none : logStep s (.write level text replies) = none := by
      simp [logStep, logProgram, logWrite, loseMessage, not_le.mpr unfiltered, full, stops]
    exact absurd (none.symm.trans step) nofun
  | _ => trivial

theorem logStep_effect (small : Countable s) (settled : LogSettled s)
    (step : logStep s event = some s') : LogEffect s event s' := by
  obtain ⟨_, final, run, effect⟩ := logProgram_effect small settled (counts_of_step small step)
  rw [logStep, run] at step
  cases step
  exact effect

/-- An invariant of the machine: kept by the moves, and by queueing or losing the message of the step. -/
theorem logStep_keeps {I : LogState → Prop} (alike : ∀ s s', I s → Alike s s' → I s')
    (flush : ∀ s s', I s → FlushStep s s' → I s') (small : Countable s)
    (settled : LogSettled s) (holds : I s) (step : logStep s event = some s')
    (queued : ∀ line, HasRoom s line → I (s.queue line))
    (lost : ∀ level text replies, event = .write level text replies → s.filter < level.value →
      ¬ HasRoom s (logLine level text) → I s.lose) :
    I s' := by
  cases logStep_effect small settled step with
  | maintained _ maintains => exact maintains.moves.preserve alike flush holds
  | queued _ room flushed => exact flushed.moves.preserve alike flush (queued _ room)
  | lost unfiltered full => exact alike _ _ (lost _ _ _ rfl unfiltered full) ⟨rfl, rfl, rfl, rfl⟩

/-- What holds between any two calls. -/
structure LogSound (s : LogState) : Prop where
  small : Countable s
  settled : LogSettled s
  bounded : s.buffer.length ≤ logBufferSize

theorem flush_bounded (bounded : s.buffer.length ≤ logBufferSize) (step : FlushStep s s') :
    s'.buffer.length ≤ logBufferSize := by
  cases step with
  | blocked => exact bounded
  | taken count _ bound =>
    have rest : (s.takeBytes count).buffer.length ≤ logBufferSize := by
      rw [LogState.takeBytes, List.length_drop]
      omega
    rw [LogState.appendLost]
    split
    · rename_i fits
      rw [List.length_append]
      omega
    · exact rest

theorem logStep_sound (sound : LogSound s) (step : logStep s event = some s') :
    LogSound s' := by
  have bounded : s'.buffer.length ≤ logBufferSize := by
    refine logStep_keeps (I := fun s => s.buffer.length ≤ logBufferSize) ?_ ?_ sound.small sound.settled sound.bounded step ?_ ?_
    · exact fun s s' bounded alike => alike.buffer ▸ bounded
    · exact fun s s' bounded step => flush_bounded bounded step
    · intro line room
      rw [LogState.queue, List.length_append]
      exact room.2
    · exact fun _ _ _ _ _ _ => sound.bounded
  have counts := counts_of_step sound.small step
  cases logStep_effect sound.small sound.settled step with
  | maintained _ maintains => exact ⟨maintains.small, maintains.settled, bounded⟩
  | queued _ _ flushed => exact ⟨flushed.small, flushed.settled, bounded⟩
  | lost unfiltered _ => exact ⟨counts unfiltered, ⟨sound.settled.detached, sound.settled.pending⟩, bounded⟩

theorem logSound_init : LogSound .init := ⟨by decide, ⟨by decide, by decide⟩, by decide⟩

/-! ## Lost messages are never forgotten -/

/-- Something is left to be written as long as lost messages have to be reported. -/
abbrev Reports (s : LogState) : Prop := s.msgLost ≠ 0 → s.buffer ≠ []

theorem flush_reports (small : Countable s) (reports : Reports s) (step : FlushStep s s') :
    Reports s' := by
  cases step with
  | blocked => exact reports
  | taken count _ _ =>
    have short : (lostLine (s.takeBytes count).msgLost).length ≤ 38 := length_lostLine_le small
    rw [LogState.appendLost]
    split
    · exact fun lost => absurd rfl lost
    · rename_i kept
      intro lost empty
      refine kept ⟨lost, ?_⟩
      rw [empty]
      exact Nat.lt_of_le_of_lt short (by decide)

/-- A message that finds the buffer empty, and nothing lost before, has to fit into the buffer. -/
def Fits (s : LogState) : LogEvent → Prop
  | .write level text _ =>
      s.filter < level.value → s.msgLost = 0 → s.buffer = [] → (logLine level text).length ≤ logBufferSize
  | _ => True

instance (s : LogState) : (event : LogEvent) → Decidable (Fits s event)
  | .write level text _ => inferInstanceAs (Decidable
      (s.filter < level.value → s.msgLost = 0 → s.buffer = [] → (logLine level text).length ≤ logBufferSize))
  | .setFilter _ | .reset | .setName .. | .run .. => isTrue trivial

theorem logStep_reports (sound : LogSound s) (reports : Reports s)
    (fits : Fits s event) (step : logStep s event = some s') : Reports s' := by
  have both : Countable s' ∧ Reports s' := by
    have counts := counts_of_step sound.small step
    refine logStep_keeps (I := fun s => Countable s ∧ Reports s) ?_ ?_ sound.small sound.settled ⟨sound.small, reports⟩
      step ?_ ?_
    · intro s s' ⟨small, reports⟩ alike
      exact ⟨alike.msgLost.trans_le small, by rwa [Reports, alike.msgLost, alike.buffer]⟩
    · intro s s' ⟨small, reports⟩ flush
      refine ⟨?_, flush_reports small reports flush⟩
      cases flush with
      | blocked => exact small
      | taken => exact Countable.appendLost small
    · exact fun line room => ⟨sound.small, fun lost => absurd room.1 lost⟩
    · rintro level text replies rfl unfiltered full
      refine ⟨counts unfiltered, fun _ empty => full ?_⟩
      have clear : s.msgLost = 0 := by
        by_contra lost
        exact reports lost empty
      refine ⟨clear, ?_⟩
      have empty : s.buffer = [] := empty
      rw [empty, List.length_nil, Nat.zero_add]
      exact fits unfiltered clear empty
  exact both.2

/-! ## The log recovers -/

/-- The descriptor accepts writes: as many as a flush can need succeed. -/
structure Accepts (s : LogState) : Prop where
  succeed : ∀ reply ∈ s.replies, reply ≠ .failed
  enough : flushMeasure s ≤ s.replies.length

/-- The log is attached and everything is written. -/
structure Drained (s : LogState) : Prop where
  empty : s.buffer = []
  attached : 0 ≤ s.fd
  unblocked : s.blocked = false

theorem logFlushLoop_drains {fuel : ℕ} (small : Countable s) (enough : flushMeasure s < fuel)
    (accepts : Accepts s) : Ends (logFlushLoop fuel) s fun done _ => done = true := by
  induction fuel generalizing s with
  | zero => exact absurd enough (Nat.not_lt_zero _)
  | succ fuel ih =>
    simp only [logFlushLoop, ends_bind, ends_get, ends_ite, ends_pure]
    split
    · trivial
    rename_i pending
    have positive : 0 < s.buffer.length := List.length_pos_iff.mpr pending
    obtain ⟨succeed, long⟩ := accepts
    cases replies : s.replies with
    | nil =>
      rw [replies, flushMeasure] at long
      exact absurd long (by simp only [List.length_nil]; omega)
    | cons reply rest =>
      rw [replies] at succeed long
      cases reply with
      | failed => exact absurd rfl (succeed _ List.mem_cons_self)
      | accepted more =>
        simp only [List.headD_cons, ends_bind, ends_modify]
        set count := min (more + 1) s.buffer.length
        have kept : Countable (s.takeBytes count) := small
        have less : flushMeasure (s.takeBytes count) < flushMeasure s := flushMeasure_takeBytes (by omega) (by omega)
        have after := flushMeasure_appendLost kept
        have left : (s.takeBytes count).appendLost.replies = rest := by
          rw [appendLost_replies, LogState.takeBytes, replies, List.tail_cons]
        refine ih kept.appendLost (by omega) ⟨?_, ?_⟩
        · rw [left]
          exact fun reply member => succeed reply (List.mem_cons_of_mem _ member)
        · rw [left]
          rw [List.length_cons] at long
          omega

theorem logFlush_drains (small : Countable s) (accepts : Accepts s) (attached : 0 ≤ s.fd)
    (unblocked : s.blocked = false) : Ends logFlush s fun _ s' => Drained s' := by
  have active : ¬ (s.fd < 0 ∨ s.blocked = true) := by
    rw [unblocked]
    exact fun idle => idle.elim (not_lt.mpr attached) nofun
  have enough := flushMeasure_lt s
  simp only [logFlush, ends_bind, ends_get, ends_ite, if_neg active]
  refine ((logFlushLoop_spec small enough).and (logFlushLoop_drains small enough accepts)).mono ?_
  rintro done s' ⟨flushed, rfl⟩
  obtain ⟨empty, same⟩ := flushed.empty rfl
  exact ⟨empty, flushed.fd ▸ attached, same.trans unblocked⟩

/-- The destination can be written to: its handle exists, or the descriptor in use is ready. -/
def Writeable (s : LogState) (ready : ℤ → Bool) (fdnum : Bytes → Option ℤ) : Prop :=
  if s.fd < 0 then s.destFdName ≠ [] ∧ ∃ fd, fdnum s.destFdName = some fd ∧ 0 ≤ fd else ready s.fd = true

variable {fdnum : Bytes → Option ℤ}

theorem logFdAttach_drains {fd : ℤ} (small : Countable s) (accepts : Accepts s)
    (detached : s.fd < 0) (named : s.destFdName ≠ []) (exists_ : fdnum s.destFdName = some fd) (positive : 0 ≤ fd) :
    Ends (logFdAttach fdnum) s fun attached s' => attached = true ∧ Drained s' := by
  have found : (s.findFd fdnum).fd = fd := by simp [LogState.findFd, detached, named, exists_]
  simp only [logFdAttach, ends_bind, ends_get, ends_ite, ends_modify, ends_pure, found, if_neg (not_lt.mpr positive)]
  set unblocked : LogState := { s.findFd fdnum with fd, blocked := false, blockedNextAttempt := 0 }
  split
  · exact (logFlush_drains (s := unblocked) small ⟨accepts.succeed, accepts.enough⟩ positive rfl).mono fun _ _ drained => ⟨trivial, drained⟩
  · rename_i empty
    exact ⟨trivial, not_not.mp empty, positive, rfl⟩

theorem logRun_drains {ready : ℤ → Bool} (small : Countable s)
    (settled : LogSettled s) (accepts : Accepts s) (writeable : Writeable s ready fdnum) (now : ℤ) :
    Ends (logRun now ready fdnum) s fun _ s' => Drained s' := by
  simp only [logRun, ends_bind, ends_get, ends_ite, ends_pure]
  rw [Writeable] at writeable
  split at writeable
  · rename_i detached
    obtain ⟨named, fd, exists_, positive⟩ := writeable
    rw [if_pos detached]
    refine (logFdAttach_drains small accepts detached named exists_ positive).mono ?_
    rintro attached s' ⟨rfl, drained⟩
    simp only [Bool.true_eq_false, if_false, logRunBlocked, ends_bind, ends_get, ends_ite, ends_pure, drained.unblocked,
      if_true]
    exact drained
  · rename_i attached
    rw [if_neg attached]
    simp only [logRunBlocked, ends_bind, ends_get, ends_ite, ends_pure]
    split
    · rename_i unblocked
      refine ⟨?_, not_lt.mp attached, unblocked⟩
      by_contra pending
      exact absurd (settled.pending pending) (unblocked ▸ (by rintro ⟨⟩))
    · rw [if_pos (.inl writeable)]
      simp only [logRetry, ends_bind, ends_get, ends_ite, ends_modify, ends_pure]
      set unblocked : LogState := { s with blocked := false, blockedNextAttempt := 0 }
      have accepts' : Accepts unblocked := ⟨accepts.succeed, accepts.enough⟩
      refine (logFlush_drains (s := unblocked) small accepts' (not_lt.mp attached) rfl).mono fun _ s' drained => ?_
      simp only [drained.unblocked, Bool.false_eq_true, if_false, if_true]
      exact drained

/-- What was written and what is still to be written, the line about lost messages included. -/
def logOwed (s : LogState) : Bytes :=
  s.written.flatMap Prod.snd ++ (s.buffer ++ if s.msgLost = 0 then [] else lostLine s.msgLost)

theorem appendLost_owed (s : LogState) : logOwed s.appendLost = logOwed s := by
  rw [LogState.appendLost]
  split
  · rename_i appended
    simp only [logOwed, if_pos, if_neg appended.1, List.append_nil]
  · rfl

theorem takeBytes_owed {count : ℕ} (s' : LogState) (taken : s' = s.takeBytes count) : logOwed s' = logOwed s := by
  subst taken
  simp only [logOwed, LogState.takeBytes, List.flatMap_append, List.flatMap_cons, List.flatMap_nil, List.append_nil,
    List.append_assoc]
  rw [← List.append_assoc (s.buffer.take count), List.take_append_drop]
  rfl

/-- Flushing writes what is owed, in order. -/
theorem logMoves_owed (moves : LogMoves s s') : logOwed s' = logOwed s := by
  refine moves.preserve (I := fun s' => logOwed s' = logOwed s) (fun mid s' same alike => ?_) (fun mid s' same step => ?_) rfl
  · rw [← same, logOwed, logOwed, alike.buffer, alike.msgLost, alike.written]
  · cases step with
    | blocked => exact same
    | taken count _ _ => exact (appendLost_owed _).trans ((takeBytes_owed _ rfl).trans same)

/-- The text that the descriptors took. -/
def logOutput (s : LogState) : Bytes := s.written.flatMap Prod.snd

theorem logStep_of_ends {post : LogState → Prop}
    (ends : Ends (logProgram event) s fun _ s' => post s') : ∃ s', logStep s event = some s' ∧ post s' := by
  obtain ⟨_, s', run, holds⟩ := ends
  refine ⟨s', ?_, holds⟩
  rw [logStep, run]
  rfl

/-- In a call of `log_run` with a destination that accepts writes, everything owed is written. -/
theorem logStep_recovers {ready : ℤ → Bool} {replies : List LogReply}
    (sound : LogSound s) (reports : Reports s) (accepts : Accepts { s with replies })
    (writeable : Writeable s ready fdnum) (now : ℤ) :
    ∃ s', logStep s (.run now ready fdnum replies) = some s' ∧ Drained s' ∧ s'.msgLost = 0 ∧ logOutput s' = logOwed s := by
  have settled : LogSettled { s with replies } := ⟨sound.settled.detached, sound.settled.pending⟩
  have small : Countable { s with replies } := sound.small
  have ends : Ends (logProgram (.run now ready fdnum replies)) s fun _ s' =>
      LogMaintains { s with replies } s' ∧ Drained s' := by
    simp only [logProgram, ends_bind, ends_modify, ends_pure]
    exact (logRun_maintains small settled now ready fdnum).and (logRun_drains small settled accepts writeable now)
  obtain ⟨s', step, maintains, drained⟩ := logStep_of_ends ends
  have clear : s'.msgLost = 0 := by
    by_contra lost
    exact logStep_reports sound reports (by trivial : Fits s (.run now ready fdnum replies)) step lost drained.empty
  refine ⟨s', step, drained, clear, ?_⟩
  have owed : logOwed s' = logOwed s := (logMoves_owed maintains.moves).trans rfl
  rw [← owed, logOwed, drained.empty, clear, logOutput]
  exact (List.append_nil _).symm

theorem flush_history (step : FlushStep s s') : s'.history = s.history := by
  cases step with
  | blocked => rfl
  | taken => exact appendLost_history _

theorem logMoves_history (moves : LogMoves s s') : s'.history = s.history := by
  refine moves.preserve (I := fun s' => s'.history = s.history) (fun mid s' same alike => ?_) (fun mid s' same step => ?_) rfl
  · exact alike.history.trans same
  · exact (flush_history step).trans same

/-- A message that passes the filter and fits is put into an empty buffer. -/
theorem logStep_logs {level : LogLevel} {text : Bytes} (sound : LogSound s)
    (unfiltered : s.filter < level.value) (room : HasRoom s (logLine level text)) (replies : List LogReply) :
    ∃ s', logStep s (.write level text replies) = some s' ∧ s'.history = s.history ++ [some (logLine level text)] := by
  have counts : Counts s (.write level text replies) := fun _ => by rw [room.1]; decide
  obtain ⟨s', step, effect⟩ := logStep_of_ends (logProgram_effect sound.small sound.settled counts)
  refine ⟨s', step, ?_⟩
  cases effect with
  | maintained filtered _ => exact absurd (filtered _ _ _ rfl) (not_le.mpr unfiltered)
  | queued _ _ flushed => exact logMoves_history flushed.moves
  | lost _ full => exact absurd room full

/-- The record of the messages follows what `log_write` returns. -/
theorem logWrite_history (sound : LogSound s) (level : LogLevel) (text : Bytes)
    (countable : s.msgLost < 2147483647) : Ends (logWrite level text) s fun accepted s' =>
      if level.value ≤ s.filter then accepted = true ∧ s'.history = s.history
      else s'.history = s.history ++ [if accepted then some (logLine level text) else none] := by
  split
  · rename_i filtered
    simp only [logWrite, ends_bind, ends_get, ends_ite, ends_pure, if_pos filtered]
    trivial
  · rename_i unfiltered
    refine (logWrite_spec (not_le.mp unfiltered) sound.settled countable text).mono fun accepted s' logs => ?_
    cases logs with
    | queued _ flushed => exact logMoves_history flushed.moves
    | lost _ => rfl

/-! ## Accounting -/

/-- A part of the log: a message, or the line that stands for a number of lost ones. -/
inductive LogItem
  | line (text : Bytes)
  | lost (count : ℕ)

namespace LogItem

def text : LogItem → Bytes
  | .line text => text
  | .lost count => lostLine count

/-- The messages that the item stands for. -/
def calls : LogItem → List (Option Bytes)
  | .line text => [some text]
  | .lost count => List.replicate count none

/-- The number that the item prints. -/
def count : LogItem → ℕ
  | .line _ => 0
  | .lost count => count

theorem count_calls (item : LogItem) : item.calls.count none = item.count := by
  cases item with
  | line text => rfl
  | lost count => exact List.count_replicate_self

end LogItem

/-- The items account for the log: they are the text that was or will be written, and in their order they stand for the
messages so far, except for those that are counted as lost at the end. -/
structure Accounts (s : LogState) (items : List LogItem) : Prop where
  text : logOutput s ++ s.buffer = items.flatMap LogItem.text
  history : s.history = items.flatMap LogItem.calls ++ List.replicate s.msgLost none
  positive : ∀ count, .lost count ∈ items → 0 < count

variable {items : List LogItem}

theorem Accounts.count (accounts : Accounts s items) :
    (items.map LogItem.count).sum + s.msgLost = s.history.count none := by
  rw [accounts.history, List.count_append, List.count_replicate_self, List.count_flatMap]
  congr 2
  exact List.map_congr_left fun item _ => (LogItem.count_calls item).symm

theorem Accounts.alike (accounts : Accounts s items) (alike : Alike s s') :
    Accounts s' items := by
  refine ⟨?_, ?_, accounts.positive⟩
  · rw [logOutput, alike.written, alike.buffer]
    exact accounts.text
  · rw [alike.history, alike.msgLost]
    exact accounts.history

theorem Accounts.queue {line : Bytes} (accounts : Accounts s items)
    (clear : s.msgLost = 0) : Accounts (s.queue line) (items ++ [.line line]) := by
  obtain ⟨text, history, positive⟩ := accounts
  refine ⟨?_, ?_, ?_⟩
  · rw [List.flatMap_append, ← text, List.append_assoc]
    simp [logOutput, LogState.queue, LogItem.text]
  · rw [LogState.queue, history, clear, List.flatMap_append]
    simp [LogItem.calls]
  · intro count member
    rw [List.mem_append, List.mem_singleton] at member
    exact positive count (member.resolve_right nofun)

theorem Accounts.lose (accounts : Accounts s items) : Accounts s.lose items := by
  refine ⟨accounts.text, ?_, accounts.positive⟩
  rw [LogState.lose, accounts.history, List.append_assoc, ← List.replicate_succ']

theorem Accounts.take (accounts : Accounts s items) (count : ℕ) :
    Accounts (s.takeBytes count) items := by
  refine ⟨?_, accounts.history, accounts.positive⟩
  rw [← accounts.text]
  simp [logOutput, LogState.takeBytes]

theorem Accounts.appendLost (accounts : Accounts s items) :
    ∃ items, Accounts s.appendLost items := by
  rw [LogState.appendLost]
  split
  · rename_i appended
    obtain ⟨text, history, positive⟩ := accounts
    refine ⟨items ++ [.lost s.msgLost], ?_, ?_, ?_⟩
    · rw [List.flatMap_append, ← text, List.append_assoc]
      simp [logOutput, LogItem.text]
    · rw [history]
      simp [LogItem.calls]
    · intro count member
      rw [List.mem_append, List.mem_singleton] at member
      rcases member with old | new
      · exact positive count old
      · cases new
        exact Nat.pos_of_ne_zero appended.1
  · exact ⟨items, accounts⟩

theorem logStep_accounts (sound : LogSound s) (accounts : ∃ items, Accounts s items)
    (step : logStep s event = some s') : ∃ items, Accounts s' items := by
  refine logStep_keeps (I := fun s => ∃ items, Accounts s items) ?_ ?_ sound.small sound.settled accounts step ?_ ?_
  · intro s s' ⟨items, accounts⟩ alike
    exact ⟨items, accounts.alike alike⟩
  · intro s s' ⟨items, accounts⟩ flush
    cases flush with
    | blocked => exact ⟨items, accounts.alike ⟨rfl, rfl, rfl, rfl⟩⟩
    | taken count _ _ => exact (accounts.take count).appendLost
  · intro line room
    obtain ⟨items, accounts⟩ := accounts
    exact ⟨_, accounts.queue room.1⟩
  · intro _ _ _ _ _ _
    obtain ⟨items, accounts⟩ := accounts
    exact ⟨items, accounts.lose⟩

theorem accounts_init : Accounts .init [] := ⟨rfl, rfl, nofun⟩

end DaemonProxy.Proofs
