import DaemonProxy.Proofs.Log

/-! # The log

Everything that is logged is written in order or counted as lost, and the count is reported when the log can be written
again. The report needs something in the buffer to be written with; a single message too long for the empty buffer
silences the log for good.
-/

namespace DaemonProxy.Soundness

open Lib Model Proofs

/-! ## The log is not muted -/

/-- As soon as the destination accepts writes again, the lost messages are reported after everything that was in the
buffer, and messages are logged again. -/
def Recovers (s : LogState) : Prop :=
  ∀ now ready fdnum replies, Writeable s ready fdnum → Accepts { s with replies } →
    ∃ s', logStep s (.run now ready fdnum replies) = some s' ∧ s'.buffer = [] ∧ s'.msgLost = 0 ∧
      logOutput s' = logOutput s ++ s.buffer ++ (if s.msgLost = 0 then [] else lostLine s.msgLost) ∧
      ∀ level text later, s'.filter < level.value → (logLine level text).length ≤ logBufferSize →
        ∃ s'', logStep s' (.write level text later) = some s'' ∧ s''.history = s'.history ++ [some (logLine level text)]

theorem recovers_of_reports {s : LogState} (sound : LogSound s) (reports : Reports s) : Recovers s := by
  intro now ready fdnum replies writeable accepts
  obtain ⟨s', step, drained, clear, output⟩ := logStep_recovers sound reports accepts writeable now
  refine ⟨s', step, drained.empty, clear, ?_, fun level text later unfiltered short => ?_⟩
  · rw [output, logOwed, logOutput, List.append_assoc]
  · have room : HasRoom s' (logLine level text) := by
      refine ⟨clear, ?_⟩
      rw [drained.empty, List.length_nil, Nat.zero_add]
      exact short
    exact logStep_logs (logStep_sound sound step) unfiltered room later

/-- In a run in which every message fits into the empty buffer, the log is never muted. -/
theorem log_never_muted {events : List LogEvent} {s : LogState} (reached : exec? logStep .init events = some s)
    (fits : Along? logStep Fits .init events) : (0 < s.msgLost → 0 < s.buffer.length) ∧ Recovers s := by
  have both : LogSound s ∧ Reports s := by
    apply exec?_preserves_along (I := fun s => LogSound s ∧ Reports s) _ ⟨logSound_init, nofun⟩ reached fits
    intro s event s' fits ⟨sound, reports⟩ step
    exact ⟨logStep_sound sound step, logStep_reports sound reports fits step⟩
  refine ⟨fun lost => List.length_pos_iff.mpr (both.2 lost.ne'), recovers_of_reports both.1 both.2⟩

/-- The descriptor blocks, the buffer fills up and a message is lost. -/
theorem log_never_muted_blocked : ∃ s, exec? logStep .init [.write .error (List.replicate 900 120) [],
      .write .error (List.replicate 900 121) [], .write .info (bytesOf "x") []] = some s ∧
    s.msgLost = 2 ∧ (0 < s.msgLost → 0 < s.buffer.length) ∧ Recovers s := by
  obtain ⟨s, reached, lost⟩ := (Option.any_eq_true _ _).mp (show (exec? logStep .init
    [.write .error (List.replicate 900 120) [], .write .error (List.replicate 900 121) [],
      .write .info (bytesOf "x") []]).any (fun s => s.msgLost = 2) = true by decide +kernel)
  exact ⟨s, reached, of_decide_eq_true lost, log_never_muted reached (by decide +kernel)⟩

/-- An unknown command of a thousand bytes is quoted in a message that does not fit. Every write succeeds, but no later
message is logged. -/
theorem long_message_mutes : ∃ s, exec? logStep .init [
      .write .error (bytesOf "controller[0] sent unknown command " ++ List.replicate 1000 120) [.accepted 2000],
      .write .error (bytesOf "controller[0] command exceeds buffer size") [.accepted 2000],
      .run 1 (fun _ => true) (fun _ => some 2) [.accepted 2000],
      .setName (bytesOf "stderr") (fun _ => some 2) [.accepted 2000],
      .write .fatal (bytesOf "x") [.accepted 2000]] = some s ∧
    s.msgLost = 3 ∧ s.buffer = [] ∧ s.written = [] := by
  obtain ⟨s, reached, muted⟩ := (Option.any_eq_true _ _).mp (show (exec? logStep .init [
      .write .error (bytesOf "controller[0] sent unknown command " ++ List.replicate 1000 120) [.accepted 2000],
      .write .error (bytesOf "controller[0] command exceeds buffer size") [.accepted 2000],
      .run 1 (fun _ => true) (fun _ => some 2) [.accepted 2000],
      .setName (bytesOf "stderr") (fun _ => some 2) [.accepted 2000],
      .write .fatal (bytesOf "x") [.accepted 2000]]).any
    (fun s => s.msgLost = 3 ∧ s.buffer = [] ∧ s.written = []) = true by decide +kernel)
  exact ⟨s, reached, of_decide_eq_true muted⟩

/-! ## Accounting -/

/-- In every run, the text that was written and is in the buffer consists of the accepted messages in order, with a line
at each place where messages were lost; the numbers in these lines and the count at the end are those of the calls of
`log_write` that returned false. -/
theorem log_accounts_for_messages {events : List LogEvent} {s : LogState}
    (reached : exec? logStep .init events = some s) :
    (∃ items, Accounts s items ∧ (items.map LogItem.count).sum + s.msgLost = s.history.count none) ∧
    s.buffer.length ≤ logBufferSize ∧
    ∀ level text replies, s.msgLost < 2147483647 → Ends (logWrite level text) { s with replies } fun accepted s' =>
      if level.value ≤ s.filter then accepted = true ∧ s'.history = s.history
      else s'.history = s.history ++ [if accepted then some (logLine level text) else none] := by
  have both : LogSound s ∧ ∃ items, Accounts s items := by
    apply exec?_preserves (I := fun s => LogSound s ∧ ∃ items, Accounts s items) _ ⟨logSound_init, [], accounts_init⟩ reached
    intro s event s' ⟨sound, accounts⟩ step
    exact ⟨logStep_sound sound step, logStep_accounts sound accounts step⟩
  obtain ⟨sound, items, accounts⟩ := both
  refine ⟨⟨items, accounts, accounts.count⟩, sound.bounded, fun level text replies countable => ?_⟩
  have sound' : LogSound { s with replies } := ⟨sound.small, ⟨sound.settled.detached, sound.settled.pending⟩, sound.bounded⟩
  exact logWrite_history sound' level text countable

/-- The descriptor takes a part of a message and blocks; two messages are lost, and both parts of the stream follow when
it can be written again. -/
theorem log_accounts_short_writes : ∃ s, exec? logStep .init [.write .error (List.replicate 900 120) [.accepted 9],
      .write .error (List.replicate 900 121) [], .write .info (bytesOf "x") [],
      .run 1 (fun _ => true) (fun _ => none) [.accepted 99, .accepted 797]] = some s ∧
    s.buffer.length = 29 ∧ s.history.count none = 2 ∧
    (∃ items, Accounts s items ∧ (items.map LogItem.count).sum + s.msgLost = s.history.count none) := by
  obtain ⟨s, reached, lost⟩ := (Option.any_eq_true _ _).mp (show (exec? logStep .init [
      .write .error (List.replicate 900 120) [.accepted 9], .write .error (List.replicate 900 121) [],
      .write .info (bytesOf "x") [], .run 1 (fun _ => true) (fun _ => none) [.accepted 99, .accepted 797]]).any
    (fun s => s.buffer.length = 29 ∧ s.history.count none = 2) = true by decide +kernel)
  exact ⟨s, reached, (of_decide_eq_true lost).1, (of_decide_eq_true lost).2, (log_accounts_for_messages reached).1⟩

end DaemonProxy.Soundness
