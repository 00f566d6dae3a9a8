import Mathlib.Data.List.DropRight
import DaemonProxy.Proofs.EventStream

/-! # Stalled output

The time at which the output of a client got stuck is recorded by `ctl_flush_outbuf`, wherever that is called from, and
read by the second loop of `ctl_run`. It is compared here with the calls of `write` themselves: it is the time of the
first of those that failed for now since one last succeeded.
-/

namespace DaemonProxy.Proofs

open Lib Model

variable {n : ℕ}

/-! ## The calls of `write` -/

/-- The time of the first of the calls that have failed for now since a call last ended in another way. -/
def blockedSince (writes : List (ℤ × WriteReply)) : Option ℤ :=
  (writes.rtakeWhile fun call => call.2 = .again).head?.map Prod.fst

section Calls

variable (writes : List (ℤ × WriteReply)) (time : ℤ)

theorem blockedSince_other {reply : WriteReply} (other : reply ≠ .again) :
    blockedSince (writes ++ [(time, reply)]) = none := by
  rw [blockedSince, List.rtakeWhile_concat_neg _ _ _ (by simpa using other)]
  rfl

theorem blockedSince_again :
    blockedSince (writes ++ [(time, .again)]) = some ((blockedSince writes).getD time) := by
  rw [blockedSince, blockedSince, List.rtakeWhile_concat_pos _ _ _ (by simp)]
  cases writes.rtakeWhile fun call => call.2 = .again with
  | nil => rfl
  | cons call rest => rfl

/-- Only the calls after one that did not fail for now count. -/
theorem blockedSince_restarts {reply : WriteReply} (other : reply ≠ .again) (later : List (ℤ × WriteReply)) :
    blockedSince (writes ++ (time, reply) :: later) = blockedSince later := by
  induction later using List.reverseRecOn with
  | nil => exact blockedSince_other writes time other
  | append_singleton later call ih =>
    obtain ⟨last, outcome⟩ := call
    rw [← List.cons_append, ← List.append_assoc]
    by_cases again : outcome = .again
    · rw [again, blockedSince_again, blockedSince_again, ih]
    · rw [blockedSince_other _ _ again, blockedSince_other _ _ again]

end Calls

/-- `send_blocked_ts` for a failure at some time: zero stands for none. -/
def recordedTs (time : ℤ) : ℤ := if time = 0 then 1 else time

theorem recordedTs_ne_zero (time : ℤ) : recordedTs time ≠ 0 := by
  rw [recordedTs]
  split
  · decide
  · assumption

/-- After how long a stalled client is closed: what `conn.event_timeout` set last, or else what `ctl_ctor` sets. -/
def closeAfter (timeouts : List (ℤ × ℤ)) : ℤ := (timeouts.getLast?.map fun last => last.2 * 4294967296).getD writeTimeout

/-! ## What a controller records -/

/-- The controller has recorded what the calls of `write` and `conn.event_timeout` say. -/
structure Clocked (ctl : Controller) (log : ClientLog) : Prop where
  recorded : ctl.send.fd ≠ -1 → ctl.send.blockedTs = (blockedSince log.writes).elim 0 recordedTs
  pending : blockedSince log.writes ≠ none → 0 ≤ ctl.send.fd ∧ ctl.send.buf ≠ []
  closes : ctl.stateFn ≠ none → ctl.send.timeoutClose = closeAfter log.timeouts

section Records

variable {ctl : Controller} {log : ClientLog}

theorem clocked_unused (unused : log.writes = []) (clear : ctl.send.blockedTs = 0)
    (closes : ctl.stateFn ≠ none → ctl.send.timeoutClose = closeAfter log.timeouts) : Clocked ctl log := by
  refine ⟨fun _ => ?_, fun blocked => ?_, closes⟩
  · rw [unused, clear]
    rfl
  · rw [unused] at blocked
    exact absurd rfl blocked

/-- The input side does not matter, nor does the overflow flag. -/
theorem Clocked.congr (clocked : Clocked ctl log) {ctl' : Controller} {log' : ClientLog} (fd : ctl'.send.fd = ctl.send.fd)
    (buf : ctl.send.buf ≠ [] → ctl'.send.buf ≠ []) (blockedTs : ctl'.send.blockedTs = ctl.send.blockedTs)
    (timeout : ctl'.send.timeoutClose = ctl.send.timeoutClose) (writes : log'.writes = log.writes)
    (timeouts : log'.timeouts = log.timeouts) (allocated : ctl'.stateFn ≠ none → ctl.stateFn ≠ none) : Clocked ctl' log' := by
  refine ⟨fun connected => ?_, fun blocked => ?_, fun here => ?_⟩
  · rw [blockedTs, writes]
    exact clocked.recorded (fd ▸ connected)
  · rw [writes] at blocked
    obtain ⟨opened, nonempty⟩ := clocked.pending blocked
    exact ⟨fd ▸ opened, buf nonempty⟩
  · rw [timeout, timeouts]
    exact clocked.closes (allocated here)

end Records

section Steps

variable {w w' : World n} {i j : Fin n}

theorem writeReply_open (again : w.writeReply i = .again) : 0 ≤ (w.client i).send.fd := by
  by_contra negative
  have closed : w.holder (w.client i).send.fd = none := if_pos (by omega)
  rw [World.writeReply, if_pos closed] at again
  cases again

theorem Clocked.step (clocked : Clocked (w.client i) (w.log i)) (step : SendStep i w w')
    (lines : (w.client i).send.buf ≠ [] → (w.client i).send.buf.getLast? = some 10) : Clocked (w'.client i) (w'.log i) := by
  have state := (step.sameInput i).stateFn
  cases step with
  | accepted count _ _ _ _ success =>
    obtain ⟨more, success⟩ := success
    have none : blockedSince ((w.acceptBytes i count).log i).writes = none := by
      rw [acceptBytes_log, Function.update_self, success]
      exact blockedSince_other _ _ (by rintro ⟨⟩)
    refine ⟨fun _ => ?_, fun blocked => absurd none blocked, fun allocated => ?_⟩
    · rw [none]
      simp [World.acceptBytes]
    · rw [state] at allocated
      simpa [World.acceptBytes] using clocked.closes allocated
  | blocked connected _ again pending =>
    have since : blockedSince ((w.blockWrite i).log i).writes = some ((blockedSince (w.log i).writes).getD w.now) := by
      simp only [World.blockWrite, setSend_log, callWrite_log, again, blockedSince_again]
    refine ⟨fun _ => ?_, fun _ => ?_, fun allocated => ?_⟩
    · rw [since]
      simp only [World.blockWrite, setSend_send, clocked.recorded connected]
      cases blockedSince (w.log i).writes with
      | none => rfl
      | some first => exact if_neg (recordedTs_ne_zero first)
    · simpa [World.blockWrite] using ⟨writeReply_open again, pending⟩
    · rw [state] at allocated
      simpa [World.blockWrite] using clocked.closes allocated
  | failed _ _ fatal =>
    have none : blockedSince ((w.failWrite i).log i).writes = none := by
      simp only [World.failWrite, setSend_log, closeFd_log, callWrite_log, fatal]
      exact blockedSince_other _ _ (by rintro ⟨⟩)
    refine ⟨fun connected => ?_, fun blocked => absurd none blocked, fun allocated => ?_⟩
    · simp [World.failWrite] at connected
    · rw [state] at allocated
      simpa [World.failWrite] using clocked.closes allocated
  | discarded gone =>
    have none : blockedSince (w.log i).writes = none := by
      by_contra blocked
      have := (clocked.pending blocked).1
      omega
    refine ⟨fun connected => ?_, fun blocked => absurd none blocked, fun allocated => ?_⟩
    · simp [World.dropOutput, gone] at connected
    · rw [state] at allocated
      simpa [World.dropOutput] using clocked.closes allocated
  | cut pending partLine =>
    -- what is in the buffer ends with a newline
    rw [throughEol_of_getLast (lines pending)] at partLine
    exact absurd (List.length_eq_zero_iff.mp partLine) pending
  | marked empty =>
    apply clocked.congr <;> simp [World.markOverflow, World.setSend, overflowLine, bytesOf]
  | queued msg =>
    apply clocked.congr <;> simp +contextual [World.queueText, World.setSend]
  | refused msg =>
    apply clocked.congr <;> simp [World.refuse, World.setSend]

theorem Clocked.effect {tail : Bytes → Prop} (clocked : Clocked (w.client j) (w.log j)) (effect : Effect tail w w')
    (lines : (w.client j).send.buf ≠ [] → (w.client j).send.buf.getLast? = some 10) : Clocked (w'.client j) (w'.log j) := by
  cases effect with
  | send i step =>
    rcases eq_or_ne j i with rfl | other
    · exact clocked.step step lines
    · obtain ⟨client, log⟩ := step.others other
      rwa [client, log]
  | aside client log => rwa [client, log]
  | cleared i =>
    apply setClient_setLog_at clocked
    rintro rfl
    exact clocked_unused rfl rfl fun allocated => absurd rfl allocated
  | constructed i recvFd sendFd isSocket =>
    apply setClient_setLog_at clocked
    rintro rfl
    exact clocked_unused rfl rfl fun _ => rfl
  | timeouts i reset close =>
    apply setClient_setLog_at clocked
    rintro rfl
    refine ⟨clocked.recorded, clocked.pending, fun _ => ?_⟩
    simp [closeAfter]
  | read i | ended i =>
    apply setClient_setLog_at clocked
    rintro rfl
    exact clocked.congr rfl id rfl rfl rfl rfl id
  | dispatched i parked | reported i parked | exited i parked =>
    apply setClient_setLog_at clocked
    rintro rfl
    exact clocked.congr rfl id rfl rfl rfl rfl fun _ => by simp [parked]
  | appends i | queuedFds i | cut i | overdue i =>
    apply setClient_at clocked
    rintro rfl
    exact clocked.congr rfl id rfl rfl rfl rfl id
  | freed i =>
    apply setClient_at clocked
    rintro rfl
    exact clocked.congr rfl id rfl rfl rfl rfl fun allocated => absurd rfl allocated
  | destroyed i here =>
    apply setClient_at clocked
    rintro rfl
    exact clocked.congr rfl id rfl rfl rfl rfl fun _ => here
  | parked i _ here | closing i here | finished i here | moved i _ here =>
    apply setClient_at clocked
    rintro rfl
    exact clocked.congr rfl id rfl rfl rfl rfl fun _ => by simp [here]
  | completed i completes =>
    apply setClient_at clocked
    rintro rfl
    exact clocked.congr rfl id rfl rfl rfl rfl fun _ => by simp [completes.waiting]

end Steps

/-- The output of a client consists of lines, and its delay is recorded. -/
structure OutputOk (w : World n) (i : Fin n) : Prop where
  stream : ∃ entries, EventStream (outputView w i) entries
  clocked : Clocked (w.client i) (w.log i)

theorem OutputOk.effect {tail : Bytes → Prop} {w w' : World n} {i : Fin n} (ok : OutputOk w i) (effect : Effect tail w w') :
    OutputOk w' i := by
  obtain ⟨⟨entries, stream⟩, clocked⟩ := ok
  exact ⟨stream.effect effect, clocked.effect effect stream.lines⟩

theorem reached_outputOk {standard : ℕ} {events : List (CtlEvent n)} {w : World n}
    (reached : exec? ctlStep (World.init n standard) events = some w) (i : Fin n) : OutputOk w i := by
  apply reached_of_effects (I := fun w => OutputOk w i) _ _ reached
  · exact ⟨⟨[], eventStream_fresh 0⟩, clocked_unused rfl rfl fun allocated => absurd rfl allocated⟩
  · exact fun _ _ ok effect => ok.effect effect

/-! ## The output phase -/

/-- All calls of `write` since some time have failed for now, and that time is as long ago as the timeout says. -/
def Overdue (now : ℤ) (log : ClientLog) : Prop :=
  ∃ since, blockedSince log.writes = some since ∧ closeAfter log.timeouts ≤ wrap 64 (now - recordedTs since)

section Phase

variable {w : World n} {i : Fin n}

theorem not_overdue {now : ℤ} {log : ClientLog} (none : blockedSince log.writes = none) : ¬ Overdue now log := by
  rintro ⟨since, blocked, -⟩
  rw [none] at blocked
  cases blocked

/-- Where output is stuck, what is recorded says whether it is overdue. -/
theorem Clocked.overdue_iff {ctl : Controller} {log : ClientLog} (clocked : Clocked ctl log) (now : ℤ)
    (allocated : ctl.stateFn ≠ none) (connected : ctl.send.fd ≠ -1) (stuck : blockedSince log.writes ≠ none) :
    Overdue now log ↔ ctl.send.timeoutClose ≤ wrap 64 (now - ctl.send.blockedTs) := by
  obtain ⟨since, blocked⟩ := Option.ne_none_iff_exists'.mp stuck
  have recorded : ctl.send.blockedTs = recordedTs since := by
    rw [clocked.recorded connected, blocked]
    rfl
  rw [Overdue, clocked.closes allocated, recorded, blocked]
  constructor
  · rintro ⟨_, ⟨⟩, late⟩
    exact late
  · exact fun late => ⟨since, rfl, late⟩

theorem checkTimeout_frees (allocated : (w.client i).stateFn ≠ none) : Ends (checkTimeout i) w fun _ w' =>
    w'.log = w.log ∧ ((w'.client i).stateFn = none ↔
      (w.client i).send.timeoutClose ≤ wrap 64 (w.now - (w.client i).send.blockedTs)) := by
  simp only [checkTimeout, ends_bind, ends_get, ends_ite, ends_modify, ends_pure]
  split
  · rename_i late
    refine (ctlDtor_client i w).mono fun _ w₁ result => ?_
    obtain ⟨_, log⟩ := result
    rw [ctlFree, ends_modify]
    refine ⟨log, iff_of_true ?_ late⟩
    simp
  · rename_i early
    split
    · refine ⟨rfl, iff_of_false ?_ early⟩
      simpa [World.setSend] using allocated
    · exact ⟨trivial, iff_of_false allocated early⟩

/-- A flush that gives up has seen `write` fail for now. -/
theorem Flushed.blocked {w₁ : World n} {done : Bool} (flushed : Flushed i w done w₁) (ok : OutputOk w₁ i)
    (stopped : done = false) : blockedSince (w₁.log i).writes ≠ none := by
  obtain ⟨⟨entries, stream⟩, -⟩ := ok
  have pending := flushed.pending stopped
  obtain partLine | ⟨earlier, time, last⟩ := flushed.stopped stopped
  · have whole : throughEol (w₁.client i).send.buf = _ := throughEol_of_getLast (stream.lines pending)
    rw [whole] at partLine
    exact absurd (List.length_eq_zero_iff.mp partLine) pending
  · rw [last, blockedSince_again]
    nofun

/-- A flush that does not give up leaves nothing that is stuck. -/
theorem Flushed.clear {w₁ : World n} {done : Bool} (flushed : Flushed i w done w₁) (ok : OutputOk w₁ i)
    (finished : done = true) : blockedSince (w₁.log i).writes = none := by
  by_contra stuck
  obtain ⟨opened, pending⟩ := ok.clocked.pending stuck
  obtain gone | ⟨empty, -⟩ := flushed.finished finished
  · omega
  · exact pending empty

/-- The second loop of `ctl_run` destroys a client whose output is overdue, and no other. -/
theorem outputPhase_destroys (ok : OutputOk w i) (allocated : (w.client i).stateFn ≠ none) :
    Ends (outputPhase i) w fun _ w' => (w'.client i).stateFn = none ↔ Overdue w.now (w'.log i) := by
  simp only [outputPhase, ends_bind, ends_get, ends_ite, ends_modify, ends_pure, if_true]
  rw [if_pos (Option.isSome_iff_ne_none.mpr allocated)]
  split
  · refine (ctlFlushOutbuf_spec allocated).mono fun done w₁ flushed => ?_
    have effects : Effects (fun _ => True) w w₁ := flushed.steps.sends.effects
    have ok₁ : OutputOk w₁ i := effects.preserve (I := fun w => OutputOk w i) (fun _ _ ok effect => ok.effect effect) ok
    have allocated₁ := flushed.steps.allocated allocated
    rw [← flushed.steps.now]
    split
    · rename_i blocked
      have stuck := flushed.blocked ok₁ blocked.1
      have late := ok₁.clocked.overdue_iff w₁.now allocated₁ (by omega) stuck
      refine (checkTimeout_frees allocated₁).mono fun kept w₂ result => ?_
      obtain ⟨log, frees⟩ := result
      have destroyed : (w₂.client i).stateFn = none ↔ Overdue w₁.now (w₂.log i) := by rw [frees, log, late]
      split_ifs
      · exact destroyed
      · exact destroyed
      · exact destroyed
    · rename_i drained
      have kept : (w₁.client i).stateFn = none ↔ Overdue w₁.now (w₁.log i) := by
        refine iff_of_false allocated₁ (not_overdue ?_)
        cases done with
        | true => exact flushed.clear ok₁ rfl
        | false =>
          by_contra stuck
          exact drained ⟨rfl, (ok₁.clocked.pending stuck).1⟩
      split_ifs
      · exact kept
      · exact kept
      · exact kept
      · exact kept
  · rename_i idle
    have kept : (w.client i).stateFn = none ↔ Overdue w.now (w.log i) := by
      refine iff_of_false allocated (not_overdue ?_)
      by_contra stuck
      exact idle (ok.clocked.pending stuck)
    split_ifs
    · exact kept
    · exact kept

end Phase

end DaemonProxy.Proofs
