import Mathlib.Logic.Relation
import DaemonProxy.Model.Controller

/-! # What the output functions do

Flushing and `ctl_write` change a world by steps of a few kinds, each on the output half and the record of one client
and on the descriptors. What holds of every such step holds of the functions.
-/

namespace DaemonProxy.Proofs

open Lib Model

variable {n : ℕ}

/-! ## Updates -/

section Updates

variable (w : World n) (i : Fin n) (fd : ℤ)

@[simp] theorem closeFd_client : (w.closeFd i fd).client = w.client := by
  rw [World.closeFd]
  split <;> rfl

@[simp] theorem closeFd_log : (w.closeFd i fd).log = w.log := by
  rw [World.closeFd]
  split <;> rfl

@[simp] theorem closeFd_now : (w.closeFd i fd).now = w.now := by
  rw [World.closeFd]
  split <;> rfl

@[simp] theorem closeFd_replies : (w.closeFd i fd).replies = w.replies := by
  rw [World.closeFd]
  split <;> rfl

@[simp] theorem setSend_send (send : SendSide) : ((w.setSend i send).client i).send = send := by
  simp [World.setSend, World.setClient]

@[simp] theorem setSend_log (send : SendSide) : (w.setSend i send).log = w.log := rfl

@[simp] theorem setLog_client (log : ClientLog) : (w.setLog i log).client = w.client := rfl

@[simp] theorem setLog_log (log : ClientLog) : (w.setLog i log).log i = log := Function.update_self ..

@[simp] theorem callWrite_client : (w.callWrite i).client = w.client := rfl

@[simp] theorem callWrite_log : (w.callWrite i).log i =
    { w.log i with writes := (w.log i).writes ++ [(w.now, w.writeReply i)] } := Function.update_self ..

theorem acceptBytes_log (count : ℕ) : (w.acceptBytes i count).log = Function.update w.log i { w.log i with
    accepted := (w.log i).accepted ++ (w.client i).send.buf.take count
    writes := (w.log i).writes ++ [(w.now, w.writeReply i)] } := by
  rw [World.acceptBytes]
  dsimp only
  rw [callWrite_log]
  exact Function.update_idem ..

end Updates

/-! ## Steps -/

/-- A step of the output of client `i`. -/
inductive SendStep (i : Fin n) (w : World n) : World n → Prop
  | accepted (count : ℕ) (some : 0 < count) (within : count ≤ throughEol (w.client i).send.buf)
      (connected : (w.client i).send.fd ≠ -1) (allocated : (w.client i).stateFn ≠ none)
      (success : ∃ more, w.writeReply i = .accepted more) : SendStep i w (w.acceptBytes i count)
  | blocked (connected : (w.client i).send.fd ≠ -1) (allocated : (w.client i).stateFn ≠ none)
      (again : w.writeReply i = .again) (pending : (w.client i).send.buf ≠ []) : SendStep i w (w.blockWrite i)
  | failed (connected : (w.client i).send.fd ≠ -1) (allocated : (w.client i).stateFn ≠ none)
      (fatal : w.writeReply i = .fatal) : SendStep i w (w.failWrite i)
  | discarded (gone : (w.client i).send.fd = -1) : SendStep i w (w.dropOutput i)
  | cut (pending : (w.client i).send.buf ≠ []) (partLine : throughEol (w.client i).send.buf = 0)
      (overflow : (w.client i).send.overflow = true) : SendStep i w (w.dropOutput i)
  | marked (empty : (w.client i).send.buf = []) (overflow : (w.client i).send.overflow = true) :
      SendStep i w (w.markOverflow i)
  | queued (msg : Message) (clear : (w.client i).send.overflow = false)
      (fits : (w.client i).send.buf.length + msg.text.length < sendBufSize) : SendStep i w (w.queueText i msg msg.text)
  | refused (msg : Message)
      (full : (w.client i).send.overflow = true ∨ sendBufSize ≤ (w.client i).send.buf.length + msg.text.length) :
      SendStep i w (w.refuse i msg)

/-- Steps of the output of one client. -/
abbrev SendSteps (i : Fin n) : World n → World n → Prop := Relation.ReflTransGen (SendStep i)

/-- Steps of the output of any clients. -/
abbrev Sends : World n → World n → Prop := Relation.ReflTransGen fun w w' => ∃ i, SendStep i w w'

variable {i : Fin n} {w w' : World n}

theorem SendSteps.sends (steps : SendSteps i w w') : Sends w w' := by
  induction steps with
  | refl => exact .refl
  | tail _ step ih => exact ih.tail ⟨i, step⟩

/-- What every step keeps, the steps keep. -/
theorem Sends.preserve {I : World n → Prop} (kept : ∀ i w w', I w → SendStep i w w' → I w')
    (steps : Sends w w') (holds : I w) : I w' := by
  induction steps with
  | refl => exact holds
  | tail _ step ih =>
    obtain ⟨i, step⟩ := step
    exact kept i _ _ ih step

/-! ## Frames -/

/-- What a client has on its input side. -/
structure SameInput (w w' : World n) (j : Fin n) : Prop where
  stateFn : (w'.client j).stateFn = (w.client j).stateFn
  recv : (w'.client j).recv = (w.client j).recv
  stream : (w'.log j).stream = (w.log j).stream
  ended : (w'.log j).ended = (w.log j).ended
  items : (w'.log j).items = (w.log j).items

theorem SameInput.refl (w : World n) (j : Fin n) : SameInput w w j := ⟨rfl, rfl, rfl, rfl, rfl⟩

variable {w₁ : World n} {j : Fin n}

theorem SameInput.trans {w₂ w₃ : World n} (first : SameInput w₁ w₂ j) (second : SameInput w₂ w₃ j) :
    SameInput w₁ w₃ j :=
  ⟨second.stateFn.trans first.stateFn, second.recv.trans first.recv, second.stream.trans first.stream,
    second.ended.trans first.ended, second.items.trans first.items⟩

/-- A step replaces the output half and part of the record of one client. -/
theorem SendStep.shape (step : SendStep i w w') :
    (∃ send, w'.client = Function.update w.client i { w.client i with send }) ∧
      ∃ offered accepted writes, w'.log = Function.update w.log i { w.log i with offered, accepted, writes } := by
  have same : ∃ offered accepted writes, w.log = Function.update w.log i { w.log i with offered, accepted, writes } :=
    ⟨_, _, _, (Function.update_eq_self i w.log).symm⟩
  cases step with
  | accepted count => exact ⟨⟨_, rfl⟩, _, _, _, acceptBytes_log ..⟩
  | blocked => exact ⟨⟨_, rfl⟩, _, _, _, rfl⟩
  | failed =>
    refine ⟨⟨{ (w.client i).send with fd := -1 }, ?_⟩, ?_⟩
    · simp [World.failWrite, World.setSend, World.setClient, World.callWrite, World.record, World.setLog]
    · exact ⟨_, _, _, by simp only [World.failWrite, setSend_log, closeFd_log]; rfl⟩
  | discarded | cut | marked => exact ⟨⟨_, rfl⟩, same⟩
  | queued | refused => exact ⟨⟨_, rfl⟩, _, _, _, rfl⟩

theorem SendStep.sameInput (step : SendStep i w w') (j : Fin n) : SameInput w w' j := by
  obtain ⟨⟨send, client⟩, offered, accepted, writes, log⟩ := step.shape
  by_cases here : j = i
  · subst here
    constructor <;> simp [client, log]
  · constructor <;> simp [client, log, here]

theorem SendStep.others (step : SendStep i w w') (other : j ≠ i) :
    w'.client j = w.client j ∧ w'.log j = w.log j := by
  obtain ⟨⟨send, client⟩, offered, accepted, writes, log⟩ := step.shape
  exact ⟨by rw [client, Function.update_of_ne other], by rw [log, Function.update_of_ne other]⟩

theorem Sends.sameInput (steps : Sends w w') (j : Fin n) : SameInput w w' j :=
  steps.preserve (I := fun w' => SameInput w w' j) (fun _ _ _ same step => same.trans (step.sameInput j)) (.refl w j)

theorem SendSteps.others (steps : SendSteps i w w') (other : j ≠ i) :
    w'.client j = w.client j ∧ w'.log j = w.log j := by
  induction steps with
  | refl => exact ⟨rfl, rfl⟩
  | tail _ step ih =>
    obtain ⟨client, log⟩ := step.others other
    exact ⟨client.trans ih.1, log.trans ih.2⟩

theorem SendStep.allocated (step : SendStep i w w')
    (allocated : (w.client j).stateFn ≠ none) : (w'.client j).stateFn ≠ none := by
  rwa [(step.sameInput j).stateFn]

theorem SendSteps.allocated (steps : SendSteps i w w')
    (allocated : (w.client j).stateFn ≠ none) : (w'.client j).stateFn ≠ none := by
  rwa [(steps.sends.sameInput j).stateFn]

/-! ## Flushing -/

/-- The bytes of a client so far: those that were written, and those in its buffer. -/
def sent (w : World n) (i : Fin n) : Bytes := (w.log i).accepted ++ (w.client i).send.buf

theorem SendStep.gone (step : SendStep i w w') (gone : (w.client i).send.fd = -1) :
    (w'.client i).send.fd = -1 := by
  cases step with
  | accepted _ _ _ connected | blocked connected => exact absurd gone connected
  | failed => simp [World.failWrite]
  | discarded => simp [World.dropOutput, gone]
  | cut => simp [World.dropOutput, gone]
  | marked => simp [World.markOverflow, gone]
  | queued => simp [World.queueText, gone]
  | refused => simp [World.refuse, gone]

theorem SendStep.now (step : SendStep i w w') : w'.now = w.now := by
  cases step with
  | failed => exact closeFd_now ..
  | _ => rfl

theorem SendSteps.now (steps : SendSteps i w w') : w'.now = w.now := by
  induction steps with
  | refl => rfl
  | tail _ step ih => exact step.now.trans ih

theorem SendSteps.gone (steps : SendSteps i w w') (gone : (w.client i).send.fd = -1) :
    (w'.client i).send.fd = -1 := by
  induction steps with
  | refl => exact gone
  | tail _ step ih => exact step.gone ih

/-- Output without the overflow flag is passed on as it is. -/
structure PassedOn (i : Fin n) (w w' : World n) : Prop where
  clear : (w'.client i).send.overflow = false
  shorter : (w'.client i).send.buf.length ≤ (w.client i).send.buf.length
  sent : (w'.client i).send.fd ≠ -1 → sent w' i = sent w i

/-- What a flush does to its own client besides. -/
structure Flushed (i : Fin n) (w : World n) (done : Bool) (w' : World n) : Prop where
  steps : SendSteps i w w'
  offered : (w'.log i).offered = (w.log i).offered
  passed : (w.client i).send.overflow = false → PassedOn i w w'
  finished : done = true → (w'.client i).send.fd = -1 ∨ (w'.client i).send.buf = [] ∧ (w'.client i).send.overflow = false
  pending : done = false → (w'.client i).send.buf ≠ []
  /-- It stops where there is no whole line left, or where `write` fails for now. -/
  stopped : done = false → throughEol (w'.client i).send.buf = 0 ∨
    ∃ earlier time, (w'.log i).writes = earlier ++ [(time, .again)]

/-- How many rounds a flush can take. -/
def flushVariant (send : SendSide) : ℕ := send.buf.length + if send.overflow then 10 else 0

section Flush

variable {i : Fin n} {w w₁ w' : World n} {done : Bool}

theorem flushVariant_mark (empty : (w.client i).send.buf = []) (overflow : (w.client i).send.overflow = true) :
    flushVariant ((w.markOverflow i).client i).send < flushVariant (w.client i).send := by
  simp [flushVariant, World.markOverflow, empty, overflow, overflowLine, bytesOf]

theorem flushVariant_drop (pending : (w.client i).send.buf ≠ []) :
    flushVariant ((w.dropOutput i).client i).send < flushVariant (w.client i).send := by
  have := List.length_pos_iff.mpr pending
  simp only [flushVariant, World.dropOutput, setSend_send, List.length_nil]
  omega

theorem flushVariant_accept {count : ℕ} (positive : 0 < count) (pending : (w.client i).send.buf ≠ []) :
    flushVariant ((w.acceptBytes i count).client i).send < flushVariant (w.client i).send := by
  have := List.length_pos_iff.mpr pending
  simp only [flushVariant, World.acceptBytes, setLog_client, setSend_send, List.length_drop]
  omega

theorem Flushed.after (flushed : Flushed i w₁ done w') (step : SendStep i w w₁)
    (offered : (w₁.log i).offered = (w.log i).offered)
    (passed : (w.client i).send.overflow = false → PassedOn i w w₁) : Flushed i w done w' := by
  refine ⟨.head step flushed.steps, flushed.offered.trans offered, fun off => ?_, flushed.finished, flushed.pending,
    flushed.stopped⟩
  obtain ⟨off₁, shorter, same⟩ := passed off
  obtain ⟨off', shorter', same'⟩ := flushed.passed off₁
  refine ⟨off', shorter'.trans shorter, fun connected => (same' connected).trans (same fun gone => connected ?_)⟩
  exact flushed.steps.gone gone

theorem Flushed.of_step (step : SendStep i w w') (offered : (w'.log i).offered = (w.log i).offered)
    (accepted : (w'.log i).accepted = (w.log i).accepted)
    (clear : (w'.client i).send.overflow = (w.client i).send.overflow)
    (buf : (w'.client i).send.buf = (w.client i).send.buf)
    (finished : done = true → (w'.client i).send.fd = -1) (pending : done = false → (w'.client i).send.buf ≠ [])
    (stopped : done = false → ∃ earlier time, (w'.log i).writes = earlier ++ [(time, .again)]) : Flushed i w done w' :=
  ⟨.single step, offered, fun off => ⟨clear.trans off, by rw [buf], fun _ => by rw [sent, sent, accepted, buf]⟩,
    fun same => .inl (finished same), pending, fun same => .inr (stopped same)⟩

theorem flushLoop_spec (allocated : (w.client i).stateFn ≠ none) {fuel : ℕ}
    (enough : flushVariant (w.client i).send < fuel) : Ends (flushLoop i fuel) w (Flushed i w) := by
  induction fuel generalizing w with
  | zero => exact absurd enough (Nat.not_lt_zero _)
  | succ fuel ih =>
    simp only [flushLoop, ends_bind, ends_get, ends_ite, ends_modify, ends_pure]
    split_ifs with empty overflow gone partLine overflow
    · -- the overflow line
      have step : SendStep i w (w.markOverflow i) := .marked empty overflow
      refine (ih (step.allocated allocated) ?_).mono fun done w' flushed => flushed.after step rfl fun off => ?_
      · exact (flushVariant_mark empty overflow).trans_le (Nat.le_of_lt_succ enough)
      · exact absurd (overflow.symm.trans off) (by decide)
    · refine ⟨.refl, rfl, fun off => ⟨off, le_rfl, fun _ => rfl⟩, fun _ => .inr ⟨empty, by simpa using overflow⟩, by rintro ⟨⟩,
        by rintro ⟨⟩⟩
    · have step : SendStep i w (w.dropOutput i) := .discarded gone
      refine (ih (step.allocated allocated) ?_).mono fun done w' flushed => flushed.after step rfl fun off => ?_
      · exact (flushVariant_drop empty).trans_le (Nat.le_of_lt_succ enough)
      · exact ⟨by simp [World.dropOutput, off], by simp [World.dropOutput], fun connected => by
          simp [World.dropOutput, gone] at connected⟩
    · have step : SendStep i w (w.dropOutput i) := .cut empty partLine overflow
      refine (ih (step.allocated allocated) ?_).mono fun done w' flushed => flushed.after step rfl fun off => ?_
      · exact (flushVariant_drop empty).trans_le (Nat.le_of_lt_succ enough)
      · exact absurd (overflow.symm.trans off) (by decide)
    · exact ⟨.refl, rfl, fun off => ⟨off, le_rfl, fun _ => rfl⟩, by rintro ⟨⟩, fun _ => empty, fun _ => .inl partLine⟩
    · have someLine : 0 < throughEol (w.client i).send.buf := Nat.pos_of_ne_zero partLine
      cases reply : w.writeReply i with
      | accepted more =>
        have step : SendStep i w (w.acceptBytes i (min (more + 1) (throughEol (w.client i).send.buf))) :=
          .accepted _ (by omega) (by omega) gone allocated ⟨more, reply⟩
        simp only [ends_bind, ends_modify]
        refine (ih (step.allocated allocated) ?_).mono fun done w' flushed => flushed.after step ?_ fun off => ?_
        · exact (flushVariant_accept (by omega) empty).trans_le (Nat.le_of_lt_succ enough)
        · simp [World.acceptBytes]
        · exact ⟨by simp [World.acceptBytes, off], by simp [World.acceptBytes], fun _ => by
            simp [sent, World.acceptBytes]⟩
      | again =>
        simp only [ends_bind, ends_modify, ends_pure]
        refine .of_step (.blocked gone allocated reply empty) (by simp [World.blockWrite]) (by simp [World.blockWrite])
          (by simp [World.blockWrite]) (by simp [World.blockWrite]) (by rintro ⟨⟩) (fun _ => ?_) fun _ => ⟨(w.log i).writes, w.now, ?_⟩
        · simpa [World.blockWrite] using empty
        · simp [World.blockWrite, reply]
      | fatal =>
        simp only [ends_bind, ends_modify, ends_pure]
        exact .of_step (.failed gone allocated reply) (by simp [World.failWrite]) (by simp [World.failWrite])
          (by simp [World.failWrite]) (by simp [World.failWrite]) (fun _ => by simp [World.failWrite]) (by rintro ⟨⟩) (by rintro ⟨⟩)

theorem ctlFlushOutbuf_spec (allocated : (w.client i).stateFn ≠ none) : Ends (ctlFlushOutbuf i) w (Flushed i w) := by
  simp only [ctlFlushOutbuf, ends_bind, ends_get]
  apply flushLoop_spec allocated
  rw [flushVariant]
  split <;> omega

/-- What `ctl_out_buf_ready` does; when it answers yes, the largest write fits or will be dropped. -/
theorem ctlOutBufReady_spec (allocated : (w.client i).stateFn ≠ none) :
    Ends (ctlOutBufReady i) w fun _ w' => SendSteps i w w' ∧ (w'.log i).offered = (w.log i).offered := by
  simp only [ctlOutBufReady, ends_bind, ends_get, ends_ite, ends_pure]
  split_ifs
  · exact ⟨.refl, trivial⟩
  · exact ⟨.refl, trivial⟩
  · exact (ctlFlushOutbuf_spec allocated).mono fun _ _ flushed => ⟨flushed.steps, flushed.offered⟩

end Flush

/-! ## Writing -/

/-- The text of the message stands where `msg_data` points, and `msg_len` is its length. -/
def TextAt (msg : Message) (w : World n) : MsgData n → Option ℕ → Prop
  | some (k, start), msgLen => msgLen = some msg.text.length ∧
      ((w.client k).send.buf.drop start).take msg.text.length = msg.text
  | none, msgLen => ∀ len ∈ msgLen, len = msg.text.length

section Write

variable {i : Fin n} {w w' : World n} {done : Bool} {msg : Message} {msgData : MsgData n} {msgLen : Option ℕ}

theorem TextAt.len (text : TextAt msg w msgData msgLen) : ∀ len ∈ msgLen, len = msg.text.length := by
  cases msgData with
  | none => exact text
  | some place =>
    rintro len same
    rw [text.1] at same
    exact (Option.some.inj same).symm

/-- The text stays where it is while another client's output changes. -/
theorem TextAt.congr (text : TextAt msg w msgData msgLen) (steps : SendSteps i w w')
    (elsewhere : ∀ place ∈ msgData, place.1 ≠ i) : TextAt msg w' msgData msgLen := by
  cases msgData with
  | none => exact text
  | some place =>
    refine ⟨text.1, ?_⟩
    rw [(steps.others (elsewhere place rfl)).1]
    exact text.2

/-- What a client it is written to gets of a message: its text, or the overflow flag. -/
structure Received (msg : Message) (w w' : World n) (i : Fin n) : Prop where
  offered : (w'.log i).offered = (w.log i).offered ++ [msg]
  sent : (w'.client i).send.fd ≠ -1 →
    sent w' i = sent w i ++ if (w'.client i).send.overflow then [] else msg.text

theorem Received.congr_left (received : Received msg w₁ w' i) (client : w₁.client i = w.client i)
    (log : w₁.log i = w.log i) : Received msg w w' i := by
  obtain ⟨offered, same⟩ := received
  simp only [Proofs.sent, client, log] at offered same
  exact ⟨offered, same⟩

theorem Received.congr_right (received : Received msg w w₁ i) (client : w'.client i = w₁.client i)
    (log : w'.log i = w₁.log i) : Received msg w w' i := by
  obtain ⟨offered, same⟩ := received
  simp only [Proofs.sent, ← client, ← log] at offered same
  exact ⟨offered, same⟩

/-- What a message does when it is written to a client. -/
structure Written (i : Fin n) (msg : Message) (w w' : World n) : Prop where
  steps : SendSteps i w w'
  received : Received msg w w' i

theorem Written.after (written : Written i msg w₁ w') (flushed : Flushed i w done w₁)
    (passed : PassedOn i w w₁) : Written i msg w w' := by
  obtain ⟨steps, offered, same⟩ := written
  refine ⟨flushed.steps.trans steps, by rw [offered, flushed.offered], fun connected => ?_⟩
  rw [same connected, passed.sent fun gone => connected (steps.gone gone)]

theorem written_queued (clear : (w.client i).send.overflow = false)
    (fits : (w.client i).send.buf.length + msg.text.length < sendBufSize) :
    Written i msg w (w.queueText i msg msg.text) :=
  ⟨.single (.queued msg clear fits), by simp [World.queueText], fun _ => by simp [sent, World.queueText, clear]⟩

theorem written_refused
    (full : (w.client i).send.overflow = true ∨ sendBufSize ≤ (w.client i).send.buf.length + msg.text.length) :
    Written i msg w (w.refuse i msg) :=
  ⟨.single (.refused msg full), by simp [World.refuse], fun _ => by simp [sent, World.refuse]⟩

/-- How many rounds `check_space` can take. -/
def spaceVariant (w : World n) (i : Fin n) (msgLen : Option ℕ) : ℕ :=
  (w.client i).send.buf.length + if msgLen = none then 2 else 1

theorem writeTo_spec {fuel : ℕ} (allocated : (w.client i).stateFn ≠ none) (clear : (w.client i).send.overflow = false)
    (enough : spaceVariant w i msgLen ≤ fuel) (text : TextAt msg w msgData msgLen)
    (elsewhere : ∀ place ∈ msgData, place.1 ≠ i) :
    Ends (writeTo msg i fuel msgData msgLen) w fun found w' => Written i msg w w' ∧ TextAt msg w' found.1 found.2 ∧
      ∀ place ∈ found.1, place ∈ msgData ∨ place.1 = i := by
  induction fuel generalizing w msgLen with
  | zero =>
    rw [spaceVariant] at enough
    split at enough <;> omega
  | succ fuel ih =>
    rw [spaceVariant] at enough
    rw [writeTo, ends_bind, ends_get, ends_ite]
    split
    · -- it does not fit: flush, and look again if that made room
      rename_i noRoom
      obtain ⟨len, known, large⟩ : ∃ len, msgLen = some len ∧ sendBufSize - (w.client i).send.buf.length ≤ len := by
        simpa [Option.any_eq_true] using noRoom
      obtain rfl := text.len len known
      rw [if_neg (by simp [known])] at enough
      rw [ends_bind]
      refine (ctlFlushOutbuf_spec allocated).mono fun done w₁ flushed => ?_
      have passed := flushed.passed clear
      have shorter := passed.shorter
      have text₁ := text.congr flushed.steps elsewhere
      simp only [ends_bind, ends_get, ends_ite, ends_modify, ends_pure]
      split
      · rename_i progress
        have enough₁ : spaceVariant w₁ i msgLen ≤ fuel := by
          rw [spaceVariant, if_neg (by simp [known])]
          omega
        exact (ih (flushed.steps.allocated allocated) passed.clear enough₁ text₁).mono fun found w' result =>
          ⟨result.1.after flushed passed, result.2⟩
      · rename_i same
        have refused : Written i msg w₁ (w₁.refuse i msg) := written_refused (.inr (by omega))
        exact ⟨refused.after flushed passed, text₁.congr refused.steps elsewhere,
          fun place member => .inl member⟩
    · rename_i room
      have short : ∀ len ∈ msgLen, len + (w.client i).send.buf.length < sendBufSize := by
        intro len known
        rw [Option.mem_def.mp known] at room
        simpa using room
      cases msgData with
      | some place =>
        obtain ⟨known, there⟩ := text
        have fits := short _ known
        simp only [ends_bind, ends_get, ends_modify, ends_pure, known, Option.getD_some, there]
        have queued : Written i msg w (w.queueText i msg msg.text) := written_queued clear (by omega)
        have text : TextAt msg w (some place) (some msg.text.length) := ⟨rfl, there⟩
        exact ⟨queued, text.congr queued.steps elsewhere, fun place member => .inl member⟩
      | none =>
        simp only [ends_ite, ends_bind, ends_modify, ends_pure]
        split
        · -- the length was not known before
          rename_i large
          have unknown : msgLen = none := by
            cases known : msgLen with
            | none => rfl
            | some len =>
              have := short len known
              have := text len known
              omega
          rw [if_pos unknown] at enough
          exact ih allocated clear (by rw [spaceVariant, if_neg (by rintro ⟨⟩)]; omega) fun len same => (Option.some.inj same).symm
        · rename_i fits
          refine ⟨written_queued clear (by omega), ⟨rfl, ?_⟩, fun place same => ?_⟩
          · simp [World.queueText]
          · obtain rfl := Option.some.inj same
            exact .inr rfl

/-- What a message does when it is written to several clients. -/
structure WrittenTo (addressed : List (Fin n)) (msg : Message) (w w' : World n) : Prop where
  sends : Sends w w'
  received : ∀ j ∈ addressed, Received msg w w' j
  others : ∀ j, j ∉ addressed → w'.client j = w.client j ∧ w'.log j = w.log j

theorem WrittenTo.nil (w : World n) : WrittenTo [] msg w w := ⟨.refl, nofun, fun _ _ => ⟨rfl, rfl⟩⟩

theorem Written.to (written : Written i msg w w') : WrittenTo [i] msg w w' := by
  refine ⟨written.steps.sends, fun j here => ?_, fun j other => ?_⟩
  · obtain rfl := List.mem_singleton.mp here
    exact written.received
  · exact written.steps.others fun here => other (List.mem_singleton.mpr here)

theorem WrittenTo.trans {flagged dest all : List (Fin n)} (first : WrittenTo flagged msg w w₁)
    (later : WrittenTo dest msg w₁ w') (apart : ∀ j ∈ flagged, j ∉ dest) (mem : ∀ j, j ∈ all ↔ j ∈ flagged ∨ j ∈ dest) :
    WrittenTo all msg w w' := by
  refine ⟨first.sends.trans later.sends, fun j here => ?_, fun j other => ?_⟩
  · by_cases inFlagged : j ∈ flagged
    · obtain ⟨client, log⟩ := later.others j (apart j inFlagged)
      exact (first.received j inFlagged).congr_right client log
    · obtain ⟨client, log⟩ := first.others j inFlagged
      exact (later.received j (((mem j).mp here).resolve_left inFlagged)).congr_left client log
  · rw [mem j, not_or] at other
    obtain ⟨client, log⟩ := first.others j other.1
    obtain ⟨client', log'⟩ := later.others j other.2
    exact ⟨client'.trans client, log'.trans log⟩

theorem Written.cons {rest : List (Fin n)} (first : Written i msg w w₁) (later : WrittenTo rest msg w₁ w')
    (once : i ∉ rest) : WrittenTo (i :: rest) msg w w' := by
  apply first.to.trans later
  · intro j here
    obtain rfl := List.mem_singleton.mp here
    exact once
  · intro j
    rw [List.mem_cons, List.mem_singleton]

theorem writeAll_spec {dest : List (Fin n)} (once : dest.Nodup) (allocated : ∀ i ∈ dest, (w.client i).stateFn ≠ none)
    (clear : ∀ i ∈ dest, (w.client i).send.overflow = false)
    (text : TextAt msg w msgData msgLen) (elsewhere : ∀ place ∈ msgData, place.1 ∉ dest) :
    Ends (writeAll msg dest msgData msgLen) w fun _ w' => WrittenTo dest msg w w' := by
  induction dest generalizing w msgData msgLen with
  | nil =>
    rw [writeAll, ends_pure]
    exact .nil w
  | cons i rest ih =>
    rw [List.nodup_cons] at once
    rw [writeAll, ends_bind, ends_get, ends_bind]
    have enough : spaceVariant w i msgLen ≤ (w.client i).send.buf.length + 3 := by
      rw [spaceVariant]
      split <;> omega
    have here : ∀ place ∈ msgData, place.1 ≠ i := fun place member same =>
      elsewhere place member (same ▸ List.mem_cons_self)
    refine (writeTo_spec (allocated i List.mem_cons_self) (clear i List.mem_cons_self) enough text here).mono ?_
    rintro found w₁ ⟨written, text₁, places⟩
    have clear₁ : ∀ j ∈ rest, (w₁.client j).send.overflow = false := by
      intro j member
      have other : j ≠ i := fun same => once.1 (same ▸ member)
      rw [(written.steps.others other).1]
      exact clear j (List.mem_cons_of_mem _ member)
    have allocated₁ : ∀ j ∈ rest, (w₁.client j).stateFn ≠ none := fun j member => by
      rw [(written.steps.sends.sameInput j).stateFn]
      exact allocated j (List.mem_cons_of_mem _ member)
    have elsewhere₁ : ∀ place ∈ found.1, place.1 ∉ rest := by
      intro place member
      rcases places place member with old | same
      · exact fun inRest => elsewhere place old (List.mem_cons_of_mem _ inRest)
      · exact same ▸ once.1
    exact (ih once.2 allocated₁ clear₁ text₁ elsewhere₁).mono fun _ w' later => written.cons later once.1

theorem refuseAll_spec {flagged : List (Fin n)} (once : flagged.Nodup) (full : ∀ i ∈ flagged, (w.client i).send.overflow = true) :
    WrittenTo flagged msg w (flagged.foldl (fun w i => w.refuse i msg) w) := by
  induction flagged generalizing w with
  | nil => exact .nil w
  | cons i rest ih =>
    rw [List.nodup_cons] at once
    have refused : Written i msg w (w.refuse i msg) := written_refused (.inl (full i List.mem_cons_self))
    refine refused.cons (ih once.2 fun j member => ?_) once.1
    rw [(refused.steps.others fun same => once.1 (same ▸ member)).1]
    exact full j (List.mem_cons_of_mem _ member)

/-- The clients that `ctl_write` addresses. -/
def addressed (w : World n) (singleDest : Option (Fin n)) : List (Fin n) :=
  (match singleDest with
    | some i => [i]
    | none => List.finRange n).filter w.connected

theorem addressed_nodup (w : World n) (singleDest : Option (Fin n)) : (addressed w singleDest).Nodup := by
  apply List.Nodup.filter
  cases singleDest with
  | none => exact List.nodup_finRange n
  | some i => exact List.nodup_singleton i

theorem addressed_allocated {singleDest : Option (Fin n)} (member : i ∈ addressed w singleDest) :
    (w.client i).stateFn ≠ none := by
  have connected := (List.mem_filter.mp member).2
  rw [World.connected, Bool.and_eq_true] at connected
  exact Option.isSome_iff_ne_none.mp connected.1

/-- `ctl_write` gives the message to the clients it addresses, and does nothing to the others. -/
theorem ctlWrite_spec (singleDest : Option (Fin n)) (msg : Message) (w : World n) :
    Ends (ctlWrite singleDest msg) w fun _ w' => WrittenTo (addressed w singleDest) msg w w' := by
  simp only [ctlWrite, ends_bind, ends_get, ends_modify]
  change Ends (writeAll msg ((addressed w singleDest).filter _) none none)
    (((addressed w singleDest).filter fun i => (w.client i).send.overflow).foldl (fun w i => w.refuse i msg) w) _
  have once := addressed_nodup w singleDest
  have refused : WrittenTo _ msg w _ := refuseAll_spec (once.filter fun i => (w.client i).send.overflow) fun i member =>
    (List.mem_filter.mp member).2
  have clear : ∀ i ∈ (addressed w singleDest).filter fun i => !(w.client i).send.overflow,
      (w.client i).send.overflow = false := fun i member => by simpa using (List.mem_filter.mp member).2
  have apart : ∀ i ∈ (addressed w singleDest).filter fun i => !(w.client i).send.overflow,
      i ∉ (addressed w singleDest).filter fun i => (w.client i).send.overflow := by
    intro i member inFlagged
    rw [List.mem_filter, clear i member] at inFlagged
    exact Bool.false_ne_true inFlagged.2
  have allocated : ∀ i ∈ (addressed w singleDest).filter fun i => !(w.client i).send.overflow,
      ((((addressed w singleDest).filter fun i => (w.client i).send.overflow).foldl
        (fun w i => w.refuse i msg) w).client i).stateFn ≠ none := fun i member => by
    rw [(refused.sends.sameInput i).stateFn]
    exact addressed_allocated (List.mem_filter.mp member).1
  have clear₁ := fun i member => (congrArg (·.send.overflow) (refused.others i (apart i member)).1).trans (clear i member)
  apply (writeAll_spec (once.filter _) allocated clear₁ (show TextAt msg _ none none from by rintro _ ⟨⟩) (by rintro _ ⟨⟩)).mono
  intro _ w' written
  apply refused.trans written
  · exact fun j inFlagged inDest => apart j inDest inFlagged
  · intro j
    simp only [List.mem_filter]
    cases (w.client j).send.overflow <;> simp

end Write

end DaemonProxy.Proofs
