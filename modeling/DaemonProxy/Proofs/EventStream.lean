import DaemonProxy.Proofs.ControllerEffects

/-! # The event stream of a client

What a client is to receive is a list of entries: the messages for it, each kept or dropped, with overflow lines in
between. The bytes written so far, followed by the buffer, are the bytes of the entries.
-/

namespace DaemonProxy.Proofs

open Lib Model

variable {n : ℕ}

/-! ## Entries -/

/-- An entry of an event stream. -/
inductive Entry
  | kept (msg : Message)
  | dropped (msg : Message)
  | overflow

namespace Entry

def message : Entry → Option Message
  | kept msg => some msg
  | dropped msg => some msg
  | overflow => none

def bytes : Entry → Bytes
  | kept msg => msg.text
  | dropped _ => []
  | overflow => overflowLine

end Entry

/-- Between a dropped message and the next one that is kept stands an overflow line. -/
def Represented (entries : List Entry) : Prop :=
  ∀ before lost between kept after, entries = before ++ .dropped lost :: between ++ .kept kept :: after →
    Entry.overflow ∈ between

/-- No message was dropped after the last overflow line. -/
def Announced (entries : List Entry) : Prop :=
  ∀ before lost between, entries = before ++ .dropped lost :: between → Entry.overflow ∈ between

section Entries

variable {entries : List Entry} {entry : Entry}

theorem Represented.concat (represented : Represented entries) (fresh : ∀ msg, entry = .kept msg → Announced entries) :
    Represented (entries ++ [entry]) := by
  intro before lost between kept after same
  rcases List.eq_nil_or_concat' after with rfl | ⟨after, last, rfl⟩
  · obtain ⟨rfl, last⟩ := List.append_inj' same rfl
    exact fresh kept (List.cons.inj last).1 before lost between rfl
  · have same : entries ++ [entry] = (before ++ .dropped lost :: between ++ .kept kept :: after) ++ [last] := by
      simpa using same
    exact represented before lost between kept after (List.append_inj' same rfl).1

theorem Announced.concat_kept (announced : Announced entries) (msg : Message) : Announced (entries ++ [.kept msg]) := by
  intro before lost between same
  rcases List.eq_nil_or_concat' between with rfl | ⟨between, last, rfl⟩
  · exact nomatch (List.cons.inj (List.append_inj' same rfl).2).1
  · have same : entries ++ [.kept msg] = (before ++ .dropped lost :: between) ++ [last] := by simpa using same
    exact List.mem_append_left _ (announced before lost between (List.append_inj' same rfl).1)

theorem announced_concat_overflow (entries : List Entry) : Announced (entries ++ [.overflow]) := by
  intro before lost between same
  rcases List.eq_nil_or_concat' between with rfl | ⟨between, last, rfl⟩
  · exact nomatch (List.cons.inj (List.append_inj' same rfl).2).1
  · have same : entries ++ [.overflow] = (before ++ .dropped lost :: between) ++ [last] := by simpa using same
    have last := (List.cons.inj (List.append_inj' same rfl).2).1
    exact List.mem_append_right _ (last ▸ List.mem_singleton_self _)

end Entries

/-! ## What an effect does to the output -/

/-- What the controllers have for a client. -/
structure OutputView where
  fd : ℤ
  buf : Bytes
  overflow : Bool
  offered : List Message
  accepted : Bytes

def outputView (w : World n) (j : Fin n) : OutputView where
  fd := (w.client j).send.fd
  buf := (w.client j).send.buf
  overflow := (w.client j).send.overflow
  offered := (w.log j).offered
  accepted := (w.log j).accepted

/-- The ways in which an effect concerns the output of a client. -/
inductive OutputEffect (w w' : World n) (j : Fin n) : Prop
  | same (same : outputView w' j = outputView w j)
  | step (step : SendStep j w w')
  | fresh (fd : ℤ) (fresh : outputView w' j = ⟨fd, [], false, [], []⟩)
  | overdue (pending : (w.client j).send.buf ≠ []) (same : outputView w' j = { outputView w j with overflow := true })

section Views

variable {w : World n} {i : Fin n} {ctl : Controller} {log : ClientLog}

theorem outputView_setClient (fd : ctl.send.fd = (w.client i).send.fd) (buf : ctl.send.buf = (w.client i).send.buf)
    (overflow : ctl.send.overflow = (w.client i).send.overflow) (j : Fin n) :
    outputView (w.setClient i ctl) j = outputView w j := by
  rcases eq_or_ne j i with rfl | other
  · simp [outputView, fd, buf, overflow]
  · simp [outputView, World.setClient, other]

theorem outputView_setLog (offered : log.offered = (w.log i).offered) (accepted : log.accepted = (w.log i).accepted)
    (j : Fin n) : outputView (w.setLog i log) j = outputView w j := by
  rcases eq_or_ne j i with rfl | other
  · simp [outputView, offered, accepted]
  · simp [outputView, World.setLog, other]

theorem outputView_update (fd : ctl.send.fd = (w.client i).send.fd) (buf : ctl.send.buf = (w.client i).send.buf)
    (overflow : ctl.send.overflow = (w.client i).send.overflow) (offered : log.offered = (w.log i).offered)
    (accepted : log.accepted = (w.log i).accepted) (j : Fin n) :
    outputView ((w.setClient i ctl).setLog i log) j = outputView w j :=
  (outputView_setLog (w := w.setClient i ctl) offered accepted j).trans (outputView_setClient fd buf overflow j)

end Views

variable {w w' : World n}

theorem Effect.output {tail : Bytes → Prop} (effect : Effect tail w w') (j : Fin n) : OutputEffect w w' j := by
  cases effect with
  | send i step =>
    rcases eq_or_ne j i with rfl | other
    · exact .step step
    · obtain ⟨client, log⟩ := step.others other
      exact .same (by simp only [outputView, client, log])
  | aside client log => exact .same (by simp only [outputView, client, log])
  | cleared i =>
    rcases eq_or_ne j i with rfl | other
    · exact .fresh 0 (by simp [outputView])
    · exact .same (by simp [outputView, World.setClient, World.setLog, other])
  | constructed i recvFd sendFd isSocket =>
    rcases eq_or_ne j i with rfl | other
    · exact .fresh sendFd (by simp [outputView, newController])
    · exact .same (by simp [outputView, World.setClient, World.setLog, other])
  | overdue i pending =>
    rcases eq_or_ne j i with rfl | other
    · exact .overdue pending (by simp [outputView])
    · exact .same (by simp [outputView, World.setSend, World.setClient, other])
  | read | ended | exited | dispatched | reported | timeouts => exact .same (by apply outputView_update <;> rfl)
  | _ => exact .same (by apply outputView_setClient <;> rfl)

/-! ## The invariant -/

/-- The entries account for what a client was offered, for what it accepted and for what it still gets. -/
structure EventStream (view : OutputView) (entries : List Entry) : Prop where
  messages : entries.filterMap Entry.message = view.offered
  leading : view.accepted <+: entries.flatMap Entry.bytes
  connected : view.fd ≠ -1 → view.accepted ++ view.buf = entries.flatMap Entry.bytes
  represented : Represented entries
  announced : view.overflow = false → Announced entries
  lines : view.buf ≠ [] → view.buf.getLast? = some 10

theorem eventStream_fresh (fd : ℤ) : EventStream ⟨fd, [], false, [], []⟩ [] where
  messages := rfl
  leading := List.nil_prefix
  connected _ := rfl
  represented _ _ _ _ _ same := by simp at same
  announced _ _ _ _ same := by simp at same
  lines empty := absurd rfl empty

variable {view : OutputView} {entries : List Entry}

theorem EventStream.concat (stream : EventStream view entries)
    {view' : OutputView} {entry : Entry} (messages : view'.offered = view.offered ++ entry.message.toList)
    (accepted : view'.accepted = view.accepted) (fd : view'.fd = view.fd) (buf : view'.buf = view.buf ++ entry.bytes)
    (kept : ∀ msg, entry = .kept msg → Announced entries) (announced : view'.overflow = false → Announced (entries ++ [entry]))
    (lines : view'.buf ≠ [] → view'.buf.getLast? = some 10) : EventStream view' (entries ++ [entry]) where
  messages := by
    rw [List.filterMap_append, stream.messages, messages]
    cases entry <;> rfl
  leading := by
    rw [accepted, List.flatMap_append]
    exact stream.leading.trans (List.prefix_append ..)
  connected used := by
    rw [fd] at used
    rw [accepted, buf, ← List.append_assoc, stream.connected used, List.flatMap_append, List.flatMap_singleton]
  represented := stream.represented.concat kept
  announced := announced
  lines := lines

theorem throughEol_of_getLast {buf : Bytes} (ends : buf.getLast? = some 10) : throughEol buf = buf.length := by
  obtain ⟨lines, rfl⟩ := List.getLast?_eq_some_iff.mp ends
  simp [throughEol]

/-- A client without a descriptor gets nothing more. -/
theorem EventStream.lost (stream : EventStream view entries) (buf : Bytes)
    (lines : buf ≠ [] → buf.getLast? = some 10) : EventStream { view with fd := -1, buf } entries :=
  ⟨stream.messages, stream.leading, fun used => absurd rfl used, stream.represented, stream.announced, lines⟩

/-- What was in front of the buffer is written. -/
theorem EventStream.written (stream : EventStream view entries)
    (used : view.fd ≠ -1) (count : ℕ) :
    EventStream { view with buf := view.buf.drop count, accepted := view.accepted ++ view.buf.take count } entries := by
  have whole : view.accepted ++ view.buf.take count ++ view.buf.drop count = entries.flatMap Entry.bytes := by
    rw [List.append_assoc, List.take_append_drop, stream.connected used]
  refine ⟨stream.messages, ⟨_, whole⟩, fun _ => whole, stream.represented, stream.announced, fun pending => ?_⟩
  have inside : ¬ view.buf.length ≤ count := by simpa using pending
  rw [List.getLast?_drop, if_neg inside]
  apply stream.lines
  rintro empty
  simp [empty] at inside

theorem EventStream.step {j : Fin n}
    (stream : EventStream (outputView w j) entries) (step : SendStep j w w') :
    ∃ entries', EventStream (outputView w' j) entries' := by
  cases step with
  | accepted count positive within connected =>
    have written := stream.written connected count
    exact ⟨entries, by simpa [outputView, World.acceptBytes] using written⟩
  | blocked => exact ⟨entries, by simpa [outputView, World.blockWrite] using stream⟩
  | failed =>
    have lost := stream.lost _ stream.lines
    exact ⟨entries, by simpa [outputView, World.failWrite] using lost⟩
  | discarded gone =>
    have lost := stream.lost [] (absurd rfl)
    exact ⟨entries, by simpa [outputView, World.dropOutput, gone] using lost⟩
  | cut pending partLine =>
    -- the buffer ends in a newline, so that this does not happen
    have whole := throughEol_of_getLast (stream.lines pending)
    exact absurd (List.length_eq_zero_iff.mp (whole.symm.trans partLine)) pending
  | marked empty overflow =>
    refine ⟨entries ++ [.overflow], stream.concat ?_ ?_ ?_ ?_ (by rintro _ ⟨⟩) (fun _ => announced_concat_overflow entries) ?_⟩
    all_goals simp [outputView, World.markOverflow, Entry.message, Entry.bytes, empty]
    decide
  | queued msg clear fits =>
    have announced := stream.announced clear
    refine ⟨entries ++ [.kept msg], stream.concat ?_ ?_ ?_ ?_ (fun _ _ => announced)
      (fun _ => announced.concat_kept msg) ?_⟩
    all_goals simp [outputView, World.queueText, Entry.message, Entry.bytes, Message.text]
  | refused msg full =>
    refine ⟨entries ++ [.dropped msg], stream.concat ?_ ?_ ?_ ?_ (by rintro _ ⟨⟩) ?_ ?_⟩
    · simp [outputView, World.refuse, Entry.message]
    · simp [outputView, World.refuse]
    · simp [outputView, World.refuse]
    · simp [outputView, World.refuse, Entry.bytes]
    · simp [outputView, World.refuse]
    · simpa [outputView, World.refuse] using stream.lines

theorem EventStream.effect {tail : Bytes → Prop} {j : Fin n}
    (stream : EventStream (outputView w j) entries) (effect : Effect tail w w') :
    ∃ entries', EventStream (outputView w' j) entries' := by
  cases effect.output j with
  | same same => exact ⟨entries, same ▸ stream⟩
  | step step => exact stream.step step
  | fresh fd fresh => exact ⟨[], fresh ▸ eventStream_fresh fd⟩
  | overdue pending same =>
    rw [same]
    exact ⟨entries, stream.messages, stream.leading, stream.connected, stream.represented, nofun, stream.lines⟩

/-- Every client of a run has an event stream. -/
theorem reached_eventStream {standard : ℕ} {events : List (CtlEvent n)}
    (reached : exec? ctlStep (World.init n standard) events = some w) (i : Fin n) :
    ∃ entries, EventStream (outputView w i) entries := by
  apply reached_of_effects (I := fun w => ∃ entries, EventStream (outputView w i) entries) _ _ reached
  · exact ⟨[], eventStream_fresh 0⟩
  · rintro w w' ⟨entries, stream⟩ effect
    exact stream.effect effect

end DaemonProxy.Proofs
