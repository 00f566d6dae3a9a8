import DaemonProxy.Proofs.Client
import DaemonProxy.Proofs.Exec
import DaemonProxy.Soundness.ServiceStores

/-! # The client library and the daemon

What becomes of a line that the library sends when the daemon has executed it and the library has processed the event. The
library does not recognise the reply to the `echo` command that it sends, and it loses the empty strings at the end of a list.
-/

namespace DaemonProxy.Soundness

open Lib Model Proofs

variable {n : ℕ} {ι κ : Type} [DecidableEq ι] [DecidableEq κ]

/-! ## Acknowledgement -/

/-- The fields of a line. -/
def Clean (fields : List Bytes) : Prop := ∀ field ∈ fields, 0 ∉ field ∧ tab ∉ field ∧ 10 ∉ field

/-- The library processes messages in order. -/
def processMessages (c : Client) (messages : List Message) : Except String Client :=
  messages.foldlM (fun c message => c.processEvent message.text) c

/-- The messages that a client has been given in between. -/
def given (w w' : World n) (i : Fin n) : List Message := (w'.log i).offered.drop (w.log i).offered.length

/-- The command is complete and not waited for any more; nothing else changes. -/
def acknowledged (c : Client) (id : Bytes) : Client :=
  { c with pendingCommands := Function.update c.pendingCommands id false, complete := Function.update c.complete id true }

/-- The fields of the event that the library recognises as the reply for a command. -/
def Reply (fields : List Bytes) (id : Bytes) : Prop :=
  ∃ first more, fields = bytesOf "echo" :: first :: bytesOf "--cmd-complete--" :: id :: more

variable {c : Client} {id : Bytes} {fields : List Bytes}

theorem processFields_reply (waited : c.pendingCommands id = true)
    (reply : Reply fields id) : c.processFields fields = .ok (acknowledged c id) := by
  obtain ⟨first, more, rfl⟩ := reply
  have found : Client.eventMethod (bytesOf "echo") = some .echo := eventMethod_echo.mpr rfl
  simp [Client.processFields, found, Client.callMethod, Client.processEventEcho, waited, acknowledged]

variable {args : List Bytes}

/-- `process_event_echo` removes the command that its third argument names. -/
theorem reply_of_echo {c' : Client} (waited : c.pendingCommands id = true)
    (processed : c.processEventEcho args = .ok c') (removed : c'.pendingCommands id = false) : Reply (bytesOf "echo" :: args) id := by
  have kept : .ok c = (.ok c' : Except String Client) → False := by
    intro same
    cases same
    exact nomatch waited.symm.trans removed
  rw [Client.processEventEcho] at processed
  match args, processed with
  | [], processed | [_], processed => exact (kept processed).elim
  | [_, second], processed =>
    dsimp only [List.tail_cons] at processed
    split at processed
    · exact nomatch processed
    · exact (kept processed).elim
  | first :: second :: third :: more, processed =>
    dsimp only [List.tail_cons] at processed
    split at processed
    · next mark =>
      split at processed
      · next waiting =>
        cases processed
        by_cases here : third = id
        · exact ⟨first, more, by rw [mark, here]⟩
        · dsimp only at removed
          rw [Function.update_of_ne (Ne.symm here), waited] at removed
          exact nomatch removed
      · exact (kept processed).elim
    · exact (kept processed).elim

/-- Only such an event removes a command. -/
theorem reply_of_removed {c' : Client} (waited : c.pendingCommands id = true)
    (processed : c.processFields fields = .ok c') (removed : c'.pendingCommands id = false) : Reply fields id := by
  cases fields with
  | nil =>
    cases processed
    exact nomatch waited.symm.trans removed
  | cons eventId args =>
    rw [Client.processFields] at processed
    cases found : Client.eventMethod eventId with
    | none =>
      rw [found] at processed
      cases processed
      exact nomatch waited.symm.trans removed
    | some method =>
      rw [found] at processed
      by_cases echo : method = .echo
      · subst echo
        rw [eventMethod_echo.mp found]
        exact reply_of_echo waited processed removed
      · rw [callMethod_pending echo processed, waited] at removed
        exact nomatch removed

/-- The empty fields at the end do not matter, since no command has an empty name. -/
theorem reply_rdropWhile (nonempty : id ≠ []) :
    Reply (fields.rdropWhile (· = [])) id ↔ Reply fields id := by
  constructor
  · rintro ⟨first, more, same⟩
    obtain ⟨rest, whole⟩ := List.rdropWhile_prefix (· = []) (l := fields)
    exact ⟨first, more ++ rest, by rw [← whole, same]; rfl⟩
  · rintro ⟨first, more, rfl⟩
    exact ⟨first, _, rdropWhile_append_cons [bytesOf "echo", first, bytesOf "--cmd-complete--"] nonempty more⟩

/-- What the library sends for a command that it waits for is no such event. -/
theorem not_reply_watcher (id : Bytes) : ¬Reply [bytesOf "--cmd-complete--", id] id := by
  rintro ⟨first, more, same⟩
  cases same

/-- For every client that is connected and every `echo` command that the library can send to it: the event marks exactly the
given command as complete and removes it if the fields behind `echo` are those of the event that the library looks for, and
not otherwise; and for the `echo` command that the library sends, it does not. -/
theorem echo_reply_iff {w w' : World n} {i : Fin n} (connected : w.connected i = true) {fields : List Bytes} (clean : Clean fields)
    {name : Bytes} {command : StrSeg}
    (line : splitAtSep tab (Client.chomp (Client.send (bytesOf "echo" :: fields))) = (name, command))
    (echoed : (ctlCmdEcho i command).run w = some (none, w')) {c : Client} {id : Bytes} (nonempty : id ≠ [])
    (waited : c.pendingCommands id = true) :
    name = bytesOf "echo" ∧ (processMessages c (given w w' i) = .ok (acknowledged c id) ↔ Reply fields id) ∧
      ((c.getCmdWatcher id).1 = Client.send (bytesOf "echo" :: fields) →
        processMessages c (given w w' i) ≠ .ok (acknowledged c id)) := by
  have tabs : ∀ field ∈ fields, tab ∉ field := fun field member => (clean field member).2.1
  rw [chomp_send, splitAtSep_join (by decide)] at line
  obtain ⟨rfl, rfl⟩ := Prod.mk.inj line
  have free : 0 ∉ [tab].intercalate fields := by
    intro member
    rcases mem_join member with other | ⟨field, part, inside⟩
    · exact absurd other (by decide)
    · exact (clean field part).1 inside
  have text : (if fields = [] then none else some ([tab].intercalate fields)).getD [] = [tab].intercalate fields := by
    split
    · next none => rw [none]; rfl
    · rfl
  obtain ⟨-, offered⟩ := (ctlCmdEcho_offers connected free _ text).ensures _ _ echoed
  have exactly : processMessages c (given w w' i) = .ok (acknowledged c id) ↔ Reply fields id := by
    rw [given, offered, List.drop_left, ← reply_rdropWhile nonempty, ← splitTabs_join tabs]
    split
    · next empty =>
      rw [empty]
      refine iff_of_false (fun same => ?_) fun ⟨_, _, same⟩ => nomatch same
      have removed : c.pendingCommands id = false := by
        rw [show c = acknowledged c id from Except.ok.inj same]
        exact Function.update_self ..
      exact nomatch waited.symm.trans removed
    · have one : processMessages c [⟨[tab].intercalate fields⟩] = c.processFields (Client.splitTabs ([tab].intercalate fields)) := by
        simp only [processMessages, List.foldlM_cons, List.foldlM_nil, Client.processEvent, Message.text, chomp_line]
        exact bind_pure _
      rw [one]
      refine ⟨fun processed => reply_of_removed waited processed (Function.update_self ..), processFields_reply waited⟩
  refine ⟨rfl, exactly, fun sent => ?_⟩
  rw [Ne, exactly]
  intro reply
  have member : id ∈ fields := by
    obtain ⟨first, more, rfl⟩ := reply
    simp
  have echo : tab ∉ bytesOf "echo" := by decide
  have watcher : ∀ field ∈ [bytesOf "echo", bytesOf "--cmd-complete--", id], tab ∉ field := by
    intro field here
    simp only [List.mem_cons, List.not_mem_nil, or_false] at here
    rcases here with rfl | rfl | rfl
    · exact echo
    · decide
    · exact tabs _ member
  have same := send_inj watcher (List.forall_mem_cons.mpr ⟨echo, tabs⟩) (List.cons_ne_nil _ _) (List.cons_ne_nil _ _) sent
  rw [← (List.cons.inj same).2] at reply
  exact not_reply_watcher id reply

/-- A world with one client, which is connected. -/
def oneConnected : World 1 := (World.init 1 0).setClient (Fin.last 0) { stateFn := some .nextCommand, send := { fd := 1 } }

/-- A library that waits for one command. -/
def waitsFor (id : Bytes) : Client := { pendingCommands := fun other => decide (other = id) }

theorem echo_reply_other :
    ∃ w', (ctlCmdEcho 0 (some (bytesOf "echo\tx\t--cmd-complete--\tc1"))).run oneConnected = some (none, w') ∧
      processMessages (waitsFor (bytesOf "c1")) (given oneConnected w' 0) = .ok (acknowledged (waitsFor (bytesOf "c1")) (bytesOf "c1")) := by
  obtain ⟨⟨error, w'⟩, run, none⟩ := (Option.any_eq_true _ _).mp
    (show ((ctlCmdEcho 0 (some (bytesOf "echo\tx\t--cmd-complete--\tc1"))).run oneConnected).any (fun result => result.1.isNone) = true by
      decide +kernel)
  obtain rfl : error = Option.none := Option.isNone_iff_eq_none.mp none
  have clean : Clean [bytesOf "echo", bytesOf "x", bytesOf "--cmd-complete--", bytesOf "c1"] := by
    unfold Clean
    decide
  have line : splitAtSep tab (Client.chomp (Client.send
      [bytesOf "echo", bytesOf "echo", bytesOf "x", bytesOf "--cmd-complete--", bytesOf "c1"])) =
      (bytesOf "echo", some (bytesOf "echo\tx\t--cmd-complete--\tc1")) := by decide
  have reply := echo_reply_iff (w := oneConnected) (i := 0) (by decide) clean line run (by decide)
    (show (waitsFor (bytesOf "c1")).pendingCommands (bytesOf "c1") = true by decide)
  exact ⟨w', run, reply.2.1.mpr ⟨_, [], rfl⟩⟩

/-- A command, as a string. -/
def someCommand : Bytes := bytesOf "Daemonproxy::Protocol::Command=HASH(0x1)"

/-- The library sends a command and waits for it; the reply leaves the command as it was. -/
theorem watcher_never_completes :
    ∃ w' c', (Client.getCmdWatcher {} someCommand).1 =
        bytesOf "echo\t--cmd-complete--\tDaemonproxy::Protocol::Command=HASH(0x1)\n" ∧
      (ctlCmdEcho 0 (some (bytesOf "--cmd-complete--\tDaemonproxy::Protocol::Command=HASH(0x1)"))).run oneConnected = some (none, w') ∧
      (given oneConnected w' 0).map Message.text = [bytesOf "--cmd-complete--\tDaemonproxy::Protocol::Command=HASH(0x1)\n"] ∧
      processMessages (Client.getCmdWatcher {} someCommand).2 (given oneConnected w' 0) = .ok c' ∧
      c'.pendingCommands someCommand = true ∧ c'.complete someCommand = false := by
  obtain ⟨⟨error, w'⟩, run, holds⟩ := (Option.any_eq_true _ _).mp
    (show ((ctlCmdEcho 0 (some (bytesOf "--cmd-complete--\tDaemonproxy::Protocol::Command=HASH(0x1)"))).run oneConnected).any
      (fun result => result.1.isNone ∧
      (given oneConnected result.2 0).map Message.text = [bytesOf "--cmd-complete--\tDaemonproxy::Protocol::Command=HASH(0x1)\n"] ∧
      (processMessages (Client.getCmdWatcher {} someCommand).2 (given oneConnected result.2 0)).toOption.any
        (fun c' => c'.pendingCommands someCommand && !c'.complete someCommand) = true) = true by decide +kernel)
  obtain ⟨none, line, processed⟩ := of_decide_eq_true holds
  obtain rfl : error = Option.none := Option.isNone_iff_eq_none.mp none
  cases outcome : processMessages (Client.getCmdWatcher {} someCommand).2 (given oneConnected w' 0) with
  | error text =>
    rw [outcome] at processed
    exact nomatch processed
  | ok c' =>
    rw [outcome] at processed
    have pending : (c'.pendingCommands someCommand && !c'.complete someCommand) = true := processed
    rw [Bool.and_eq_true, Bool.not_eq_true'] at pending
    exact ⟨w', c', by decide, run, line, outcome, pending⟩

/-! ## Arguments -/

end DaemonProxy.Soundness
