import DaemonProxy.Model.Client
import DaemonProxy.Model.Events
import DaemonProxy.Proofs.ControllerEffects
import DaemonProxy.Proofs.StrSeg

/-! # Lines between the client library and the daemon

A line that the library sends is taken apart by the daemon at the first tab, and an event by the library at every tab, but for
the empty fields at its end.
-/

namespace DaemonProxy.Proofs

open Lib Model

/-! ## Fields -/

theorem chomp_line (text : Bytes) : Client.chomp (text ++ [10]) = text := by simp [Client.chomp]

theorem chomp_send (fields : List Bytes) : Client.chomp (Client.send fields) = [tab].intercalate fields := chomp_line _

theorem join_cons (first : Bytes) (second : Bytes) (rest : List Bytes) :
    [tab].intercalate (first :: second :: rest) = first ++ tab :: [tab].intercalate (second :: rest) := by
  simp [List.intercalate]

/-- The first field of a line is the command. -/
theorem splitAtSep_join {first : Bytes} (free : tab ∉ first) (rest : List Bytes) :
    splitAtSep tab ([tab].intercalate (first :: rest)) = (first, if rest = [] then none else some ([tab].intercalate rest)) := by
  cases rest with
  | nil => simpa [List.intercalate] using splitAtSep_of_notMem free
  | cons second rest => rw [join_cons, splitAtSep_token free, if_neg (List.cons_ne_nil _ _)]

theorem splitTabs_join {fields : List Bytes} (free : ∀ field ∈ fields, tab ∉ field) :
    Client.splitTabs ([tab].intercalate fields) = fields.rdropWhile (· = []) := by
  cases fields with
  | nil => rfl
  | cons first rest => rw [Client.splitTabs, List.splitOn_intercalate tab free (List.cons_ne_nil _ _)]

/-- A line tells the fields that it was made of. -/
theorem send_inj {first second : List Bytes} (freeFirst : ∀ field ∈ first, tab ∉ field) (freeSecond : ∀ field ∈ second, tab ∉ field)
    (someFirst : first ≠ []) (someSecond : second ≠ []) (same : Client.send first = Client.send second) : first = second := by
  have joined : [tab].intercalate first = [tab].intercalate second := List.append_cancel_right same
  rw [← List.splitOn_intercalate tab freeFirst someFirst, joined, List.splitOn_intercalate tab freeSecond someSecond]

theorem mem_join {fields : List Bytes} {c : UInt8} (member : c ∈ [tab].intercalate fields) : c = tab ∨ ∃ field ∈ fields, c ∈ field := by
  induction fields with
  | nil => exact nomatch member
  | cons first rest ih =>
    cases rest with
    | nil => exact .inr ⟨first, List.mem_singleton_self _, by simpa [List.intercalate] using member⟩
    | cons second rest =>
      rw [join_cons, List.mem_append, List.mem_cons] at member
      rcases member with here | here | later
      · exact .inr ⟨first, List.mem_cons_self, here⟩
      · exact .inl here
      · exact (ih later).imp_right fun ⟨field, part, inside⟩ => ⟨field, List.mem_cons_of_mem _ part, inside⟩

/-- What stands up to a field that is not empty is not left out. -/
theorem rdropWhile_append_cons (before : List Bytes) {field : Bytes} (nonempty : field ≠ []) (later : List Bytes) :
    (before ++ field :: later).rdropWhile (· = []) = before ++ field :: later.rdropWhile (· = []) := by
  induction later using List.reverseRecOn with
  | nil => exact List.rdropWhile_concat_neg _ _ _ (by simpa using nonempty)
  | append_singleton later last ih =>
    rw [← List.cons_append, ← List.append_assoc, List.rdropWhile_concat, List.rdropWhile_concat]
    split
    · exact ih
    · rw [List.append_assoc, List.cons_append]

/-! ## Events -/

theorem eventMethod_echo {eventId : Bytes} : Client.eventMethod eventId = some .echo ↔ eventId = bytesOf "echo" := by
  constructor
  · intro found
    obtain ⟨entry, here, method⟩ := Option.map_eq_some_iff.mp found
    have table : ∀ entry ∈ Client.eventMethods, entry.2 = .echo → entry.1 = bytesOf "echo" := by decide
    have named : entry.1 = eventId.map fun c => if c = 46 then 95 else c := by simpa using List.find?_some here
    rw [table entry (List.mem_of_find?_eq_some here) method] at named
    -- no character of the name stands for a dot
    have kept : ∀ c ∈ eventId, (if c = 46 then 95 else c) = id c := by
      intro c member
      split
      · next dot =>
        have inside : (95 : UInt8) ∈ bytesOf "echo" := by
          rw [named]
          exact List.mem_map.mpr ⟨c, member, if_pos dot⟩
        exact absurd inside (by decide)
      · rfl
    rw [named, List.map_congr_left kept, List.map_id]
  · rintro rfl
    decide

/-- Only `process_event_echo` has to do with commands that are waited for. -/
theorem callMethod_pending {method : Client.EventMethod} (other : method ≠ .echo) {c c' : Client} {args : List Bytes}
    (called : c.callMethod args method = .ok c') : c'.pendingCommands = c.pendingCommands := by
  cases method with
  | echo => exact absurd rfl other
  | serviceState =>
    cases called
    rw [Client.processEventServiceState]
    dsimp only
    split <;> rfl
  | _ =>
    cases called
    rfl

variable {n : ℕ} {w : World n} {i : Fin n}

/-- A client that is connected is written to. -/
theorem addressed_self (connected : w.connected i = true) : i ∈ addressed w (some i) :=
  List.mem_filter.mpr ⟨List.mem_singleton_self i, connected⟩

/-- `ctl_cmd_echo` writes its arguments, if they are not empty. -/
theorem ctlCmdEcho_offers (connected : w.connected i = true) {text : Bytes} (free : 0 ∉ text) (command : StrSeg)
    (given : command.getD [] = text) :
    Ends (ctlCmdEcho i command) w fun error w' => error = none ∧
      (w'.log i).offered = (w.log i).offered ++ (if text = [] then [] else [⟨text⟩]) := by
  subst given
  cases command with
  | none => exact (ends_pure _).mpr ⟨rfl, by simp⟩
  | some text =>
    cases text with
    | nil => exact (ends_pure _).mpr ⟨rfl, by simp⟩
    | cons c text =>
      have whole : (c :: text).takeWhile (· ≠ 0) = c :: text := by
        rw [List.takeWhile_eq_self_iff]
        intro c' member
        rw [decide_eq_true_eq]
        rintro rfl
        exact free member
      simp only [ctlCmdEcho, ends_bind, ends_pure]
      refine (ctlWrite_spec (some i) _ w).mono fun _ w' written => ⟨trivial, ?_⟩
      rw [(written.received i (addressed_self connected)).offered, whole, Option.getD_some, if_neg (List.cons_ne_nil _ _)]

end DaemonProxy.Proofs
