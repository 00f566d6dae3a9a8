import DaemonProxy.Proofs.TriggerParsing
import DaemonProxy.Soundness.Refusals

/-! # Trigger strings

`svc_set_triggers` does what its string says, but for strings with an empty name, behind which anything may stand, and for
strings with a NUL.
-/

namespace DaemonProxy.Soundness

open Lib Model Proofs

variable {ι κ : Type} [DecidableEq ι] [DecidableEq κ] {sigList : List SigListItem} {x : ι} {triggers : Bytes} {s s' : Server ι κ}

/-- A service has the triggers that the string names, and reports the string. -/
structure TriggersExact (sigList : List SigListItem) (x : ι) (triggers : Bytes) (s : Server ι κ) : Prop where
  names : triggers = [] ∨ ∀ name ∈ triggers.splitOn tab, name = always ∨ ∃ signum, signalNamed sigList name = some signum
  autoRestart : (s.loop.daemon.objects x).autoRestart = true ↔ always ∈ triggers.splitOn tab
  signals : ∀ signum, (s.loop.daemon.objects x).autostartSignals signum = true ↔
    ∃ name ∈ triggers.splitOn tab, name ≠ always ∧ signalNamed sigList name = some signum
  sigwake : ∃ list, s.loop.daemon.sigwakeList.Represents list ∧
    (x ∈ list ↔ ∃ signum, (s.loop.daemon.objects x).autostartSignals signum = true)
  text : svcGetTriggers (s.vars x) = some triggers

/-- The string has no empty name and no NUL; or it is empty, and behind the entry that is taken out no other is left that
says something else. -/
def Plain (packed triggers : Bytes) : Prop :=
  triggers = [] ∧ (∃ left, getEntry (bytesOf "triggers") ((entriesOf packed).eraseP fun entry => entryKey entry = bytesOf "triggers") =
      some left ∧ left.getD [] = []) ∨
    [] ∉ triggers.splitOn tab ∧ 0 ∉ triggers

theorem signalNamed_nil (table : SigNames sigList) (signum : ℤ) : signalNamed sigList [] ≠ some signum := by
  intro named
  obtain ⟨item, found, -⟩ := Option.map_eq_some_iff.mp named
  have same := List.find?_some found
  exact table.nonempty item (List.mem_of_find?_eq_some found) (of_decide_eq_true same)

theorem svcGetTriggers_set (packed : Bytes) (nonempty : triggers ≠ []) :
    svcGetTriggers (packedSet packed (bytesOf "triggers") (listValue (some triggers))) = some triggers ↔ 0 ∉ triggers := by
  rw [svcGetTriggers, listValue, Option.getD_some, if_neg nonempty, packedGet_packedSet_some varName_triggers, Option.map_some,
    Option.getD_some, Option.some_inj, cString_eq_self_iff]

theorem svcGetTriggers_unset (packed : Bytes) :
    svcGetTriggers (packedSet packed (bytesOf "triggers") (listValue (some []))) = some [] ↔
      ∃ left, getEntry (bytesOf "triggers") ((entriesOf packed).eraseP fun entry => entryKey entry = bytesOf "triggers") = some left ∧
        left.getD [] = [] := by
  rw [svcGetTriggers, listValue, Option.getD_some, if_pos rfl, packedGet_packedSet_none, Option.map_eq_some_iff]

theorem seenTriggers_of_full (full : [] ∉ triggers.splitOn tab) : seenTriggers triggers = triggers.splitOn tab := by
  rw [seenTriggers, List.takeWhile_eq_self_iff]
  exact fun name member => decide_eq_true (ne_of_mem_of_not_mem member full)

theorem always_seen_iff (plain : Plain (s.vars x) triggers) : always ∈ seenTriggers triggers ↔ always ∈ triggers.splitOn tab := by
  rcases plain with ⟨rfl, -⟩ | ⟨full, -⟩
  · decide
  · rw [seenTriggers_of_full full]

theorem signal_seen_iff (table : SigNames sigList) (understood : ∀ name ∈ seenTriggers triggers, Understood sigList name)
    (plain : Plain (s.vars x) triggers) (signum : ℤ) : signum ∈ readSignals sigList (seenTriggers triggers) ↔
      ∃ name ∈ triggers.splitOn tab, name ≠ always ∧ signalNamed sigList name = some signum := by
  rcases plain with ⟨rfl, -⟩ | ⟨full, noNul⟩
  · refine iff_of_false List.not_mem_nil ?_
    rintro ⟨name, member, -, named⟩
    obtain rfl : name = [] := List.mem_singleton.mp member
    exact signalNamed_nil table signum named
  · rw [seenTriggers_of_full full] at understood ⊢
    have meaning : ∀ name ∈ triggers.splitOn tab, name ≠ always →
        (signalNamed sigList name = some signum ↔ sigNumByName sigList name = signum) := by
      intro name member other
      rw [table.signalNamed_eq fun zero => noNul (mem_of_mem_splitOn member zero), and_iff_right_iff_imp]
      rintro rfl
      exact (SigNames.sigNumByName_pos name).mpr ((understood name member).resolve_left other)
    simp only [readSignals, List.mem_map, List.mem_filter, decide_eq_true_iff, and_assoc]
    constructor
    · rintro ⟨name, member, other, number⟩
      exact ⟨name, member, other, (meaning name member other).mpr number⟩
    · rintro ⟨name, member, other, named⟩
      exact ⟨name, member, other, (meaning name member other).mp named⟩

theorem understood_named (table : SigNames sigList) {name : Bytes} (free : 0 ∉ name) (understood : Understood sigList name) :
    name = always ∨ ∃ signum, signalNamed sigList name = some signum := by
  refine understood.imp_right fun known => ⟨_, (table.signalNamed_eq free _).mpr ⟨?_, rfl⟩⟩
  exact (SigNames.sigNumByName_pos name).mpr known

theorem exact_of_plain (table : SigNames sigList) (understood : ∀ name ∈ seenTriggers triggers, Understood sigList name)
    (set : TriggersSet sigList x triggers s s') (plain : Plain (s.vars x) triggers) : TriggersExact sigList x triggers s' where
  names := by
    rcases plain with ⟨empty, -⟩ | ⟨full, noNul⟩
    · exact .inl empty
    · rw [seenTriggers_of_full full] at understood
      exact .inr fun name member => understood_named table (fun zero => noNul (mem_of_mem_splitOn member zero)) (understood name member)
  autoRestart := by rw [set.autoRestart, decide_eq_true_iff, always_seen_iff plain]
  signals signum := by rw [set.signals, decide_eq_true_iff, signal_seen_iff table understood plain]
  sigwake := by
    obtain ⟨list, represents, inList⟩ := set.sigwake
    refine ⟨list, represents, ?_⟩
    rw [inList, set.signals, ← not_iff_not]
    simp [List.eq_nil_iff_forall_not_mem]
  text := by
    rw [set.vars]
    rcases plain with ⟨rfl, left⟩ | ⟨full, noNul⟩
    · exact (svcGetTriggers_unset _).mpr left
    · refine (svcGetTriggers_set _ ?_).mpr noNul
      rintro rfl
      exact full (List.mem_singleton_self [])

theorem plain_of_exact (table : SigNames sigList) (set : TriggersSet sigList x triggers s s')
    (exactly : TriggersExact sigList x triggers s') : Plain (s.vars x) triggers := by
  have text := exactly.text
  rw [set.vars] at text
  rcases eq_or_ne triggers [] with rfl | nonempty
  · exact .inl ⟨rfl, (svcGetTriggers_unset _).mp text⟩
  · refine .inr ⟨fun member => ?_, (svcGetTriggers_set _ nonempty).mp text⟩
    rcases exactly.names.resolve_left nonempty [] member with impossible | ⟨signum, named⟩
    · exact absurd impossible (by decide)
    · exact signalNamed_nil table signum named

/-- In any state in which the lists of services are in order, `svc_set_triggers` is exact, and changes nothing if it refuses its
string: exactly if it does not accept a string that is not plain. -/
theorem triggers_exact_iff (table : SigNames sigList) {c c' : Call ι κ} (known : Known c.server.loop)
    (member : x ∈ c.server.loop.daemon.svcList) {stored done : Bool}
    (called : (setTriggers sigList x triggers stored).run.run c = some (.ok done, c')) :
    ((done = true → TriggersExact sigList x triggers c'.server) ∧ (done = false → c'.server = c.server)) ↔
      (TriggersAccepted sigList (c.server.vars x) triggers stored → Plain (c.server.vars x) triggers) := by
  obtain ⟨v, shows, orderly, -⟩ := known
  rw [shows.svcList] at member
  have settles : Settles (setTriggers sigList x triggers stored) c _ fun _ _ => False :=
    setTriggers_settles table shows orderly member triggers stored
  obtain ⟨_, same, holds⟩ | ⟨_, same, -⟩ := settles.of_run called
  · cases same
    rcases holds with ⟨rfl, accepted, set⟩ | ⟨rfl, refused, rfl⟩
    · constructor
      · exact fun exactly _ => plain_of_exact table set (exactly.1 rfl)
      · exact fun plain => ⟨fun _ => exact_of_plain table accepted.1 set (plain accepted), nofun⟩
    · exact iff_of_true ⟨nofun, fun _ => rfl⟩ fun accepted => absurd accepted refused
  · exact nomatch same

/-- A service gets the triggers `always` and `SIGUSR1`. -/
theorem triggers_exact_always :
    ∃ s c', exec? (System.step linuxSigList) processOne (madeRun "service.tags\ta\tb") = some s ∧
      (setTriggers linuxSigList 0 (bytesOf "always\tSIGUSR1") true).run.run ⟨s.awakeServer, none, []⟩ = some (.ok true, c') ∧
      TriggersExact linuxSigList 0 (bytesOf "always\tSIGUSR1") c'.server := by
  obtain ⟨s, run, holds⟩ := (Option.any_eq_true _ _).mp
    (show (exec? (System.step linuxSigList) processOne (madeRun "service.tags\ta\tb")).any (fun s =>
      s.server.loop.daemon.svcList = [0] ∧
        ((setTriggers linuxSigList 0 (bytesOf "always\tSIGUSR1") true).run.run ⟨s.awakeServer, none, []⟩).any
          (fun result => match result.1 with | .ok done => done | .error _ => false) = true) = true by decide +kernel)
  obtain ⟨svcList, called⟩ := of_decide_eq_true holds
  obtain ⟨⟨result, c'⟩, called, accepted⟩ := (Option.any_eq_true _ _).mp called
  obtain rfl : result = .ok true := by
    cases result with
    | ok done => exact congrArg _ accepted
    | error text => exact nomatch accepted
  have member : 0 ∈ s.awakeServer.loop.daemon.svcList := svcList ▸ List.mem_singleton_self 0
  have table : SigNames linuxSigList := ⟨by decide, by decide, by decide, by decide⟩
  have plain : Plain (s.awakeServer.vars 0) (bytesOf "always\tSIGUSR1") := .inr ⟨by decide, by decide⟩
  have known : Known (Call.mk s.awakeServer none []).server.loop := known_of_run run
  exact ⟨s, c', run, called, ((triggers_exact_iff table known member called).mpr fun _ => plain).1 rfl⟩

/-- A name that is none is accepted behind an empty one. -/
theorem garbage_triggers_accepted :
    ∃ s c', exec? (System.step linuxSigList) processOne (madeRun "service.tags\ta\tb") = some s ∧
      s.server.loop.daemon.svcList = [0] ∧
      (setTriggers linuxSigList 0 (bytesOf "always\t\tgarbage") true).run.run ⟨s.awakeServer, none, []⟩ = some (.ok true, c') ∧
      svcGetTriggers (c'.server.vars 0) = some (bytesOf "always\t\tgarbage") ∧
      bytesOf "garbage" ∈ (bytesOf "always\t\tgarbage").splitOn tab ∧ bytesOf "garbage" ≠ always ∧
      signalNamed linuxSigList (bytesOf "garbage") = none := by
  obtain ⟨s, run, holds⟩ := (Option.any_eq_true _ _).mp
    (show (exec? (System.step linuxSigList) processOne (madeRun "service.tags\ta\tb")).any (fun s =>
      s.server.loop.daemon.svcList = [0] ∧
        ((setTriggers linuxSigList 0 (bytesOf "always\t\tgarbage") true).run.run ⟨s.awakeServer, none, []⟩).any
          (fun result => (match result.1 with | .ok done => done | .error _ => false) &&
            svcGetTriggers (result.2.server.vars 0) = some (bytesOf "always\t\tgarbage")) = true) = true by decide +kernel)
  obtain ⟨svcList, called⟩ := of_decide_eq_true holds
  obtain ⟨⟨result, c'⟩, called, accepted⟩ := (Option.any_eq_true _ _).mp called
  rw [Bool.and_eq_true, decide_eq_true_iff] at accepted
  obtain rfl : result = .ok true := by
    cases result with
    | ok done => exact congrArg _ accepted.1
    | error text => exact nomatch accepted.1
  exact ⟨s, c', run, svcList, called, accepted.2, by decide, by decide, by decide⟩

end DaemonProxy.Soundness
