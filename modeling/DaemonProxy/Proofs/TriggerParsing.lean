import DaemonProxy.Proofs.CommandLoop
import DaemonProxy.Proofs.VarStore
import Mathlib.Data.List.Find

/-! # Parsing triggers

The loop of `svc_set_triggers` looks at the names in front of the first empty one; the string is stored whole.
-/

namespace DaemonProxy.Proofs

open Lib Model

variable {sigList : List SigListItem}

/-- A table of signals as the generated one is: names of at most eight bytes for the numbers that a `sigset_t` holds. -/
structure SigNames (sigList : List SigListItem) : Prop where
  nonempty : ∀ item ∈ sigList, item.signame ≠ []
  length : ∀ item ∈ sigList, item.signame.length ≤ 8
  noNul : ∀ item ∈ sigList, 0 ∉ item.signame
  range : ∀ item ∈ sigList, item.signum ≤ 64

/-- The signal of a name, with or without its `SIG`. -/
def signalNamed (sigList : List SigListItem) (name : Bytes) : Option ℤ :=
  (sigList.find? fun item => item.signame = dropSigPrefix name).map SigListItem.signum

def always : Bytes := bytesOf "always"

/-- The names that the loop looks at. -/
def seenTriggers (triggers : Bytes) : List Bytes := (triggers.splitOn tab).takeWhile (· ≠ [])

/-- The loop takes a name for `always` or for a signal. It compares eight bytes, with NULs behind a shorter name. -/
def Understood (sigList : List SigListItem) (name : Bytes) : Prop :=
  name = always ∨ (dropSigPrefix name).length ≤ 8 ∧ ∃ item ∈ sigList, padName item.signame = padName (dropSigPrefix name)

instance (name : Bytes) : Decidable (Understood sigList name) := inferInstanceAs (Decidable (_ ∨ _))

theorem notMem_dropSigPrefix {name : Bytes} (free : 0 ∉ name) : 0 ∉ dropSigPrefix name := by
  unfold dropSigPrefix
  split
  · simp only [List.mem_cons, not_or] at free ⊢
    exact free.2.2.2
  · exact free

theorem cString_padName {name : Bytes} (free : 0 ∉ name) : cString (padName name) = name := by
  rw [padName]
  cases 8 - name.length with
  | zero => rw [List.replicate_zero, List.append_nil, cString_of_notMem free]
  | succ count => rw [List.replicate_succ, cString_append_zero _ free]

theorem padName_inj {first second : Bytes} (freeFirst : 0 ∉ first) (freeSecond : 0 ∉ second) :
    padName first = padName second ↔ first = second := by
  constructor
  · intro same
    rw [← cString_padName freeFirst, same, cString_padName freeSecond]
  · exact congrArg padName

namespace SigNames

theorem sigNumByName_pos (name : Bytes) : 0 < sigNumByName sigList name ↔
    (dropSigPrefix name).length ≤ 8 ∧ ∃ item ∈ sigList, padName item.signame = padName (dropSigPrefix name) := by
  rw [sigNumByName]
  split
  · next long => simp [long]
  · next short =>
    rw [not_lt] at short
    cases found : sigList.find? fun item => padName item.signame = padName (dropSigPrefix name) with
    | none =>
      simpa [short] using found
    | some item =>
      have same := List.find?_some found
      simp only [short, true_and]
      exact iff_of_true item.signum_pos ⟨item, List.mem_of_find?_eq_some found, of_decide_eq_true same⟩

variable (table : SigNames sigList)
include table

theorem sigNumByName_le (name : Bytes) : sigNumByName sigList name ≤ 64 := by
  rw [sigNumByName]
  split
  · decide
  · split
    · next found => exact table.range _ (List.mem_of_find?_eq_some found)
    · decide

/-- For names without a NUL, the eight bytes say what the name is. -/
theorem signalNamed_eq {name : Bytes} (free : 0 ∉ name) (signum : ℤ) :
    signalNamed sigList name = some signum ↔ 0 < signum ∧ sigNumByName sigList name = signum := by
  have compare : (sigList.find? fun item => padName item.signame = padName (dropSigPrefix name)) =
      sigList.find? fun item => item.signame = dropSigPrefix name := by
    refine List.find?_congr fun item member => ?_
    rw [decide_eq_decide, padName_inj (table.noNul item member) (notMem_dropSigPrefix free)]
  rw [signalNamed, sigNumByName, compare]
  cases found : sigList.find? fun item => item.signame = dropSigPrefix name with
  | none =>
    rw [ite_self, Option.map_none]
    exact iff_of_false nofun fun both => both.1.ne both.2
  | some item =>
    have same := List.find?_some found
    have named : item.signame = dropSigPrefix name := of_decide_eq_true same
    have short : ¬8 < (dropSigPrefix name).length := by
      rw [← named, not_lt]
      exact table.length item (List.mem_of_find?_eq_some found)
    rw [if_neg short, Option.map_some, Option.some_inj]
    constructor
    · rintro rfl
      exact ⟨item.signum_pos, rfl⟩
    · exact And.right

end SigNames

/-! ## The loop -/

/-- The signals of the names, without `always`. -/
def readSignals (sigList : List SigListItem) (names : List Bytes) : List ℤ :=
  (names.filter (· ≠ always)).map (sigNumByName sigList)

theorem parseTriggers_tokens (table : SigNames sigList) (fuel : ℕ) (list : StrSeg) :
    Bytewise.parseTriggers sigList fuel list =
      let names := (Bytewise.strsegTokens tab fuel list).takeWhile (· ≠ [])
      if ∀ name ∈ names, Understood sigList name then some (decide (always ∈ names), readSignals sigList names) else none := by
  induction fuel generalizing list with
  | zero => rfl
  | succ fuel ih =>
    rw [Bytewise.parseTriggers, Bytewise.strsegTokens, show (9 : UInt8) = tab from rfl]
    cases strsegTokNext list tab with
    | none => rfl
    | some next =>
      obtain ⟨name, rest⟩ := next
      dsimp only
      split
      · next empty => simp [empty, readSignals]
      · next nonempty =>
        rw [List.takeWhile_cons_of_pos (by simpa using nonempty), ih rest]
        generalize (Bytewise.strsegTokens tab fuel rest).takeWhile (· ≠ []) = later
        have understood : Understood sigList name ↔ name = always ∨ 0 < sigNumByName sigList name := by
          rw [Understood, SigNames.sigNumByName_pos]
        simp only [List.forall_mem_cons, understood, strsegCmp_eq_zero, show bytesOf "always" = always from rfl]
        by_cases isAlways : name = always
        · simp [isAlways, apply_ite, readSignals]
        · have range := table.sigNumByName_le name
          by_cases known : 0 < sigNumByName sigList name
          · simp [isAlways, known, range, apply_ite, readSignals, Ne.symm isAlways]
          · simp [isAlways, known]

theorem triggersOf_eq (table : SigNames sigList) (triggers : Bytes) : triggersOf sigList (some triggers) =
    if ∀ name ∈ seenTriggers triggers, Understood sigList name then
      some (decide (always ∈ seenTriggers triggers), readSignals sigList (seenTriggers triggers)) else none := by
  rw [triggersOf, Option.getD_some, parseTriggers_tokens table, strsegTokens_eq (by omega)]
  rfl

variable {ι κ : Type} [DecidableEq ι] [DecidableEq κ]

/-- The call succeeds: it understands the names that it looks at, and there is room for the string. -/
def TriggersAccepted (sigList : List SigListItem) (packed triggers : Bytes) (stored : Bool) : Prop :=
  (∀ name ∈ seenTriggers triggers, Understood sigList name) ∧
    hasRoom packed (bytesOf "triggers") (listValue (some triggers)) stored = true

/-- What the call sets. -/
structure TriggersSet (sigList : List SigListItem) (x : ι) (triggers : Bytes) (s s' : Server ι κ) : Prop where
  autoRestart : (s'.loop.daemon.objects x).autoRestart = decide (always ∈ seenTriggers triggers)
  signals : (s'.loop.daemon.objects x).autostartSignals = fun signum => decide (signum ∈ readSignals sigList (seenTriggers triggers))
  sigwake : ∃ list, s'.loop.daemon.sigwakeList.Represents list ∧ (x ∈ list ↔ readSignals sigList (seenTriggers triggers) ≠ [])
  vars : s'.vars x = packedSet (s.vars x) (bytesOf "triggers") (listValue (some triggers))

theorem triggersSet_of_shows {s s' : Server ι κ} {v : View ι} {x : ι} {triggers : Bytes} {triggered : Bool}
    (shows : Shows s'.loop.daemon (v.applyTriggers x (decide (always ∈ seenTriggers triggers))
      (· ∈ readSignals sigList (seenTriggers triggers)) (!(readSignals sigList (seenTriggers triggers)).isEmpty) triggered))
    (orderly : Orderly v) (member : x ∈ v.svcList)
    (vars : s'.vars x = packedSet (s.vars x) (bytesOf "triggers") (listValue (some triggers))) :
    TriggersSet sigList x triggers s s' := by
  have orderly' := orderly.applyTriggers member (decide (always ∈ seenTriggers triggers))
    (· ∈ readSignals sigList (seenTriggers triggers)) (!(readSignals sigList (seenTriggers triggers)).isEmpty) triggered
  have object := View.applyTriggers_objects v x (decide (always ∈ seenTriggers triggers))
    (· ∈ readSignals sigList (seenTriggers triggers)) (!(readSignals sigList (seenTriggers triggers)).isEmpty) triggered x
  rw [if_pos rfl] at object
  refine ⟨?_, ?_, ⟨_, shows.sigwake, ?_⟩, vars⟩
  · rw [shows.objects, object, Service.triggered]
    split <;> rfl
  · rw [shows.objects, object, Service.triggered]
    split <;> rfl
  · rw [orderly'.sigwake, (View.applyTriggers_frame ..).1, object, Service.triggered]
    split <;> simp [member, Service.started]

theorem setTriggers_settles (table : SigNames sigList) {c : Call ι κ} {v : View ι} {x : ι} (shows : Shows c.server.loop.daemon v)
    (orderly : Orderly v) (member : x ∈ v.svcList) (triggers : Bytes) (stored : Bool) {refused : Bytes → Call ι κ → Prop} :
    Settles (setTriggers sigList x triggers stored) c
      (fun done c' => done = true ∧ TriggersAccepted sigList (c.server.vars x) triggers stored ∧
          TriggersSet sigList x triggers c.server c'.server ∨
        done = false ∧ ¬TriggersAccepted sigList (c.server.vars x) triggers stored ∧ c' = c) refused := by
  apply Settles.get_bind
  apply onLoop_run.bind
  rintro done _ ⟨loop, run, rfl⟩
  have spec := svcSetTriggers_spec shows member (some triggers) _ done loop run
  rw [triggersOf_eq table] at spec
  rcases spec with ⟨rfl, rfl, lost⟩ | ⟨rfl, autostart, sigs, triggered, daemon, parsed, kept, -, rfl, shows'⟩
  · refine settles_pure _ (.inr ⟨rfl, ?_, withLoop_self c⟩)
    rintro ⟨understood, room⟩
    rw [if_pos understood] at lost
    exact lost.elim nofun fun none => nomatch none.symm.trans room
  · split at parsed
    case isFalse => exact nomatch parsed
    case isTrue understood =>
      cases parsed
      refine .modify_bind (settles_pure _ (.inl ⟨rfl, ⟨understood, kept⟩, ?_⟩))
      exact triggersSet_of_shows shows' orderly member (by simp [withLoop])

end DaemonProxy.Proofs
