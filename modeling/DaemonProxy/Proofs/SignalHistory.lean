import DaemonProxy.Proofs.SignalCount

/-! # Pending counts against the history of arrivals

`sigCounts` is what a client expects of a signal: the arrivals so far that were merged, less what
it cleared. The table of arrived signals follows it exactly; the table of pending signals does
across arrivals and clears, and across a merge if no signal arrived twice.
-/

namespace DaemonProxy.Proofs

open Lib Model

/-- What has happened to one signal: the arrivals merged and not cleared, and those not merged yet. -/
structure SigCount where
  pending : ℤ
  unmerged : ℤ

/-- The count of every signal after one more event. A clear takes its count off, down to zero. -/
def countStep (sigList : List SigListItem) (counts : ℤ → SigCount) (event : SigEvent) (sig : ℤ) : SigCount :=
  match event with
  | .arrive arrived _ _ =>
      if sig = arrived then { counts sig with unmerged := (counts sig).unmerged + 1 } else counts sig
  | .merge => ⟨(counts sig).pending + (counts sig).unmerged, 0⟩
  | .clear command =>
      match signalClearArgs sigList command with
      | .ok (cleared, count) =>
          if sig = cleared then { counts sig with pending := max 0 ((counts sig).pending - wrap 32 count) }
          else counts sig
      | .error _ => counts sig

/-- The counts of a history of events. -/
def sigCounts (sigList : List SigListItem) (events : List SigEvent) : ℤ → SigCount :=
  exec (countStep sigList) (fun _ => ⟨0, 0⟩) events

/-- The signals that arrive in a history. -/
def arrivedSignals (events : List SigEvent) : List ℤ :=
  events.filterMap fun
    | .arrive sig _ _ => some sig
    | _ => none

theorem arrivedSignals_pos {events : List SigEvent} {sig : ℤ} (member : sig ∈ arrivedSignals events) : 0 < sig := by
  obtain ⟨event, -, arrived⟩ := List.mem_filterMap.mp member
  cases event with
  | arrive found positive t => exact Option.some.inj arrived ▸ positive
  | merge => cases arrived
  | clear command => cases arrived

/-- A clear command with a count that is positive as an `int`. -/
def PositiveClear (sigList : List SigListItem) : SigEvent → Prop
  | .clear command => ∀ sig count, signalClearArgs sigList command = .ok (sig, count) → 0 < wrap 32 count
  | _ => True

/-- How the two tables stand to the history so far. -/
structure CountInv (known : Finset ℤ) (s : SigState) (counts : ℤ → SigCount) : Prop where
  signals : TableInv known s.signals.slots
  arrived : TableInv known s.newSignals.slots
  nonneg : ∀ sig, 0 ≤ (counts sig).pending ∧ 0 ≤ (counts sig).unmerged
  unmerged : ∀ sig, sig ≠ 0 → pendingOf sig s.newSignals.slots = wrap 32 (counts sig).unmerged
  holds : ∀ sig, sig ≠ 0 → (Holds s.newSignals.slots sig ↔ 0 < (counts sig).unmerged)

theorem zero_not_holds {sig : ℤ} (used : sig ≠ 0) : ¬Holds SigTable.zero.slots sig := by
  rintro ⟨slot, member, rfl⟩
  obtain rfl := List.eq_of_mem_replicate member
  exact used rfl

theorem zero_pendingOf (sig : ℤ) (used : sig ≠ 0) : pendingOf sig SigTable.zero.slots = 0 :=
  pendingOf_absent fun slot member same => zero_not_holds used ⟨slot, member, same⟩

theorem init_countInv (known : Finset ℤ) : CountInv known .init (fun _ => ⟨0, 0⟩) where
  signals := zero_tableInv known
  arrived := zero_tableInv known
  nonneg _ := ⟨le_refl 0, le_refl 0⟩
  unmerged sig used := by
    rw [wrap32_eq inInt32_zero]
    exact zero_pendingOf sig used
  holds sig used := ⟨fun holds => absurd holds (zero_not_holds used), fun positive => absurd positive (lt_irrefl 0)⟩

/-- After recording a signal its table holds it, and otherwise what it held before. -/
theorem holds_recordSignal {sig : ℤ} (ts count : ℤ) {slots : List SigStatus}
    (room : ∃ slot ∈ slots, slot.signum = 0 ∨ slot.signum = sig) {other : ℤ} (otherUsed : other ≠ 0) :
    Holds (recordSignal sig ts count slots) other ↔ other = sig ∨ Holds slots other := by
  obtain ⟨before, slot, after, rfl, skipped, stop, result⟩ := recordSignal_split ts count room
  rw [result]
  simp only [Holds, List.mem_append, List.mem_cons]
  constructor
  · rintro ⟨found, front | rfl | back, equal⟩
    · exact .inr ⟨found, .inl front, equal⟩
    · exact .inl (equal.symm.trans (claimSlot_signum ..))
    · exact .inr ⟨found, .inr (.inr back), equal⟩
  · rintro (rfl | ⟨found, front | rfl | back, equal⟩)
    · exact ⟨_, .inr (.inl rfl), claimSlot_signum ..⟩
    · exact ⟨found, .inl front, equal⟩
    · refine ⟨_, .inr (.inl rfl), (claimSlot_signum ..).trans ?_⟩
      rcases stop with free | same
      · exact absurd (equal.symm.trans free) otherUsed
      · exact same.symm.trans equal
    · exact ⟨found, .inr (.inr back), equal⟩

theorem countStep_clear_unmerged (sigList : List SigListItem) (counts : ℤ → SigCount) (command : StrSeg) (sig : ℤ) :
    (countStep sigList counts (.clear command) sig).unmerged = (counts sig).unmerged := by
  simp only [countStep]
  split
  · split <;> rfl
  · rfl

section Step

variable {known : Finset ℤ} (sigList : List SigListItem) {s : SigState} {counts : ℤ → SigCount}

theorem CountInv.arrive (inv : CountInv known s counts) (few : known.card ≤ signalStatusSlots) {sig : ℤ}
    (positive : 0 < sig) (t : Timespec) (member : sig ∈ known) :
    CountInv known (sigStep sigList s (.arrive sig positive t))
      (countStep sigList counts (.arrive sig positive t)) := by
  have room := inv.arrived.room s.newSignals.size few member
  refine ⟨inv.signals, inv.arrived.record _ _ positive.ne' member, ?_, ?_, ?_⟩
  · intro other
    have := inv.nonneg other
    simp only [countStep]
    split
    · exact ⟨this.1, by dsimp only; omega⟩
    · exact this
  · intro other used
    simp only [sigStep, sigHandler, countStep]
    rw [inv.arrived.packed.record_pending _ _ room used]
    split
    · next same =>
      subst same
      rw [inv.unmerged other used, wrap32_add]
    · exact inv.unmerged other used
  · intro other used
    simp only [sigStep, sigHandler, countStep]
    rw [holds_recordSignal _ _ room used, inv.holds other used]
    have := (inv.nonneg other).2
    split
    · next same => exact ⟨fun _ => by dsimp only; omega, fun _ => .inl same⟩
    · next other => exact or_iff_right other

theorem CountInv.merge (inv : CountInv known s counts) :
    CountInv known (sigStep sigList s .merge) (countStep sigList counts .merge) := by
  refine ⟨mergeSlots_tableInv inv.signals inv.arrived, zero_tableInv known, ?_, ?_, ?_⟩
  · intro sig
    have := inv.nonneg sig
    exact ⟨by simp only [countStep]; omega, le_refl 0⟩
  · exact (init_countInv known).unmerged
  · exact (init_countInv known).holds

theorem CountInv.clear (inv : CountInv known s counts) {command : StrSeg}
    (positive : PositiveClear sigList (.clear command)) :
    CountInv known (sigStep sigList s (.clear command)) (countStep sigList counts (.clear command)) := by
  have signals : TableInv known (sigStep sigList s (.clear command)).signals.slots := by
    simp only [sigStep, ctlCmdSignalClear]
    split
    · exact inv.signals
    · next cleared count accepted =>
      exact inv.signals.markSeen cleared (wrap32_range _) (positive cleared count accepted)
  have arrived : (sigStep sigList s (.clear command)).newSignals = s.newSignals := by
    simp only [sigStep, ctlCmdSignalClear]
    split <;> rfl
  refine ⟨signals, arrived ▸ inv.arrived, ?_, ?_, ?_⟩
  · intro sig
    rw [countStep_clear_unmerged]
    refine ⟨?_, (inv.nonneg sig).2⟩
    simp only [countStep]
    split
    · split
      · exact le_max_left ..
      · exact (inv.nonneg sig).1
    · exact (inv.nonneg sig).1
  · intro sig used
    rw [countStep_clear_unmerged, arrived]
    exact inv.unmerged sig used
  · intro sig used
    rw [countStep_clear_unmerged, arrived]
    exact inv.holds sig used

/-- Whatever the counts, the tables stay in order and the arrived table follows the history. -/
theorem CountInv.step (inv : CountInv known s counts) (few : known.card ≤ signalStatusSlots)
    (event : SigEvent) (member : ∀ sig ∈ arrivedSignals [event], sig ∈ known)
    (positive : PositiveClear sigList event) :
    CountInv known (sigStep sigList s event) (countStep sigList counts event) := by
  cases event with
  | arrive sig sigPositive t => exact inv.arrive sigList few sigPositive t (member sig (by simp [arrivedSignals]))
  | merge => exact inv.merge sigList
  | clear command => exact inv.clear sigList positive

/-- The pending table shows each signal's count. -/
def Agrees (s : SigState) (counts : ℤ → SigCount) : Prop :=
  ∀ sig, 0 < sig → pendingOf sig s.signals.slots = (counts sig).pending

theorem Agrees.arrive (agrees : Agrees s counts) {sig : ℤ} (positive : 0 < sig) (t : Timespec) :
    Agrees (sigStep sigList s (.arrive sig positive t)) (countStep sigList counts (.arrive sig positive t)) := by
  intro other otherPositive
  rw [show (countStep sigList counts (.arrive sig positive t) other).pending = (counts other).pending by
    simp only [countStep]; split <;> rfl]
  exact agrees other otherPositive

theorem Agrees.clear (agrees : Agrees s counts) (inv : CountInv known s counts) {command : StrSeg}
    (positive : PositiveClear sigList (.clear command)) :
    Agrees (sigStep sigList s (.clear command)) (countStep sigList counts (.clear command)) := by
  intro sig sigPositive
  have same := agrees sig sigPositive
  simp only [sigStep, ctlCmdSignalClear, countStep]
  split
  · next rejected => simpa only [rejected] using same
  · next cleared count accepted =>
    simp only [accepted, sigMarkSeen]
    split
    · next mine =>
      subst mine
      rw [markSeenSlots_self (same ▸ (inv.nonneg sig).1) (inv.signals.pendingOf_range sig) (wrap32_range _)
        (positive sig count accepted), same]
    · next other => rw [markSeenSlots_other other, same]

/-- A merge takes over the arrivals exactly if each signal arrived at most once and its count is
still an `int`. -/
theorem CountInv.merge_agrees_iff (inv : CountInv known s counts) (few : known.card ≤ signalStatusSlots)
    (positive : ∀ sig ∈ known, 0 < sig) (agrees : Agrees s counts) :
    Agrees (sigStep sigList s .merge) (countStep sigList counts .merge) ↔
      ∀ sig, 0 < sig → (counts sig).unmerged ≤ 1 ∧
        (countStep sigList counts .merge sig).pending < 2147483648 := by
  have after := mergeSlots_tableInv inv.signals inv.arrived
  have outcome := fun sig (used : sig ≠ 0) => mergeSlots_pending few inv.signals s.signals.size inv.arrived used
  constructor
  · intro exact sig sigPositive
    have used : sig ≠ 0 := sigPositive.ne'
    have merged : pendingOf sig (mergeSlots s.signals.slots s.newSignals.slots) =
        (counts sig).pending + (counts sig).unmerged := exact sig sigPositive
    have range := after.pendingOf_range sig
    have before := agrees sig sigPositive
    have beforeRange := inv.signals.pendingOf_range sig
    have nonneg := inv.nonneg sig
    refine ⟨?_, by simp only [countStep]; rw [← merged]; exact range.2⟩
    rcases (outcome sig used).1 with kept | ⟨-, counted⟩
    · omega
    · have := wrap32_le (x := pendingOf sig s.signals.slots + 1) (by have := beforeRange.1; omega)
      omega
  · intro single sig sigPositive
    have used : sig ≠ 0 := sigPositive.ne'
    have nonneg := inv.nonneg sig
    have before := agrees sig sigPositive
    obtain ⟨once, bound⟩ := single sig sigPositive
    simp only [countStep] at bound
    simp only [sigStep, mergeNewSignals, countStep]
    by_cases arrived : 0 < (counts sig).unmerged
    · -- Every used slot of the arrived table counts one arrival, so the merge does not stop early.
      have busy : ∀ slot ∈ s.newSignals.slots, slot.signum ≠ 0 → slot.numberPending ≠ 0 := by
        intro slot member slotUsed
        have slotPositive := positive slot.signum ((inv.arrived.slot slot member).known slotUsed)
        have some := (inv.holds slot.signum slotUsed).mp ⟨slot, member, rfl⟩
        have one : (counts slot.signum).unmerged = 1 := by
          have := (single slot.signum slotPositive).1
          omega
        rw [← inv.arrived.packed.pendingOf_eq member slotUsed, inv.unmerged slot.signum slotUsed, one,
          wrap32_eq inInt32_one]
        decide
      rw [(outcome sig used).2 busy ((inv.holds sig used).mpr arrived), before, wrap32_eq ⟨by omega, by omega⟩]
      omega
    · rcases (outcome sig used).1 with kept | ⟨held, -⟩
      · omega
      · exact absurd ((inv.holds sig used).mp held) arrived

end Step

section Run

variable (sigList : List SigListItem) {known : Finset ℤ} {events : List SigEvent}

/-- A history whose arrivals are among `known` and whose clears are positive. -/
structure CountedRun (sigList : List SigListItem) (known : Finset ℤ) (events : List SigEvent) : Prop where
  few : known.card ≤ signalStatusSlots
  arrived : ∀ sig ∈ arrivedSignals events, sig ∈ known
  clears : ∀ event ∈ events, PositiveClear sigList event

theorem CountedRun.of_prefix {before : List SigEvent} (run : CountedRun sigList known events)
    (leading : before <+: events) : CountedRun sigList known before where
  few := run.few
  arrived sig member := run.arrived sig ((leading.filterMap _).subset member)
  clears event member := run.clears event (leading.subset member)

theorem CountedRun.countInv (run : CountedRun sigList known events) :
    CountInv known (exec (sigStep sigList) .init events) (sigCounts sigList events) := by
  induction events using List.reverseRecOn with
  | nil => exact init_countInv known
  | append_singleton before event ih =>
    simp only [sigCounts, exec_append, exec_cons, exec_nil]
    refine (ih (run.of_prefix sigList (List.prefix_append ..))).step sigList run.few event ?_ ?_
    · intro sig member
      refine run.arrived sig ?_
      rw [arrivedSignals, List.filterMap_append]
      exact List.mem_append_right _ member
    · exact run.clears event (List.mem_append_right _ List.mem_cons_self)

/-- Agreement can only be lost at a merge. -/
theorem CountedRun.agrees (run : CountedRun sigList known events)
    (merges : ∀ before, before ++ [.merge] <+: events →
      Agrees (exec (sigStep sigList) .init before) (sigCounts sigList before) →
      Agrees (exec (sigStep sigList) .init (before ++ [.merge])) (sigCounts sigList (before ++ [.merge])))
    {before : List SigEvent} (leading : before <+: events) :
    Agrees (exec (sigStep sigList) .init before) (sigCounts sigList before) := by
  induction before using List.reverseRecOn with
  | nil => exact fun sig positive => zero_pendingOf sig positive.ne'
  | append_singleton before event ih =>
    have earlier : before <+: events := (List.prefix_append ..).trans leading
    have inv := (run.of_prefix sigList earlier).countInv
    have positive := run.clears event (leading.subset (List.mem_append_right _ List.mem_cons_self))
    cases event with
    | arrive sig sigPositive t =>
      simp only [sigCounts, exec_append, exec_cons, exec_nil]
      exact (ih earlier).arrive sigList sigPositive t
    | merge => exact merges before leading (ih earlier)
    | clear command =>
      simp only [sigCounts, exec_append, exec_cons, exec_nil]
      exact (ih earlier).clear sigList inv positive

end Run

end DaemonProxy.Proofs
