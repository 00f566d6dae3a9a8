import DaemonProxy.Proofs.SignalHistory
import DaemonProxy.Proofs.SignalStamps

/-! # The signal tables over whole runs

When the enumeration of pending signals is exact, when the pending counts and the timestamps are, and when a clear takes off
what it says. Each statement fails for a defect of the source, and each holds in exactly the runs that avoid it.
-/

namespace DaemonProxy.Soundness

open Lib Model Proofs

/-! ## Enumerating pending signals -/

/-- What the two loops do with the events of `slots` that are newer than `since`. -/
structure Enumerates (slots : List SigStatus) (since : ℤ) (visited : List SigStatus) : Prop where
  /-- Each new event is visited once. -/
  once : visited.Perm (newEvents slots since)
  /-- Oldest first. -/
  ordered : visited.Pairwise fun a b => a.lastReceivedTs < b.lastReceivedTs
  /-- At most one step for each slot. -/
  bounded : visited.length ≤ signalStatusSlots
  /-- `ctl_deliver_signals` ends after these events when the client takes them all. -/
  deliver : ∀ answers : List Bool, visited.length ≤ answers.length → (∀ answer ∈ answers, answer = true) →
    ∃ last, ctlDeliverSignals slots answers since = some ⟨visited, last, true⟩
  /-- `ctl_deliver_signals` also ends when the client stalls, after the first of these events. -/
  stalled : ∀ answers : List Bool, visited.length ≤ answers.length →
    ∃ delivery, ctlDeliverSignals slots answers since = some delivery ∧ delivery.delivered <+: visited
  /-- `svc_check_sigwake`, which starts at zero, ends with the answer for these events. -/
  sigwake : since = 0 → ∀ (autostart : ℤ → Bool) (budget : ℕ), visited.length < budget →
    svcCheckSigwake slots true autostart budget = some (visited.any fun event => autostart event.signum)

/-- In a run without a clear of signal zero by a negative count, every pending slot has a number
and a timestamp, and every enumeration is exact. -/
theorem pending_enumeration (sigList : List SigListItem) (events : List SigEvent)
    (allowed : ∀ event ∈ events, ClearAllowed sigList event) {before : List SigEvent}
    (leading : before <+: events) :
    (∀ slot ∈ (exec (sigStep sigList) .init before).signals.slots,
      0 < slot.numberPending → slot.signum ≠ 0 ∧ slot.lastReceivedTs ≠ 0) ∧
    (PendingDistinct (exec (sigStep sigList) .init before).signals.slots → ∀ since, Bookmark since →
      ∃ visited, Enumerates (exec (sigStep sigList) .init before).signals.slots since visited) := by
  have along : Along (sigStep sigList) (fun _ event => event ∈ events) .init events :=
    along_of_forall fun _ member => member
  have inv : SigInv (exec (sigStep sigList) .init before) :=
    exec_invariant_prefix (fun s event inv member => sigStep_sigInv sigList s event inv (allowed event member))
      init_sigInv along leading
  generalize exec (sigStep sigList) .init before = s at inv
  refine ⟨?_, ?_⟩
  · intro slot member pending
    obtain ⟨used, stamp⟩ := (inv.1 slot member).pending pending
    exact ⟨used, stamp.1.ne'⟩
  · intro distinct since bookmark
    obtain ⟨visited, visits, perm, ordered⟩ := exists_visits inv.1 distinct bookmark
    refine ⟨visited, perm, ordered, ?_, ?_, ?_, ?_⟩
    · rw [perm.length_eq, ← s.signals.size]
      exact List.length_filter_le ..
    · exact fun answers enough ready => ctlDeliverSignals_ready visits enough ready
    · exact fun answers enough => ctlDeliverSignals_stalled visits enough
    · rintro rfl autostart budget enough
      simpa only [svcCheckSigwake, if_true] using sigwakeLoop_visits visits autostart enough

/-- `SIGUSR1` and `SIGHUP` arrive, are merged, and one of them is cleared. -/
theorem pending_enumeration_usr1 :
    let events : List SigEvent := [.arrive 10 (by decide) ⟨7, 0, by decide, by decide⟩,
      .arrive 1 (by decide) ⟨8, 0, by decide, by decide⟩, .merge, .clear (some (bytesOf "SIGHUP\t1"))]
    ∃ visited, Enumerates (exec (sigStep linuxSigList) .init events).signals.slots 0 visited := by
  have allowed : ∀ event ∈ ([.arrive 10 (by decide) ⟨7, 0, by decide, by decide⟩,
      .arrive 1 (by decide) ⟨8, 0, by decide, by decide⟩, .merge,
      .clear (some (bytesOf "SIGHUP\t1"))] : List SigEvent), ClearAllowed linuxSigList event := by
    simp only [List.mem_cons, List.not_mem_nil, or_false, forall_eq_or_imp, forall_eq, ClearAllowed, true_and]
    rintro sig count accepted rfl
    have parsed : signalClearArgs linuxSigList (some (bytesOf "SIGHUP\t1")) = .ok (1, 1) := by rfl
    rw [parsed] at accepted
    simp at accepted
  exact (pending_enumeration linuxSigList _ allowed List.prefix_rfl).2 (by unfold PendingDistinct; decide)
    0 (by unfold Bookmark; decide)

/-- `signal.clear FOO -1` makes a free slot pending, with number and timestamp zero, and no number
of calls ends the delivery loop after that. -/
theorem clear_unknown_negative :
    let slots := (exec (sigStep linuxSigList) .init [.clear (some (bytesOf "FOO\t-1"))]).signals.slots
    (∃ slot ∈ slots, 0 < slot.numberPending ∧ slot.signum = 0 ∧ slot.lastReceivedTs = 0) ∧
      ∀ answers : List Bool, (∀ answer ∈ answers, answer = true) → ctlDeliverSignals slots answers 0 = none := by
  intro slots
  have found : sigGetNewEvents slots 0 = some ⟨0, 0, 1⟩ := by rfl
  refine ⟨⟨⟨0, 0, 1⟩, by decide, by decide, rfl, rfl⟩, ?_⟩
  intro answers ready
  induction answers with
  | nil => simp only [ctlDeliverSignals, found]
  | cons answer answers ih =>
    obtain rfl := ready answer List.mem_cons_self
    simp only [ctlDeliverSignals, found, if_true]
    rw [ih (fun other member => ready other (List.mem_cons_of_mem _ member)), Option.map_none]

/-! ## Counting arrivals -/

/-- After every merge of the run the pending count of each signal is the one its history gives. -/
def CountsExact (sigList : List SigListItem) (events : List SigEvent) : Prop :=
  ∀ before, before ++ [.merge] <+: events →
    Agrees (exec (sigStep sigList) .init (before ++ [.merge])) (sigCounts sigList (before ++ [.merge]))

/-- No signal arrives twice between two merges, and no count grows past the largest `int`. -/
def ArrivalsSingle (sigList : List SigListItem) (events : List SigEvent) : Prop :=
  ∀ before, before ++ [.merge] <+: events → ∀ sig, 0 < sig →
    (sigCounts sigList before sig).unmerged ≤ 1 ∧
      (sigCounts sigList (before ++ [.merge]) sig).pending < 2147483648

/-- The counts of a run are exact if and only if no merge meets two arrivals of one signal. -/
theorem counts_exact_iff (sigList : List SigListItem) (events : List SigEvent)
    (few : (arrivedSignals events).toFinset.card ≤ signalStatusSlots)
    (clears : ∀ event ∈ events, PositiveClear sigList event) :
    CountsExact sigList events ↔ ArrivalsSingle sigList events := by
  have run : CountedRun sigList (arrivedSignals events).toFinset events :=
    ⟨few, fun sig member => List.mem_toFinset.mpr member, clears⟩
  have positive : ∀ sig ∈ (arrivedSignals events).toFinset, 0 < sig :=
    fun sig member => arrivedSignals_pos (List.mem_toFinset.mp member)
  -- What one merge does, in a state where the counts still agree.
  have merge_iff : ∀ before, before ++ [.merge] <+: events →
      Agrees (exec (sigStep sigList) .init before) (sigCounts sigList before) →
      (Agrees (exec (sigStep sigList) .init (before ++ [.merge])) (sigCounts sigList (before ++ [.merge])) ↔
        ∀ sig, 0 < sig → (sigCounts sigList before sig).unmerged ≤ 1 ∧
          (sigCounts sigList (before ++ [.merge]) sig).pending < 2147483648) := by
    intro before leading agrees
    have inv := (run.of_prefix sigList ((List.prefix_append ..).trans leading)).countInv
    simp only [sigCounts, exec_append, exec_cons, exec_nil]
    exact inv.merge_agrees_iff sigList few positive agrees
  constructor
  · intro exact before leading
    have agrees := run.agrees sigList (fun other otherLeading _ => exact other otherLeading)
      ((List.prefix_append ..).trans leading)
    exact (merge_iff before leading agrees).mp (exact before leading)
  · intro single before leading
    exact run.agrees sigList
      (fun other otherLeading agrees => (merge_iff other otherLeading agrees).mpr (single other otherLeading)) leading

/-- One `SIGUSR1`, merged: counted exactly. -/
theorem counts_exact_iff_usr1 :
    CountsExact linuxSigList [.arrive 10 (by decide) ⟨7, 0, by decide, by decide⟩, .merge] := by
  refine (counts_exact_iff linuxSigList _ (by decide) ?_).mpr ?_
  · simp only [List.mem_cons, List.not_mem_nil, or_false, forall_eq_or_imp, forall_eq, PositiveClear, and_self]
  · intro before leading sig positive
    have whole : before = [.arrive 10 (by decide) ⟨7, 0, by decide, by decide⟩] := by
      obtain ⟨rest, same⟩ := leading
      cases before with
      | nil => simp at same
      | cons first later =>
        cases later with
        | nil => simpa using congrArg List.head? same
        | cons => simpa using congrArg List.length same
    subst whole
    simp only [sigCounts, List.cons_append, List.nil_append, exec_cons, exec_nil, countStep]
    split <;> simp

/-- Two arrivals of `SIGUSR1` before one merge are counted as one. -/
theorem two_arrivals_one_merge :
    let events : List SigEvent := [.arrive 10 (by decide) ⟨7, 0, by decide, by decide⟩,
      .arrive 10 (by decide) ⟨8, 0, by decide, by decide⟩, .merge]
    pendingOf 10 (exec (sigStep linuxSigList) .init events).signals.slots = 1 ∧
      (sigCounts linuxSigList events 10).pending = 2 ∧ ¬CountsExact linuxSigList events := by
  intro events
  have stored : pendingOf 10 (exec (sigStep linuxSigList) .init events).signals.slots = 1 := by decide
  have arrived : (sigCounts linuxSigList events 10).pending = 2 := by decide
  refine ⟨stored, arrived, ?_⟩
  intro exact
  have same := exact [.arrive 10 (by decide) ⟨7, 0, by decide, by decide⟩,
    .arrive 10 (by decide) ⟨8, 0, by decide, by decide⟩] List.prefix_rfl 10 (by decide)
  exact absurd (stored.symm.trans (same.trans arrived)) (by decide)

/-! ## Timestamps -/

/-- Timestamps that are not zero and of which each is after those before it. -/
def StampsIncrease (recorded : List ℤ) : Prop :=
  (∀ ts ∈ recorded, ts ≠ 0) ∧ recorded.Pairwise fun earlier later => tsAfter later earlier

/-- Between two readings there are at most as many others as the clock has advanced. The zero that `prev` starts with counts as
the first reading. -/
def Spaced (times : List Timespec) : Prop := ((0 :: times.map gettimeMonFrac).zipIdx).Pairwise FarEnough

/-- The timestamps of a run increase if and only if the clock readings of the handler are spaced. -/
theorem timestamps_increase_iff (sigList : List SigListItem) (events : List SigEvent) :
    StampsIncrease (recorded sigList .init events) ↔ Spaced (readings events) := by
  rw [recorded_eq, show SigState.init.prev = 0 from rfl, Spaced, ← stamps_increasing_iff _ 0 le_rfl, StampsIncrease,
    List.pairwise_cons]
  have stamp := stamps_stamp 0 (readings events)
  refine and_congr (iff_of_true (fun ts member => (stamp ts member).1.ne') fun ts member => (stamp ts member).1) ?_
  apply List.Pairwise.iff_of_mem
  intro earlier later earlierMember laterMember
  exact tsAfter_iff (stamp later laterMember) ⟨(stamp earlier earlierMember).1.le, (stamp earlier earlierMember).2⟩

/-- Three signals on one tick of the clock: the third is recorded at the time of the first. -/
theorem three_signals_one_tick :
    let t : Timespec := ⟨7, 0, by decide, by decide⟩
    let events : List SigEvent := [.arrive 10 (by decide) t, .arrive 12 (by decide) t, .arrive 1 (by decide) t]
    (readings events).Pairwise (fun earlier later => gettimeMonFrac earlier ≤ gettimeMonFrac later) ∧
      recorded linuxSigList .init events = [30064771072, 30064771073, 30064771072] ∧
      ¬StampsIncrease (recorded linuxSigList .init events) := by
  intro t events
  have stored : recorded linuxSigList .init events = [30064771072, 30064771073, 30064771072] := by decide
  refine ⟨by decide, stored, ?_⟩
  rw [stored, StampsIncrease]
  decide

/-! ## Clearing counts -/

/-- What clearing `count` arrivals of a signal may do to the tables. -/
structure OnlyClears (sig count : ℤ) (s s' : SigState) : Prop where
  /-- The count of the signal goes down to what is left, but not below zero and not up. -/
  named : sig ≠ 0 → ∀ before slot after, s.signals.slots = before ++ slot :: after → slot.signum = sig →
    (∀ earlier ∈ before, earlier.signum ≠ sig) →
    s'.signals.slots = before ++ { slot with numberPending := max 0 (slot.numberPending - count) } :: after ∧
      max 0 (slot.numberPending - count) ≤ slot.numberPending
  /-- A signal that was not received has no count. -/
  unnamed : (sig = 0 ∨ ∀ slot ∈ s.signals.slots, slot.signum ≠ sig) → s'.signals.slots = s.signals.slots
  rest : s'.newSignals = s.newSignals ∧ s'.prev = s.prev

/-- The count is not negative and the difference to the pending count, in 32 bits, has the right sign. For number zero, which is
that of the free slots, the difference must leave the count of the first free slot alone. -/
def ClearInRange (sig count pending : ℤ) : Prop :=
  if sig = 0 then
    4294967296 ∣ count ∧ 0 ≤ pending ∧ pending < 2147483648 ∨ pending = 0 ∧ count % 4294967296 ≤ 2147483648
  else
    0 ≤ pending ∧ 0 ≤ count ∧
      if count ≤ pending then pending - count < 2147483648 else (count - pending) % 4294967296 ≤ 2147483648

instance (sig count pending : ℤ) : Decidable (ClearInRange sig count pending) := inferInstanceAs (Decidable (ite _ _ _))

/-- What is left of a count after both truncations. -/
def leftOver (pending count : ℤ) : ℤ := if wrap 32 (pending - count) < 0 then 0 else wrap 32 (pending - count)

theorem leftOver_max {pending count : ℤ} {sig : ℤ} (named : sig ≠ 0) :
    leftOver pending count = max 0 (pending - count) ∧ max 0 (pending - count) ≤ pending ↔ ClearInRange sig count pending := by
  rw [ClearInRange, if_neg named, leftOver]
  simp only [wrap, Int.bmod]
  split <;> split <;> split <;> omega

theorem leftOver_self {pending count : ℤ} : leftOver pending count = pending ↔ ClearInRange 0 count pending := by
  rw [ClearInRange, if_pos rfl, leftOver]
  simp only [wrap, Int.bmod]
  split <;> split <;> omega

/-- A command only clears if and only if its count is in range for the slot that it finds. -/
theorem clear_only_iff (sigList : List SigListItem) (s : SigState) {command : StrSeg} {sig count : ℤ}
    (accepted : signalClearArgs sigList command = .ok (sig, count)) :
    OnlyClears sig count s (ctlCmdSignalClear sigList s command).1 ↔
      ∀ slot ∈ s.signals.slots.find? (fun slot => slot.signum = sig), ClearInRange sig count slot.numberPending := by
  have cleared : (ctlCmdSignalClear sigList s command).1 = sigMarkSeen s sig count := by
    rw [ctlCmdSignalClear, accepted]
  have rewritten : ∀ before slot after, s.signals.slots = before ++ slot :: after → slot.signum = sig →
      (∀ earlier ∈ before, earlier.signum ≠ sig) → (sigMarkSeen s sig count).signals.slots =
        before ++ { slot with numberPending := leftOver slot.numberPending count } :: after := by
    intro before slot after slots here first
    have wrapped : wrap 32 (slot.numberPending - wrap 32 count) = wrap 32 (slot.numberPending - count) :=
      Int.sub_bmod_bmod ..
    change markSeenSlots sig (wrap 32 count) s.signals.slots = _
    rw [slots, markSeenSlots_append first here, wrapped]
    rfl
  rw [cleared]
  cases found : s.signals.slots.find? (fun slot => slot.signum = sig) with
  | none =>
    have absent : ∀ slot ∈ s.signals.slots, slot.signum ≠ sig := by simpa using found
    refine iff_of_true ⟨?_, fun _ => markSeenSlots_absent absent, rfl, rfl⟩ (by rintro _ ⟨⟩)
    intro _ before slot after slots here
    exact absurd here (absent slot (slots ▸ List.mem_append_right _ List.mem_cons_self))
  | some slot =>
    have unique : ∀ before other after, s.signals.slots = before ++ other :: after → other.signum = sig →
        (∀ earlier ∈ before, earlier.signum ≠ sig) → other = slot := by
      intro before other after slots here first
      rw [← Option.some_inj, ← found, eq_comm, List.find?_eq_some_iff_append]
      exact ⟨decide_eq_true here, before, after, slots, by simpa using first⟩
    obtain ⟨here, before, after, slots, first⟩ := List.find?_eq_some_iff_append.mp found
    simp only [decide_eq_true_eq, Bool.not_eq_true', decide_eq_false_iff_not] at here first
    have left := rewritten before slot after slots here first
    simp only [Option.mem_some_iff, forall_eq']
    rcases eq_or_ne sig 0 with rfl | named
    · rw [← leftOver_self]
      constructor
      · intro clears
        have same := (clears.unnamed (.inl rfl)).symm.trans left
        rw [slots, List.append_cancel_left_eq, List.cons.injEq] at same
        exact (congrArg SigStatus.numberPending same.1).symm
      · intro same
        refine ⟨fun nonzero => absurd rfl nonzero, fun _ => ?_, rfl, rfl⟩
        rw [left, same, slots]
    · rw [← leftOver_max named]
      constructor
      · intro clears
        obtain ⟨cleared, below⟩ := clears.named named before slot after slots here first
        rw [left, List.append_cancel_left_eq, List.cons.injEq] at cleared
        exact ⟨congrArg SigStatus.numberPending cleared.1, below⟩
      · rintro ⟨exact, below⟩
        refine ⟨fun _ before' slot' after' slots' here' first' => ?_, ?_, rfl, rfl⟩
        · obtain rfl := unique before' slot' after' slots' here' first'
          rw [rewritten before' slot' after' slots' here' first', exact]
          exact ⟨rfl, below⟩
        · rintro (zero | absent)
          · exact absurd zero named
          · exact absurd here (absent slot (slots ▸ List.mem_append_right _ List.mem_cons_self))

/-- A table in which `SIGHUP` is pending twice. -/
def hupTwice : SigState := exec (sigStep linuxSigList) .init
  [.arrive 1 Int.zero_lt_one (.ofSeconds 7), .merge, .arrive 1 Int.zero_lt_one (.ofSeconds 8), .merge]

/-- `signal.clear HUP 1` takes one of the two arrivals off. -/
theorem clear_only_hup :
    OnlyClears 1 1 hupTwice (ctlCmdSignalClear linuxSigList hupTwice (some (bytesOf "HUP\t1"))).1 := by
  have accepted : signalClearArgs linuxSigList (some (bytesOf "HUP\t1")) = .ok (1, 1) := by rfl
  apply (clear_only_iff linuxSigList hupTwice accepted).mpr
  decide +kernel

/-- `signal.clear HUP -1` raises the count from two to three. -/
theorem clear_raises :
    let s' := (ctlCmdSignalClear linuxSigList hupTwice (some (bytesOf "HUP\t-1"))).1
    signalClearArgs linuxSigList (some (bytesOf "HUP\t-1")) = .ok (1, -1) ∧
      pendingOf 1 hupTwice.signals.slots = 2 ∧ pendingOf 1 s'.signals.slots = 3 ∧ ¬OnlyClears 1 (-1) hupTwice s' := by
  refine ⟨rfl, by decide +kernel, by decide +kernel, ?_⟩
  intro clears
  have slots : hupTwice.signals.slots = [] ++ ⟨1, 34359738368, 2⟩ :: List.replicate 15 .zero := by decide +kernel
  exact absurd (clears.named (by decide) _ _ _ slots rfl nofun).2 (by decide)

end DaemonProxy.Soundness
