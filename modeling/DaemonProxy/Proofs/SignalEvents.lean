import DaemonProxy.Model.SignalLoops
import Mathlib.Data.List.Pairwise

/-! # Enumerating pending signals

A slot that holds arrivals carries the number and a positive timestamp of its signal, except after
a `signal.clear` that names no signal and has a negative count: such a command turns a free slot
into a pending one with timestamp zero, and zero is the wildcard of `sig_get_new_events`.
Without such commands every enumeration visits the newer pending slots once, oldest first.
-/

namespace DaemonProxy.Proofs

open Lib Model

/-- A timestamp as the handler records it. -/
def Stamp (ts : ℤ) : Prop := 0 < ts ∧ ts < 9223372036854775808

/-- A free slot has nothing pending; any other slot has been stamped. -/
structure SlotInv (slot : SigStatus) : Prop where
  free : slot.signum = 0 → slot.numberPending = 0
  stamped : slot.signum ≠ 0 → Stamp slot.lastReceivedTs

variable {slot : SigStatus}

theorem SlotInv.pending (inv : SlotInv slot) (pending : 0 < slot.numberPending) :
    slot.signum ≠ 0 ∧ Stamp slot.lastReceivedTs := by
  have used : slot.signum ≠ 0 := by
    intro zero
    have := inv.free zero
    omega
  exact ⟨used, inv.stamped used⟩

/-- Every slot of both tables keeps the slot invariant. -/
def SigInv (s : SigState) : Prop :=
  (∀ slot ∈ s.signals.slots, SlotInv slot) ∧ ∀ slot ∈ s.newSignals.slots, SlotInv slot

theorem zero_slotInv : ∀ slot ∈ SigTable.zero.slots, SlotInv slot := by
  intro slot member
  obtain rfl := List.eq_of_mem_replicate member
  exact ⟨fun _ => rfl, fun used => absurd rfl used⟩

theorem init_sigInv : SigInv .init := ⟨zero_slotInv, zero_slotInv⟩

theorem gettimeMonFrac_range (t : Timespec) :
    0 ≤ gettimeMonFrac t ∧ gettimeMonFrac t < 9223372036854775804 := by
  have sec := t.sec_lt
  have nsec := t.nsec_lt
  have quotient : t.nsec * 4294967296 / 1000000000 < 4294967292 := by omega
  have frac := lt_of_le_of_lt (Nat.mod_le _ 4294967296) quotient
  simp only [gettimeMonFrac]
  omega

/-- The readings are too small for the handler to wrap around. -/
theorem handlerTs_reading (prev : ℤ) (t : Timespec) : handlerTs prev (gettimeMonFrac t) =
    if gettimeMonFrac t = prev then gettimeMonFrac t + 1 else if gettimeMonFrac t = 0 then 1 else gettimeMonFrac t := by
  obtain ⟨low, high⟩ := gettimeMonFrac_range t
  generalize gettimeMonFrac t = now at low high ⊢
  have next : wrap 64 (now + 1) = now + 1 := wrap64_eq ⟨by omega, by omega⟩
  simp only [handlerTs, next]
  split_ifs <;> omega

theorem handlerTs_stamp (prev : ℤ) (t : Timespec) : Stamp (handlerTs prev (gettimeMonFrac t)) := by
  obtain ⟨low, high⟩ := gettimeMonFrac_range t
  rw [handlerTs_reading, Stamp]
  split_ifs <;> omega

variable {sig ts : ℤ}

theorem claimSlot_slotInv (used : sig ≠ 0) (stamp : Stamp ts) :
    SlotInv (claimSlot slot sig ts) := by
  simp only [claimSlot]
  split
  · next same => exact ⟨fun zero => absurd (same.symm.trans zero) used, fun _ => stamp⟩
  · exact ⟨fun zero => absurd zero used, fun _ => stamp⟩

variable {slots : List SigStatus}

/-- Recording rewrites one slot and keeps the others. -/
theorem mem_recordSignal {count : ℤ}
    (member : slot ∈ recordSignal sig ts count slots) :
    slot ∈ slots ∨ ∃ old ∈ slots, slot = claimSlot old sig ts := by
  induction slots with
  | nil => exact .inl member
  | cons head rest ih =>
    cases rest with
    | nil => exact .inr ⟨head, by simp, by simpa [recordSignal] using member⟩
    | cons next rest =>
      simp only [recordSignal] at member
      split at member
      · rcases List.mem_cons.mp member with rfl | tail
        · exact .inr ⟨head, List.mem_cons_self, rfl⟩
        · exact .inl (List.mem_cons_of_mem _ tail)
      · rcases List.mem_cons.mp member with rfl | tail
        · exact .inl List.mem_cons_self
        · rcases ih tail with kept | ⟨old, present, rfl⟩
          · exact .inl (List.mem_cons_of_mem _ kept)
          · exact .inr ⟨old, List.mem_cons_of_mem _ present, rfl⟩

theorem recordSignal_slotInv {count : ℤ}
    (inv : ∀ slot ∈ slots, SlotInv slot) (used : sig ≠ 0) (stamp : Stamp ts) :
    ∀ slot ∈ recordSignal sig ts count slots, SlotInv slot := by
  intro slot member
  rcases mem_recordSignal member with kept | ⟨old, _, rfl⟩
  · exact inv slot kept
  · exact claimSlot_slotInv used stamp

theorem mergeSlots_slotInv {signals arrived : List SigStatus}
    (inv : ∀ slot ∈ signals, SlotInv slot) (arrivedInv : ∀ slot ∈ arrived, SlotInv slot) :
    ∀ slot ∈ mergeSlots signals arrived, SlotInv slot := by
  induction arrived generalizing signals with
  | nil => exact inv
  | cons slot rest ih =>
    simp only [mergeSlots]
    split
    · exact inv
    · next pending =>
      have head := arrivedInv slot List.mem_cons_self
      have used : slot.signum ≠ 0 := fun zero => pending (head.free zero)
      exact ih (recordSignal_slotInv inv used (head.stamped used))
        (fun other member => arrivedInv other (List.mem_cons_of_mem _ member))

/-- Clearing is harmless unless it takes a negative count off a free slot. -/
theorem markSeenSlots_slotInv {signum count : ℤ}
    (inv : ∀ slot ∈ slots, SlotInv slot) (range : InInt32 count)
    (harmless : signum = 0 → 0 ≤ count) : ∀ slot ∈ markSeenSlots signum count slots, SlotInv slot := by
  induction slots with
  | nil => exact inv
  | cons head rest ih =>
    have headInv := inv head List.mem_cons_self
    have restInv : ∀ slot ∈ rest, SlotInv slot := fun slot member => inv slot (List.mem_cons_of_mem _ member)
    simp only [markSeenSlots]
    split
    · next same =>
      intro slot member
      rcases List.mem_cons.mp member with rfl | tail
      · refine ⟨?_, headInv.stamped⟩
        intro zero
        have empty := headInv.free zero
        have positive := harmless (same.symm.trans zero)
        have high := range.2
        have left : wrap 32 (0 - count) = 0 - count := wrap32_eq ⟨by omega, by omega⟩
        simp only [empty, left]
        split <;> omega
      · exact restInv slot tail
    · intro slot member
      rcases List.mem_cons.mp member with rfl | tail
      · exact headInv
      · exact ih restInv slot tail

/-- A clear command that either names a signal or has a count that is not negative as an `int`. -/
def ClearAllowed (sigList : List SigListItem) : SigEvent → Prop
  | .clear command => ∀ sig count, signalClearArgs sigList command = .ok (sig, count) →
      sig = 0 → 0 ≤ wrap 32 count
  | _ => True

theorem sigStep_sigInv (sigList : List SigListItem) (s : SigState) (event : SigEvent)
    (inv : SigInv s) (allowed : ClearAllowed sigList event) : SigInv (sigStep sigList s event) := by
  obtain ⟨signals, arrived⟩ := inv
  cases event with
  | arrive sig positive t =>
    exact ⟨signals, recordSignal_slotInv arrived (by omega) (handlerTs_stamp _ t)⟩
  | merge => exact ⟨mergeSlots_slotInv signals arrived, zero_slotInv⟩
  | clear command =>
    simp only [sigStep, ctlCmdSignalClear]
    split
    · exact ⟨signals, arrived⟩
    · next sig count accepted =>
      exact ⟨markSeenSlots_slotInv signals (wrap32_range _) (allowed sig count accepted), arrived⟩

/-! ## One enumeration of a fixed table -/

theorem tsAfter_iff {later earlier : ℤ} (laterStamp : Stamp later)
    (earlierRange : 0 ≤ earlier ∧ earlier < 9223372036854775808) :
    tsAfter later earlier ↔ earlier < later := by
  obtain ⟨laterLow, laterHigh⟩ := laterStamp
  obtain ⟨earlierLow, earlierHigh⟩ := earlierRange
  have exact : wrap 64 (later - earlier) = later - earlier := wrap64_eq ⟨by omega, by omega⟩
  simp only [tsAfter, exact]
  omega

/-- The events of `slots` that an enumeration starting at `since` has to visit. -/
def newEvents (slots : List SigStatus) (since : ℤ) : List SigStatus := slots.filter (isNewEvent since)

/-- A bookmark: zero, or a timestamp. -/
def Bookmark (since : ℤ) : Prop := 0 ≤ since ∧ since < 9223372036854775808

section Table

variable {slots : List SigStatus} {since : ℤ}

theorem mem_newEvents (inv : ∀ slot ∈ slots, SlotInv slot) (bookmark : Bookmark since)
    (slot : SigStatus) : slot ∈ newEvents slots since ↔
      slot ∈ slots ∧ 0 < slot.numberPending ∧ since < slot.lastReceivedTs := by
  simp only [newEvents, List.mem_filter, isNewEvent, decide_eq_true_eq]
  refine and_congr_right fun member => and_congr_right fun pending => ?_
  have stamp := ((inv slot member).pending pending).2
  rw [tsAfter_iff stamp bookmark]
  constructor
  · rintro (rfl | later)
    · exact stamp.1
    · exact later
  · exact .inr

theorem newEvents_stamp (inv : ∀ slot ∈ slots, SlotInv slot) (bookmark : Bookmark since) (member : slot ∈ newEvents slots since) : Stamp slot.lastReceivedTs := by
  obtain ⟨present, pending, _⟩ := (mem_newEvents inv bookmark slot).mp member
  exact ((inv slot present).pending pending).2

/-- The candidate of the search loop: an oldest event among the slots seen so far. -/
def Oldest (seen : List SigStatus) : Option SigStatus → Prop
  | none => seen = []
  | some event => event ∈ seen ∧ ∀ other ∈ seen, event.lastReceivedTs ≤ other.lastReceivedTs

theorem oldest_foldl (inv : ∀ slot ∈ slots, SlotInv slot) (candidate : Option SigStatus)
    (seen : List SigStatus) (seenStamp : ∀ slot ∈ seen, Stamp slot.lastReceivedTs)
    (oldest : Oldest seen candidate) :
    Oldest (seen ++ newEvents slots since) (slots.foldl (pickOldest since) candidate) := by
  induction slots generalizing candidate seen with
  | nil => simpa [newEvents] using oldest
  | cons slot rest ih =>
    have slotInv := inv slot List.mem_cons_self
    have restInv : ∀ other ∈ rest, SlotInv other := fun other member => inv other (List.mem_cons_of_mem _ member)
    rw [List.foldl_cons]
    by_cases new : isNewEvent since slot = true
    · have pending : 0 < slot.numberPending := by
        simp only [isNewEvent, decide_eq_true_eq] at new
        exact new.1
      have stamp := (slotInv.pending pending).2
      have grown : Oldest (seen ++ [slot]) (pickOldest since candidate slot) := by
        cases candidate with
        | none =>
          subst oldest
          simp [pickOldest, new, Oldest]
        | some event =>
          obtain ⟨member, least⟩ := oldest
          have order := tsAfter_iff (seenStamp event member) ⟨stamp.1.le, stamp.2⟩
          simp only [pickOldest, new, true_and, Option.mem_def, Option.some.injEq, forall_eq', order]
          split
          · next earlier =>
            refine ⟨by simp, ?_⟩
            intro other present
            rcases List.mem_append.mp present with old | same
            · exact earlier.le.trans (least other old)
            · rw [List.mem_singleton.mp same]
          · next later =>
            refine ⟨by simp [member], ?_⟩
            intro other present
            rcases List.mem_append.mp present with old | same
            · exact least other old
            · rw [List.mem_singleton.mp same]
              exact not_lt.mp later
      have tail := ih restInv (pickOldest since candidate slot) (seen ++ [slot])
        (by
          intro other present
          rcases List.mem_append.mp present with old | same
          · exact seenStamp other old
          · rw [List.mem_singleton.mp same]
            exact stamp)
        grown
      simpa only [newEvents, List.filter_cons, new, if_true, List.append_assoc, List.singleton_append] using tail
    · have skipped : pickOldest since candidate slot = candidate := by
        simp only [pickOldest, new, false_and, Bool.false_eq_true, if_false]
      rw [skipped]
      simpa only [newEvents, List.filter_cons, new, Bool.false_eq_true, if_false] using
        ih restInv candidate seen seenStamp oldest

/-- `sig_get_new_events` finds an oldest new event exactly when there is one. -/
theorem sigGetNewEvents_oldest (inv : ∀ slot ∈ slots, SlotInv slot) (since : ℤ) :
    Oldest (newEvents slots since) (sigGetNewEvents slots since) := by
  simpa only [List.nil_append, sigGetNewEvents] using oldest_foldl inv none [] (by simp) rfl

/-- The successive answers of `sig_get_new_events`, until it returns false. -/
inductive Visits (slots : List SigStatus) : ℤ → List SigStatus → Prop
  | done {since : ℤ} (none : sigGetNewEvents slots since = none) : Visits slots since []
  | next {since : ℤ} {event : SigStatus} {rest : List SigStatus}
      (found : sigGetNewEvents slots since = some event)
      (later : Visits slots event.lastReceivedTs rest) : Visits slots since (event :: rest)

/-- No two pending slots carry the same timestamp. -/
def PendingDistinct (slots : List SigStatus) : Prop :=
  (slots.filter fun slot => decide (0 < slot.numberPending)).Pairwise
    fun a b => a.lastReceivedTs ≠ b.lastReceivedTs

theorem newEvents_pairwise (distinct : PendingDistinct slots) (since : ℤ) :
    (newEvents slots since).Pairwise fun a b => a.lastReceivedTs ≠ b.lastReceivedTs := by
  have narrowed : newEvents slots since =
      (slots.filter fun slot => decide (0 < slot.numberPending)).filter (isNewEvent since) := by
    rw [List.filter_filter]
    apply List.filter_congr
    intro slot _
    simp only [isNewEvent]
    by_cases pending : 0 < slot.numberPending <;> simp [pending]
  rw [narrowed]
  exact distinct.filter _

/-- After its oldest event an enumeration has to visit exactly the others. -/
theorem newEvents_next (inv : ∀ slot ∈ slots, SlotInv slot) (bookmark : Bookmark since)
    (distinct : PendingDistinct slots) {event : SigStatus}
    (member : event ∈ newEvents slots since)
    (least : ∀ other ∈ newEvents slots since, event.lastReceivedTs ≤ other.lastReceivedTs) :
    (newEvents slots since).Perm (event :: newEvents slots event.lastReceivedTs) := by
  have stamp := newEvents_stamp inv bookmark member
  have nextBookmark : Bookmark event.lastReceivedTs := ⟨stamp.1.le, stamp.2⟩
  have pairwise := newEvents_pairwise distinct since
  have nodup : (newEvents slots since).Nodup :=
    pairwise.imp (fun differ same => differ (congrArg SigStatus.lastReceivedTs same))
  have symm : Std.Symm fun a b : SigStatus => a.lastReceivedTs ≠ b.lastReceivedTs := ⟨fun _ _ => Ne.symm⟩
  have rest : newEvents slots event.lastReceivedTs = (newEvents slots since).erase event := by
    rw [nodup.erase_eq_filter]
    simp only [newEvents, List.filter_filter]
    apply List.filter_congr
    intro slot present
    have before := mem_newEvents inv bookmark slot
    have after := mem_newEvents inv nextBookmark slot
    simp only [newEvents, List.mem_filter, present, true_and] at before after
    rw [Bool.eq_iff_iff, after, Bool.and_eq_true, before, bne_iff_ne]
    constructor
    · rintro ⟨pending, later⟩
      have since_lt := ((mem_newEvents inv bookmark event).mp member).2.2
      refine ⟨?_, pending, since_lt.trans later⟩
      rintro rfl
      exact lt_irrefl _ later
    · rintro ⟨different, pending, later⟩
      refine ⟨pending, lt_of_le_of_ne (least slot ?_) ?_⟩
      · exact (mem_newEvents inv bookmark slot).mpr ⟨present, pending, later⟩
      · exact pairwise.forall member
          ((mem_newEvents inv bookmark slot).mpr ⟨present, pending, later⟩) (Ne.symm different)
  rw [rest]
  exact List.perm_cons_erase member

/-- Every enumeration ends, having visited each new event once and in increasing time order. -/
theorem exists_visits (inv : ∀ slot ∈ slots, SlotInv slot) (distinct : PendingDistinct slots)
    (bookmark : Bookmark since) : ∃ visited, Visits slots since visited ∧
      visited.Perm (newEvents slots since) ∧
      visited.Pairwise fun a b => a.lastReceivedTs < b.lastReceivedTs := by
  -- Each answer removes itself from the events that are still new.
  induction count : (newEvents slots since).length generalizing since with
  | zero =>
    have empty := List.eq_nil_of_length_eq_zero count
    have oldest := sigGetNewEvents_oldest inv since
    cases found : sigGetNewEvents slots since with
    | none => exact ⟨[], .done found, by rw [empty], .nil⟩
    | some event =>
      rw [found, empty] at oldest
      exact absurd oldest.1 List.not_mem_nil
  | succ count ih =>
    have oldest := sigGetNewEvents_oldest inv since
    cases found : sigGetNewEvents slots since with
    | none =>
      rw [found] at oldest
      rw [show newEvents slots since = [] from oldest] at count
      contradiction
    | some event =>
      rw [found] at oldest
      obtain ⟨member, least⟩ := oldest
      have next := newEvents_next inv bookmark distinct member least
      have stamp := newEvents_stamp inv bookmark member
      have nextBookmark : Bookmark event.lastReceivedTs := ⟨stamp.1.le, stamp.2⟩
      obtain ⟨visited, visits, perm, ordered⟩ := ih nextBookmark
        (by have := next.length_eq; simp only [List.length_cons] at this; omega)
      refine ⟨event :: visited, .next found visits, (perm.cons event).trans next.symm, ?_⟩
      refine List.pairwise_cons.mpr ⟨?_, ordered⟩
      intro other later
      exact ((mem_newEvents inv nextBookmark other).mp (perm.mem_iff.mp later)).2.2

end Table

/-! ## The two loops follow the enumeration -/

variable {visited : List SigStatus} {since : ℤ}

/-- A client whose output is ready every time is told of every visited event. -/
theorem ctlDeliverSignals_ready
    (visits : Visits slots since visited) {answers : List Bool}
    (enough : visited.length ≤ answers.length) (ready : ∀ answer ∈ answers, answer = true) :
    ∃ last, ctlDeliverSignals slots answers since = some ⟨visited, last, true⟩ := by
  induction visits generalizing answers with
  | @done since none => cases answers <;> exact ⟨since, by simp only [ctlDeliverSignals, none]⟩
  | @next since event rest found later ih =>
    cases answers with
    | nil => simp at enough
    | cons answer answers =>
      obtain rfl := ready answer List.mem_cons_self
      obtain ⟨last, tail⟩ := ih (by simpa using enough) (fun other member => ready other (List.mem_cons_of_mem _ member))
      exact ⟨last, by simp only [ctlDeliverSignals, found, if_true, tail, Option.map_some]⟩

/-- With as many answers as there are events the loop ends, at the first answer that is false if
not earlier, and what was delivered by then leads the enumeration. -/
theorem ctlDeliverSignals_stalled
    (visits : Visits slots since visited) {answers : List Bool}
    (enough : visited.length ≤ answers.length) :
    ∃ delivery, ctlDeliverSignals slots answers since = some delivery ∧ delivery.delivered <+: visited := by
  induction visits generalizing answers with
  | @done since none => cases answers <;> exact ⟨⟨[], since, true⟩, by simp only [ctlDeliverSignals, none], by simp⟩
  | @next since event rest found later ih =>
    cases answers with
    | nil => simp at enough
    | cons answer answers =>
      cases answer with
      | false => exact ⟨⟨[], since, false⟩, by simp [ctlDeliverSignals, found], by simp⟩
      | true =>
        obtain ⟨delivery, tail, leading⟩ := ih (by simpa using enough)
        refine ⟨{ delivery with delivered := event :: delivery.delivered }, ?_, ?_⟩
        · simp only [ctlDeliverSignals, found, if_true, tail, Option.map_some]
        · exact (List.prefix_cons_inj event).mpr leading

/-- A service is woken exactly when one of the visited signals is among its own. -/
theorem sigwakeLoop_visits
    (visits : Visits slots since visited) (autostart : ℤ → Bool) {budget : ℕ}
    (enough : visited.length < budget) :
    sigwakeLoop slots autostart budget since = some (visited.any fun event => autostart event.signum) := by
  induction visits generalizing budget with
  | done none =>
    cases budget with
    | zero => simp at enough
    | succ budget => simp only [sigwakeLoop, none, List.any_nil]
  | @next since event rest found later ih =>
    cases budget with
    | zero => simp at enough
    | succ budget =>
      simp only [sigwakeLoop, found, List.any_cons]
      by_cases wakes : autostart event.signum = true
      · simp [wakes]
      · simp only [wakes, if_false, Bool.false_or, Bool.false_eq_true]
        exact ih (by simpa using enough)

end DaemonProxy.Proofs
