import DaemonProxy.Model.ServiceLoop
import DaemonProxy.Proofs.SignalCount

/-! # Signals in the order of their arrival

Where the timestamps of the handler increase, no two signals carry the same one, and a signal that has not been merged is
newer than all that have been, and newer than the bookmark of `svc_run_active`.
-/

namespace DaemonProxy.Proofs

open Lib Model

/-- No two used slots carry the same timestamp. -/
def StampsApart (slots : List SigStatus) : Prop :=
  slots.Pairwise fun a b => a.signum ≠ 0 → b.signum ≠ 0 → a.lastReceivedTs ≠ b.lastReceivedTs

/-- The count of a slot fits, and is not negative. -/
def Counted (slot : SigStatus) : Prop := 0 ≤ slot.numberPending ∧ slot.numberPending < 2147483648

theorem claimSlot_ts (slot : SigStatus) (sig ts : ℤ) : (claimSlot slot sig ts).lastReceivedTs = ts := by
  rw [claimSlot]
  split <;> rfl

variable {slots : List SigStatus} {slot : SigStatus}

theorem not_countsFull {sig : ℤ} (room : countsFull slots sig = false)
    (member : slot ∈ slots) (same : slot.signum = sig) : slot.numberPending ≠ 2147483647 := by
  intro full
  have some : countsFull slots sig = true := List.any_eq_true.mpr ⟨slot, member, by simp [same, full]⟩
  rw [some] at room
  cases room

section Record

variable {slots : List SigStatus} {sig ts : ℤ} (count : ℤ)

theorem StampsApart.record (apart : StampsApart slots) (fresh : ∀ slot ∈ slots, slot.lastReceivedTs ≠ ts) :
    StampsApart (recordSignal sig ts count slots) := by
  rcases eq_or_ne slots [] with rfl | nonempty
  · exact .nil
  obtain ⟨before, slot, after, rfl, -, -, result⟩ := recordSignal_claims sig ts count nonempty
  rw [result]
  obtain ⟨front, back, across⟩ := List.pairwise_append.mp apart
  obtain ⟨-, rest⟩ := List.pairwise_cons.mp back
  refine List.pairwise_append.mpr ⟨front, List.pairwise_cons.mpr ⟨?_, rest⟩, ?_⟩
  · intro other present _ _
    rw [claimSlot_ts]
    exact (fresh other (List.mem_append_right _ (List.mem_cons_of_mem _ present))).symm
  · intro first inFront second inBack
    rcases List.mem_cons.mp inBack with rfl | tail
    · rw [claimSlot_ts]
      exact fun _ _ => fresh first (List.mem_append_left _ inFront)
    · exact across first inFront second (List.mem_cons_of_mem _ tail)

theorem counted_record (counted : ∀ slot ∈ slots, Counted slot) (room : countsFull slots sig = false) :
    ∀ slot ∈ recordSignal sig ts count slots, Counted slot := by
  intro slot member
  rcases mem_recordSignal member with kept | ⟨old, present, rfl⟩
  · exact counted slot kept
  · obtain ⟨low, high⟩ := counted old present
    simp only [claimSlot, Counted]
    split
    · next same =>
      have notFull := not_countsFull room present same
      have next : wrap 32 (old.numberPending + 1) = old.numberPending + 1 := wrap32_eq ⟨by omega, by omega⟩
      dsimp only
      omega
    · dsimp only
      omega

end Record

/-! ## Merging -/

variable {signals arrived : List SigStatus}

/-- A slot after a merge is an old one, or carries the number and the time of an arrival. -/
theorem mem_mergeSlots (member : slot ∈ mergeSlots signals arrived) :
    slot ∈ signals ∨ ∃ new ∈ arrived, new.numberPending ≠ 0 ∧ slot.signum = new.signum ∧
      slot.lastReceivedTs = new.lastReceivedTs := by
  induction arrived generalizing signals with
  | nil => exact .inl member
  | cons head rest ih =>
    simp only [mergeSlots] at member
    split at member
    · exact .inl member
    · next pending =>
      rcases ih member with recorded | ⟨new, present, rest⟩
      · rcases mem_recordSignal recorded with kept | ⟨old, -, rfl⟩
        · exact .inl kept
        · exact .inr ⟨head, List.mem_cons_self, pending, claimSlot_signum .., claimSlot_ts ..⟩
      · exact .inr ⟨new, List.mem_cons_of_mem _ present, rest⟩

theorem StampsApart.merge (apart : StampsApart signals) (apartNew : StampsApart arrived)
    (inv : ∀ slot ∈ arrived, SlotInv slot)
    (fresh : ∀ new ∈ arrived, new.numberPending ≠ 0 → ∀ slot ∈ signals, slot.lastReceivedTs ≠ new.lastReceivedTs) :
    StampsApart (mergeSlots signals arrived) := by
  induction arrived generalizing signals with
  | nil => exact apart
  | cons head rest ih =>
    simp only [mergeSlots]
    split
    · exact apart
    · next pending =>
      obtain ⟨ahead, apartRest⟩ := List.pairwise_cons.mp apartNew
      have used : ∀ new ∈ head :: rest, new.numberPending ≠ 0 → new.signum ≠ 0 :=
        fun new member pending zero => pending ((inv new member).free zero)
      refine ih (apart.record _ (fresh head List.mem_cons_self pending)) apartRest
        (fun slot member => inv slot (List.mem_cons_of_mem _ member)) fun new member newPending slot recorded => ?_
      have inTable := List.mem_cons_of_mem head member
      rcases mem_recordSignal recorded with kept | ⟨old, -, rfl⟩
      · exact fresh new inTable newPending slot kept
      · rw [claimSlot_ts]
        exact ahead new member (used head List.mem_cons_self pending) (used new inTable newPending)

theorem counted_merge (counted : ∀ slot ∈ signals, Counted slot)
    (packed : Packed arrived) (inv : ∀ slot ∈ arrived, SlotInv slot)
    (room : ∀ slot ∈ arrived, slot.numberPending ≠ 0 → countsFull signals slot.signum = false) :
    ∀ slot ∈ mergeSlots signals arrived, Counted slot := by
  induction arrived generalizing signals with
  | nil => exact counted
  | cons head rest ih =>
    simp only [mergeSlots]
    split
    · exact counted
    · next pending =>
      obtain ⟨ahead, packedRest⟩ := List.pairwise_cons.mp packed
      refine ih (counted_record _ counted (room head List.mem_cons_self pending)) packedRest
        (fun slot member => inv slot (List.mem_cons_of_mem _ member)) fun new member newPending => ?_
      have inTable := List.mem_cons_of_mem head member
      have used : new.signum ≠ 0 := fun zero => newPending ((inv new inTable).free zero)
      -- The slot just claimed belongs to another signal.
      rw [countsFull, List.any_eq_false]
      intro slot recorded full
      obtain ⟨same, full⟩ := of_decide_eq_true full
      rcases mem_recordSignal recorded with kept | ⟨old, -, rfl⟩
      · exact not_countsFull (room new inTable newPending) kept same full
      · rw [claimSlot_signum] at same
        exact (ahead new member used).2 same

/-! ## Clearing -/

/-- Clearing by a count that is not negative takes something off one slot. -/
theorem mem_markSeen_le {signum count : ℤ}
    (counted : ∀ slot ∈ slots, Counted slot) (range : InInt32 count) (nonneg : 0 ≤ count)
    (member : slot ∈ markSeenSlots signum count slots) : Counted slot ∧ ∃ old ∈ slots, slot.signum = old.signum ∧
      slot.lastReceivedTs = old.lastReceivedTs ∧ slot.numberPending ≤ old.numberPending := by
  rcases mem_markSeenSlots member with kept | ⟨old, present, rfl⟩
  · exact ⟨counted slot kept, slot, kept, rfl, rfl, le_refl _⟩
  · obtain ⟨low, high⟩ := counted old present
    have exact : wrap 32 (old.numberPending - count) = old.numberPending - count := by
      have := range.2
      exact wrap32_eq ⟨by omega, by omega⟩
    simp only [exact]
    refine ⟨?_, old, present, rfl, rfl, ?_⟩
    · rw [Counted]
      dsimp only
      split <;> omega
    · split <;> omega

theorem StampsApart.markSeen (apart : StampsApart slots) (signum count : ℤ) :
    StampsApart (markSeenSlots signum count slots) := by
  have keys : (markSeenSlots signum count slots).map (fun slot => (slot.signum, slot.lastReceivedTs)) =
      slots.map fun slot => (slot.signum, slot.lastReceivedTs) := by
    induction slots with
    | nil => rfl
    | cons slot rest ih =>
      simp only [markSeenSlots]
      split
      · rfl
      · rw [List.map_cons, List.map_cons, ih (List.pairwise_cons.mp apart).2]
  let R : ℤ × ℤ → ℤ × ℤ → Prop := fun a b => a.1 ≠ 0 → b.1 ≠ 0 → a.2 ≠ b.2
  have mapped := (List.pairwise_map (f := fun slot : SigStatus => (slot.signum, slot.lastReceivedTs)) (R := R)).mpr apart
  rw [← keys] at mapped
  exact List.pairwise_map.mp mapped

/-! ## The invariant -/

/-- Both tables, and a bookmark `last`, where signals arrive one after the other. -/
structure Chronicle (sig : SigState) (last : ℤ) : Prop where
  inv : SigInv sig
  counted : ∀ slot ∈ sig.signals.slots, Counted slot
  countedNew : ∀ slot ∈ sig.newSignals.slots, Counted slot
  packed : Packed sig.newSignals.slots
  apart : StampsApart sig.signals.slots
  apartNew : StampsApart sig.newSignals.slots
  past : ∀ slot ∈ sig.signals.slots, slot.lastReceivedTs ≤ sig.prev
  pastNew : ∀ slot ∈ sig.newSignals.slots, slot.lastReceivedTs ≤ sig.prev
  bookmark : 0 ≤ last ∧ last ≤ sig.prev
  bounded : sig.prev < 9223372036854775808
  newer : ∀ new ∈ sig.newSignals.slots, new.numberPending ≠ 0 → last < new.lastReceivedTs ∧
    ∀ slot ∈ sig.signals.slots, slot.lastReceivedTs < new.lastReceivedTs

namespace Chronicle

variable {sig : SigState} {last : ℤ}

theorem init : Chronicle .init 0 := by
  have zero : ∀ slot ∈ SigTable.zero.slots, slot = SigStatus.zero := fun slot member => List.eq_of_mem_replicate member
  have counted : ∀ slot ∈ SigTable.zero.slots, Counted slot := by
    intro slot member
    rw [zero slot member]
    exact ⟨by decide, by decide⟩
  have past : ∀ slot ∈ SigTable.zero.slots, slot.lastReceivedTs ≤ 0 := by
    intro slot member
    rw [zero slot member]
    exact le_refl _
  have apart : StampsApart SigTable.zero.slots := List.pairwise_replicate.mpr (.inr fun used => absurd rfl used)
  refine ⟨init_sigInv, counted, counted, ?_, apart, apart, past, past, ⟨le_refl _, le_refl _⟩, by decide, ?_⟩
  · exact List.pairwise_replicate.mpr (.inr fun used => absurd rfl used)
  · intro new member pending
    rw [zero new member] at pending
    exact absurd rfl pending

theorem arrive (chronicle : Chronicle sig last) {signum : ℤ} (positive : 0 < signum) {t : Timespec}
    (room : countsFull sig.newSignals.slots signum = false)
    (increasing : sig.prev < handlerTs sig.prev (gettimeMonFrac t)) : Chronicle (sigHandler sig signum t) last := by
  have stamp := handlerTs_stamp sig.prev t
  have slots : (sigHandler sig signum t).newSignals.slots =
      recordSignal signum (handlerTs sig.prev (gettimeMonFrac t)) 1 sig.newSignals.slots := rfl
  have now : (sigHandler sig signum t).prev = handlerTs sig.prev (gettimeMonFrac t) := rfl
  refine ⟨⟨chronicle.inv.1, ?_⟩, chronicle.counted, ?_, ?_, chronicle.apart, ?_, ?_, ?_, ⟨chronicle.bookmark.1, ?_⟩,
    stamp.2, ?_⟩
  · exact recordSignal_slotInv chronicle.inv.2 positive.ne' stamp
  · exact counted_record 1 chronicle.countedNew room
  · exact chronicle.packed.record _ 1 positive.ne'
  · exact chronicle.apartNew.record 1 fun slot member => ((chronicle.pastNew slot member).trans_lt increasing).ne
  · exact fun slot member => ((chronicle.past slot member).trans_lt increasing).le
  · intro slot member
    rw [now]
    rw [slots] at member
    rcases mem_recordSignal member with kept | ⟨old, -, rfl⟩
    · exact ((chronicle.pastNew slot kept).trans_lt increasing).le
    · exact (claimSlot_ts ..).le
  · exact (chronicle.bookmark.2.trans_lt increasing).le
  · intro new member pending
    rw [slots] at member
    rcases mem_recordSignal member with kept | ⟨old, -, rfl⟩
    · exact chronicle.newer new kept pending
    · rw [claimSlot_ts]
      exact ⟨chronicle.bookmark.2.trans_lt increasing, fun slot present => (chronicle.past slot present).trans_lt increasing⟩

theorem merge (chronicle : Chronicle sig last)
    (room : ∀ slot ∈ sig.newSignals.slots, slot.numberPending ≠ 0 → countsFull sig.signals.slots slot.signum = false) :
    Chronicle (mergeNewSignals sig) last := by
  have empty := Chronicle.init
  have zero : (mergeNewSignals sig).newSignals.slots = SigTable.zero.slots := rfl
  have idle : ∀ slot ∈ SigTable.zero.slots, slot = SigStatus.zero := fun slot member => List.eq_of_mem_replicate member
  refine ⟨⟨mergeSlots_slotInv chronicle.inv.1 chronicle.inv.2, zero_slotInv⟩, ?_, empty.countedNew, empty.packed, ?_,
    empty.apartNew, ?_, ?_, chronicle.bookmark, chronicle.bounded, ?_⟩
  · exact counted_merge chronicle.counted chronicle.packed chronicle.inv.2 room
  · refine chronicle.apart.merge chronicle.apartNew chronicle.inv.2 fun new member pending slot present => ?_
    exact ((chronicle.newer new member pending).2 slot present).ne
  · intro slot member
    rcases mem_mergeSlots member with kept | ⟨new, present, -, -, same⟩
    · exact chronicle.past slot kept
    · exact same ▸ chronicle.pastNew new present
  · intro slot member
    rw [idle slot member]
    exact chronicle.bookmark.1.trans chronicle.bookmark.2
  · intro new member pending
    rw [idle new member] at pending
    exact absurd rfl pending

theorem markSeen (chronicle : Chronicle sig last) (signum : ℤ) {count : ℤ} (nonneg : 0 ≤ wrap 32 count) :
    Chronicle (sigMarkSeen sig signum count) last := by
  have range := wrap32_range count
  have after : ∀ {slot}, slot ∈ (sigMarkSeen sig signum count).signals.slots → Counted slot ∧ ∃ old ∈ sig.signals.slots,
      slot.signum = old.signum ∧ slot.lastReceivedTs = old.lastReceivedTs ∧ slot.numberPending ≤ old.numberPending :=
    fun member => mem_markSeen_le chronicle.counted range nonneg member
  refine ⟨⟨markSeenSlots_slotInv chronicle.inv.1 range fun _ => nonneg, chronicle.inv.2⟩, fun slot member => (after member).1,
    chronicle.countedNew, chronicle.packed, chronicle.apart.markSeen .., chronicle.apartNew, ?_, chronicle.pastNew,
    chronicle.bookmark, chronicle.bounded, ?_⟩
  · intro slot member
    obtain ⟨-, old, present, -, same, -⟩ := after member
    exact same ▸ chronicle.past old present
  · intro new member pending
    obtain ⟨ahead, others⟩ := chronicle.newer new member pending
    refine ⟨ahead, fun slot cleared => ?_⟩
    obtain ⟨-, old, present, -, same, -⟩ := after cleared
    exact same ▸ others old present

/-- The bookmark moves to a signal that has been merged. -/
theorem advance (chronicle : Chronicle sig last) {event : SigStatus} (member : event ∈ sig.signals.slots)
    (pending : event.numberPending ≠ 0) : Chronicle sig event.lastReceivedTs := by
  have used : event.signum ≠ 0 := fun zero => pending ((chronicle.inv.1 event member).free zero)
  have stamp := (chronicle.inv.1 event member).stamped used
  refine { chronicle with
    bookmark := ⟨stamp.1.le, chronicle.past event member⟩
    newer := fun new present newPending => ?_ }
  obtain ⟨-, others⟩ := chronicle.newer new present newPending
  exact ⟨others event member, others⟩

theorem pendingDistinct (chronicle : Chronicle sig last) : PendingDistinct sig.signals.slots := by
  rw [PendingDistinct, List.pairwise_filter]
  refine List.Pairwise.imp_of_mem ?_ chronicle.apart
  intro a b memberA memberB apart pendingA pendingB
  refine apart ?_ ?_
  · exact ((chronicle.inv.1 a memberA).pending (of_decide_eq_true pendingA)).1
  · exact ((chronicle.inv.1 b memberB).pending (of_decide_eq_true pendingB)).1

/-- The enumeration that starts at the bookmark, or at any other. -/
theorem visits (chronicle : Chronicle sig last) {since : ℤ} (bookmark : Bookmark since) :
    ∃ visited, Visits sig.signals.slots since visited ∧ visited.length < signalStatusSlots + 1 ∧
      ∀ slot, slot ∈ visited ↔ slot ∈ sig.signals.slots ∧ slot.numberPending ≠ 0 ∧ since < slot.lastReceivedTs := by
  obtain ⟨visited, visits, perm, -⟩ := exists_visits chronicle.inv.1 chronicle.pendingDistinct bookmark
  refine ⟨visited, visits, ?_, fun slot => ?_⟩
  · have := (List.length_filter_le (isNewEvent since) sig.signals.slots)
    rw [perm.length_eq, newEvents, ← sig.signals.size]
    omega
  · rw [perm.mem_iff, mem_newEvents chronicle.inv.1 bookmark]
    refine and_congr_right fun member => and_congr_left fun _ => ?_
    have := (chronicle.counted slot member).1
    omega

end Chronicle

/-! ## The loops of `svc_run_active` and `svc_check_sigwake` -/

theorem newEventsSince_visits {visited : List SigStatus} {since : ℤ} (visits : Visits slots since visited)
    {budget : ℕ} (enough : visited.length < budget) : newEventsSince slots budget since = some visited := by
  induction visits generalizing budget with
  | done none =>
    cases budget with
    | zero => simp at enough
    | succ budget => simp only [newEventsSince, none]
  | @next since event rest found later ih =>
    cases budget with
    | zero => simp at enough
    | succ budget => simp only [newEventsSince, found, ih (by simpa using enough), Option.map_some]

/-- `svc_check_sigwake` finds a pending signal of the service, if there is one. -/
theorem Chronicle.checkSigwake {sig : SigState} {last : ℤ} (chronicle : Chronicle sig last) (sigwake : Bool)
    (autostart : ℤ → Bool) : ∃ answer, svcCheckSigwake sig.signals.slots sigwake autostart (signalStatusSlots + 1) = some answer ∧
      (answer = true ↔ sigwake = true ∧ ∃ slot ∈ sig.signals.slots, slot.numberPending ≠ 0 ∧ autostart slot.signum = true) := by
  cases sigwake with
  | false => exact ⟨false, rfl, by simp⟩
  | true =>
    obtain ⟨visited, visits, enough, members⟩ := chronicle.visits (show Bookmark 0 from ⟨le_refl _, by decide⟩)
    refine ⟨_, sigwakeLoop_visits visits autostart enough, ?_⟩
    rw [List.any_eq_true]
    constructor
    · rintro ⟨slot, seen, wakes⟩
      obtain ⟨member, pending, -⟩ := (members slot).mp seen
      exact ⟨rfl, slot, member, pending, wakes⟩
    · rintro ⟨-, slot, member, pending, wakes⟩
      have used : slot.signum ≠ 0 := fun zero => pending ((chronicle.inv.1 slot member).free zero)
      exact ⟨slot, (members slot).mpr ⟨member, pending, ((chronicle.inv.1 slot member).stamped used).1⟩, wakes⟩

end DaemonProxy.Proofs
