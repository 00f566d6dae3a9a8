import DaemonProxy.Proofs.SignalEvents
import Mathlib.Data.Finset.Card

/-! # Counting arrivals through the two tables

Both tables keep their used slots in front, one slot for each signal, so that as long as no more
signals arrive than there are slots, recording a signal changes the count of that signal and no
other. A merge records each used slot of the arrived table once, whatever count it carries.
-/

namespace DaemonProxy.Proofs

open Lib Model

/-- The pending count of a signal: that of its first slot, zero if it has none. -/
def pendingOf (sig : ℤ) : List SigStatus → ℤ
  | [] => 0
  | slot :: rest => if slot.signum = sig then slot.numberPending else pendingOf sig rest

/-- Used slots stand in front and belong to different signals. -/
def Packed (slots : List SigStatus) : Prop :=
  slots.Pairwise fun a b => b.signum ≠ 0 → a.signum ≠ 0 ∧ a.signum ≠ b.signum

/-- A used slot belongs to a known signal, and a free one is empty. -/
structure CountSlot (known : Finset ℤ) (slot : SigStatus) : Prop where
  known : slot.signum ≠ 0 → slot.signum ∈ known
  free : slot.signum = 0 → slot.numberPending = 0
  range : InInt32 slot.numberPending

structure TableInv (known : Finset ℤ) (slots : List SigStatus) : Prop where
  packed : Packed slots
  slot : ∀ slot ∈ slots, CountSlot known slot

variable {known : Finset ℤ} {slot : SigStatus}

theorem TableInv.tail {rest : List SigStatus}
    (inv : TableInv known (slot :: rest)) : TableInv known rest :=
  ⟨(List.pairwise_cons.mp inv.packed).2, fun other member => inv.slot other (List.mem_cons_of_mem _ member)⟩

theorem zero_tableInv (known : Finset ℤ) : TableInv known SigTable.zero.slots where
  packed := List.pairwise_replicate.mpr (.inr (fun used => absurd rfl used))
  slot slot member := by
    obtain rfl := List.eq_of_mem_replicate member
    exact ⟨fun used => absurd rfl used, fun _ => rfl, inInt32_zero⟩

section PendingOf

variable {sig : ℤ} {slots before after : List SigStatus}

theorem pendingOf_append (absent : ∀ slot ∈ before, slot.signum ≠ sig) :
    pendingOf sig (before ++ after) = pendingOf sig after := by
  induction before with
  | nil => rfl
  | cons slot rest ih =>
    simp only [List.cons_append, pendingOf, if_neg (absent slot List.mem_cons_self)]
    exact ih (fun other member => absent other (List.mem_cons_of_mem _ member))

theorem pendingOf_absent (absent : ∀ slot ∈ slots, slot.signum ≠ sig) : pendingOf sig slots = 0 := by
  rw [← List.append_nil slots, pendingOf_append absent]
  rfl

theorem pendingOf_append_congr {after' : List SigStatus} (same : pendingOf sig after = pendingOf sig after') :
    pendingOf sig (before ++ after) = pendingOf sig (before ++ after') := by
  induction before with
  | nil => exact same
  | cons slot rest ih => simp only [List.cons_append, pendingOf, ih]

theorem TableInv.pendingOf_range (inv : TableInv known slots) (sig : ℤ) :
    InInt32 (pendingOf sig slots) := by
  induction slots with
  | nil => exact inInt32_zero
  | cons slot rest ih =>
    simp only [pendingOf]
    split
    · exact (inv.slot slot List.mem_cons_self).range
    · exact ih inv.tail

/-- A used slot of a packed table is the one its signal is looked up in. -/
theorem Packed.pendingOf_eq (packed : Packed slots) (member : slot ∈ slots)
    (used : slot.signum ≠ 0) : pendingOf slot.signum slots = slot.numberPending := by
  obtain ⟨before, after, rfl⟩ := List.append_of_mem member
  have front := (List.pairwise_append.mp packed).2.2
  rw [pendingOf_append fun other present => (front other present slot List.mem_cons_self used).2]
  simp only [pendingOf, if_true]

end PendingOf

/-! ## Recording -/

@[simp] theorem claimSlot_signum (slot : SigStatus) (sig ts : ℤ) : (claimSlot slot sig ts).signum = sig := by
  simp only [claimSlot]
  split
  · assumption
  · rfl

variable {slots : List SigStatus}

/-- The search stops at the first slot that is free or belongs to the signal, or at the last one. -/
theorem recordSignal_claims (sig ts count : ℤ) (nonempty : slots ≠ []) :
    ∃ before slot after, slots = before ++ slot :: after ∧
      (∀ other ∈ before, other.signum ≠ 0 ∧ other.signum ≠ sig) ∧
      (slot.signum = 0 ∨ slot.signum = sig ∨ after = []) ∧
      recordSignal sig ts count slots = before ++ claimSlot slot sig ts :: after := by
  induction slots with
  | nil => exact absurd rfl nonempty
  | cons head rest ih =>
    cases rest with
    | nil => exact ⟨[], head, [], rfl, by simp, .inr (.inr rfl), rfl⟩
    | cons next rest =>
      by_cases here : head.signum = 0 ∨ head.signum = sig
      · refine ⟨[], head, next :: rest, rfl, by simp, here.imp_right .inl, ?_⟩
        simp only [recordSignal, if_pos here, List.nil_append]
      · obtain ⟨before, slot, after, split, skipped, stop, result⟩ := ih (List.cons_ne_nil next rest)
        refine ⟨head :: before, slot, after, congrArg (head :: ·) split, ?_, stop, ?_⟩
        · intro other present
          rcases List.mem_cons.mp present with rfl | tail
          · exact not_or.mp here
          · exact skipped other tail
        · simp only [recordSignal, if_neg here, result, List.cons_append]

variable {sig : ℤ}

/-- Where there is room, the last slot is not taken from another signal. -/
theorem recordSignal_split (ts count : ℤ)
    (room : ∃ slot ∈ slots, slot.signum = 0 ∨ slot.signum = sig) :
    ∃ before slot after, slots = before ++ slot :: after ∧
      (∀ other ∈ before, other.signum ≠ 0 ∧ other.signum ≠ sig) ∧
      (slot.signum = 0 ∨ slot.signum = sig) ∧
      recordSignal sig ts count slots = before ++ claimSlot slot sig ts :: after := by
  obtain ⟨found, member, stops⟩ := room
  obtain ⟨before, slot, after, rfl, skipped, stop, result⟩ := recordSignal_claims sig ts count (List.ne_nil_of_mem member)
  refine ⟨before, slot, after, rfl, skipped, ?_, result⟩
  rcases stop with free | same | rfl
  · exact .inl free
  · exact .inr same
  · rcases List.mem_append.mp member with inFront | last
    · exact absurd stops (not_or.mpr (skipped found inFront))
    · exact List.mem_singleton.mp last ▸ stops

theorem Packed.record (ts count : ℤ) (packed : Packed slots) (used : sig ≠ 0) :
    Packed (recordSignal sig ts count slots) := by
  rcases eq_or_ne slots [] with rfl | nonempty
  · exact .nil
  obtain ⟨before, slot, after, rfl, skipped, stop, result⟩ := recordSignal_claims sig ts count nonempty
  rw [result]
  obtain ⟨front, back, across⟩ := List.pairwise_append.mp packed
  obtain ⟨behind, rest⟩ := List.pairwise_cons.mp back
  refine List.pairwise_append.mpr ⟨front, List.pairwise_cons.mpr ⟨?_, rest⟩, ?_⟩
  · intro other present otherUsed
    rw [claimSlot_signum]
    refine ⟨used, ?_⟩
    -- A used slot behind the claimed one shows that the claimed one was the signal's own.
    rcases stop with free | same | rfl
    · exact absurd free (behind other present otherUsed).1
    · rw [← same]
      exact (behind other present otherUsed).2
    · exact absurd present List.not_mem_nil
  · intro first inFront second inBack
    rcases List.mem_cons.mp inBack with rfl | tail
    · rw [claimSlot_signum]
      exact fun _ => skipped first inFront
    · exact across first inFront second (List.mem_cons_of_mem _ tail)

section Record

variable {known : Finset ℤ} {slots : List SigStatus} {sig : ℤ}

/-- While no more signals are known than there are slots, every known signal finds room. -/
theorem TableInv.room (inv : TableInv known slots) (size : slots.length = signalStatusSlots)
    (few : known.card ≤ signalStatusSlots) (member : sig ∈ known) :
    ∃ slot ∈ slots, slot.signum = 0 ∨ slot.signum = sig := by
  by_contra full
  push Not at full
  -- All sixteen slots then belong to different known signals other than `sig`.
  have distinct : (slots.map SigStatus.signum).Nodup := by
    rw [List.nodup_iff_pairwise_ne, List.pairwise_map]
    exact inv.packed.imp_of_mem fun _ right ordered => (ordered (full _ right).1).2
  have included : (slots.map SigStatus.signum).toFinset ⊆ known.erase sig := by
    intro signum present
    obtain ⟨slot, slotMember, rfl⟩ := List.mem_map.mp (List.mem_toFinset.mp present)
    have other := full slot slotMember
    exact Finset.mem_erase.mpr ⟨other.2, (inv.slot slot slotMember).known other.1⟩
  have counted := Finset.card_le_card included
  rw [List.toFinset_card_of_nodup distinct, List.length_map, size, Finset.card_erase_of_mem member] at counted
  have positive : 0 < known.card := Finset.card_pos.mpr ⟨sig, member⟩
  omega

variable (ts count : ℤ)

/-- Recording a signal keeps the table in order. -/
theorem TableInv.record (inv : TableInv known slots) (used : sig ≠ 0) (member : sig ∈ known) :
    TableInv known (recordSignal sig ts count slots) := by
  refine ⟨inv.packed.record ts count used, ?_⟩
  intro slot present
  rcases mem_recordSignal present with kept | ⟨old, oldMember, rfl⟩
  · exact inv.slot slot kept
  · refine ⟨fun _ => by rwa [claimSlot_signum], fun zero => absurd ((claimSlot_signum ..).symm.trans zero) used, ?_⟩
    simp only [claimSlot]
    split
    · exact wrap32_range _
    · exact inInt32_one

/-- Recording a signal that has room adds one to its own count and leaves every other count alone. -/
theorem Packed.record_pending (room : ∃ slot ∈ slots, slot.signum = 0 ∨ slot.signum = sig) (packed : Packed slots)
    {other : ℤ} (otherUsed : other ≠ 0) :
    pendingOf other (recordSignal sig ts count slots) =
      if other = sig then wrap 32 (pendingOf sig slots + 1) else pendingOf other slots := by
  obtain ⟨before, slot, after, rfl, skipped, stop, result⟩ := recordSignal_split ts count room
  rw [result]
  split
  · next same =>
    subst same
    have notBefore : ∀ slot ∈ before, slot.signum ≠ other := fun slot member => (skipped slot member).2
    rw [pendingOf_append notBefore, pendingOf_append notBefore]
    rcases stop with free | same
    · -- A free slot: nothing of the signal stands behind it either.
      have absent : ∀ found ∈ slot :: after, found.signum ≠ other := by
        intro found member same
        rcases List.mem_cons.mp member with rfl | tail
        · exact otherUsed (same.symm.trans free)
        · have behind := (List.pairwise_cons.mp (List.pairwise_append.mp packed).2.1).1 found tail
          exact absurd free (behind (same ▸ otherUsed)).1
      rw [pendingOf_absent absent]
      simp only [pendingOf, claimSlot, if_neg (absent slot List.mem_cons_self), if_true]
      exact (wrap32_eq inInt32_one).symm
    · simp only [pendingOf, claimSlot, if_pos same]
  · next differs =>
    apply pendingOf_append_congr
    have wasNot : slot.signum ≠ other := by
      rcases stop with free | same
      · exact fun same => otherUsed (same.symm.trans free)
      · exact fun equal => differs (equal.symm.trans same)
    simp only [pendingOf, claimSlot_signum, if_neg (Ne.symm differs), if_neg wasNot]

end Record

/-! ## Merging -/

/-- Whether a table has a slot of the signal. -/
def Holds (slots : List SigStatus) (sig : ℤ) : Prop := ∃ slot ∈ slots, slot.signum = sig

theorem Holds.cons (slot : SigStatus) (holds : Holds slots sig) :
    Holds (slot :: slots) sig := by
  obtain ⟨found, member, equal⟩ := holds
  exact ⟨found, List.mem_cons_of_mem _ member, equal⟩

section Merge

variable {known : Finset ℤ} (few : known.card ≤ signalStatusSlots)

theorem mergeSlots_tableInv {signals arrived : List SigStatus} (inv : TableInv known signals)
    (arrivedInv : TableInv known arrived) :
    TableInv known (mergeSlots signals arrived) := by
  induction arrived generalizing signals with
  | nil => exact inv
  | cons slot rest ih =>
    simp only [mergeSlots]
    split
    · exact inv
    · next pending =>
      have slotInv := arrivedInv.slot slot List.mem_cons_self
      have used : slot.signum ≠ 0 := fun zero => pending (slotInv.free zero)
      exact ih (inv.record _ _ used (slotInv.known used)) arrivedInv.tail

include few

/-- A merge leaves a count alone or adds one to it; it adds one for each signal of the arrived
table if no used slot of that table is idle. -/
theorem mergeSlots_pending {signals arrived : List SigStatus} (inv : TableInv known signals)
    (size : signals.length = signalStatusSlots) (arrivedInv : TableInv known arrived) (used : sig ≠ 0) :
    (pendingOf sig (mergeSlots signals arrived) = pendingOf sig signals ∨
      Holds arrived sig ∧ pendingOf sig (mergeSlots signals arrived) = wrap 32 (pendingOf sig signals + 1)) ∧
    ((∀ slot ∈ arrived, slot.signum ≠ 0 → slot.numberPending ≠ 0) → Holds arrived sig →
      pendingOf sig (mergeSlots signals arrived) = wrap 32 (pendingOf sig signals + 1)) := by
  induction arrived generalizing signals with
  | nil => exact ⟨.inl rfl, fun _ ⟨_, member, _⟩ => absurd member List.not_mem_nil⟩
  | cons slot rest ih =>
    have ordered := (List.pairwise_cons.mp arrivedInv.packed).1
    have slotInv := arrivedInv.slot slot List.mem_cons_self
    simp only [mergeSlots]
    split
    · next idle =>
      refine ⟨.inl rfl, ?_⟩
      rintro seen ⟨found, member, rfl⟩
      -- An idle first slot is free, and then so are all the others.
      have free : slot.signum = 0 := by
        by_contra slotUsed
        exact seen slot List.mem_cons_self slotUsed idle
      rcases List.mem_cons.mp member with rfl | tail
      · exact absurd free used
      · exact absurd free (ordered found tail used).1
    · next pending =>
      have slotUsed : slot.signum ≠ 0 := fun zero => pending (slotInv.free zero)
      have slotKnown := slotInv.known slotUsed
      have room := inv.room size few slotKnown
      have recorded := inv.packed.record_pending slot.lastReceivedTs slot.numberPending room used
      obtain ⟨either, all⟩ := ih (inv.record slot.lastReceivedTs slot.numberPending slotUsed slotKnown)
        ((recordSignal_length ..).trans size) arrivedInv.tail
      by_cases same : sig = slot.signum
      · -- The head is the only slot of the signal, so the rest of the merge leaves its count.
        subst same
        have once : ¬Holds rest slot.signum := by
          rintro ⟨found, member, equal⟩
          exact (ordered found member (equal ▸ used)).2 equal.symm
        have settled := either.resolve_right (fun both => once both.1)
        rw [recorded, if_pos rfl] at settled
        exact ⟨.inr ⟨⟨slot, List.mem_cons_self, rfl⟩, settled⟩, fun _ _ => settled⟩
      · rw [recorded, if_neg same] at either all
        refine ⟨either.imp id (fun both => ⟨both.1.cons slot, both.2⟩), ?_⟩
        rintro seen ⟨found, member, equal⟩
        refine all (fun other present => seen other (List.mem_cons_of_mem _ present)) ⟨found, ?_, equal⟩
        rcases List.mem_cons.mp member with rfl | tail
        · exact absurd equal.symm same
        · exact tail

end Merge

/-! ## Clearing -/

theorem markSeenSlots_signums (signum count : ℤ) (slots : List SigStatus) :
    (markSeenSlots signum count slots).map SigStatus.signum = slots.map SigStatus.signum := by
  induction slots with
  | nil => rfl
  | cons slot rest ih =>
    simp only [markSeenSlots]
    split
    · rfl
    · simp only [List.map_cons, ih]

variable {signum : ℤ}

/-- The loop stops at the first slot of the signal. -/
theorem markSeenSlots_append {count : ℤ} {before : List SigStatus} (first : ∀ earlier ∈ before, earlier.signum ≠ signum) (here : slot.signum = signum) (after : List SigStatus) :
    markSeenSlots signum count (before ++ slot :: after) =
      let left := wrap 32 (slot.numberPending - count)
      before ++ { slot with numberPending := if left < 0 then 0 else left } :: after := by
  induction before with
  | nil => rw [List.nil_append, markSeenSlots, if_pos here]; rfl
  | cons head rest ih =>
    obtain ⟨other, others⟩ := List.forall_mem_cons.mp first
    rw [List.cons_append, markSeenSlots, if_neg other, ih others]
    rfl

theorem markSeenSlots_absent {count : ℤ} (absent : ∀ slot ∈ slots, slot.signum ≠ signum) :
    markSeenSlots signum count slots = slots := by
  induction slots with
  | nil => rfl
  | cons head rest ih =>
    obtain ⟨other, others⟩ := List.forall_mem_cons.mp absent
    rw [markSeenSlots, if_neg other, ih others]

/-- Clearing rewrites one slot and keeps the others. -/
theorem mem_markSeenSlots {count : ℤ}
    (member : slot ∈ markSeenSlots signum count slots) : slot ∈ slots ∨ ∃ old ∈ slots,
      let left := wrap 32 (old.numberPending - count)
      slot = { old with numberPending := if left < 0 then 0 else left } := by
  induction slots with
  | nil => exact .inl member
  | cons head rest ih =>
    simp only [markSeenSlots] at member
    split at member
    · rcases List.mem_cons.mp member with rfl | tail
      · exact .inr ⟨head, List.mem_cons_self, rfl⟩
      · exact .inl (List.mem_cons_of_mem _ tail)
    · rcases List.mem_cons.mp member with rfl | tail
      · exact .inl List.mem_cons_self
      · rcases ih tail with kept | ⟨old, present, same⟩
        · exact .inl (List.mem_cons_of_mem _ kept)
        · exact .inr ⟨old, List.mem_cons_of_mem _ present, same⟩

/-- Clearing by a positive count keeps the table in order. -/
theorem TableInv.markSeen (inv : TableInv known slots)
    (signum : ℤ) {count : ℤ} (countRange : InInt32 count) (positive : 0 < count) :
    TableInv known (markSeenSlots signum count slots) := by
  constructor
  · have packed := inv.packed
    rw [Packed, ← List.pairwise_map (f := SigStatus.signum) (R := fun a b => b ≠ 0 → a ≠ 0 ∧ a ≠ b)] at packed ⊢
    rwa [markSeenSlots_signums]
  · intro slot member
    rcases mem_markSeenSlots member with kept | ⟨old, present, rfl⟩
    · exact inv.slot slot kept
    · have oldInv := inv.slot old present
      refine ⟨oldInv.known, ?_, ?_⟩
      · intro zero
        have left : wrap 32 (0 - count) = 0 - count := wrap32_eq ⟨by have := countRange.2; omega, by omega⟩
        simp only [oldInv.free zero, left]
        split <;> omega
      · dsimp only
        split
        · exact inInt32_zero
        · exact wrap32_range _

/-- A clear leaves the count of every other signal alone. -/
theorem markSeenSlots_other (other : sig ≠ signum) (count : ℤ) (slots : List SigStatus) :
    pendingOf sig (markSeenSlots signum count slots) = pendingOf sig slots := by
  induction slots with
  | nil => rfl
  | cons slot rest ih =>
    simp only [markSeenSlots]
    split
    · next here => simp only [pendingOf, here, if_neg (Ne.symm other)]
    · simp only [pendingOf, ih]

/-- A clear by a positive count takes it off, down to zero. -/
theorem markSeenSlots_self {count : ℤ}
    (nonneg : 0 ≤ pendingOf signum slots) (range : InInt32 (pendingOf signum slots))
    (countRange : InInt32 count) (positive : 0 < count) :
    pendingOf signum (markSeenSlots signum count slots) = max 0 (pendingOf signum slots - count) := by
  induction slots with
  | nil =>
    simp only [markSeenSlots, pendingOf]
    omega
  | cons slot rest ih =>
    by_cases here : slot.signum = signum
    · simp only [pendingOf, if_pos here] at nonneg range
      have left : wrap 32 (slot.numberPending - count) = slot.numberPending - count :=
        wrap32_eq ⟨by have := countRange.2; omega, by have := range.2; omega⟩
      simp only [markSeenSlots, here, if_true, pendingOf, left]
      split <;> omega
    · simp only [pendingOf, if_neg here] at nonneg range
      simp only [markSeenSlots, if_neg here, pendingOf, ih nonneg range]

end DaemonProxy.Proofs
