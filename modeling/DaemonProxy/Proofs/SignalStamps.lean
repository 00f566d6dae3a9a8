import DaemonProxy.Proofs.SignalEvents

/-! # The timestamps of the handler

`sig_handler` compares a reading with the timestamp it recorded last, and moves on by one when the two are equal. While no
reading is below the last timestamp, that is the larger of the reading and the successor of the last timestamp.
-/

namespace DaemonProxy.Proofs

open Lib Model

/-- The timestamps that the handler records in a run. -/
def recorded (sigList : List SigListItem) (s : SigState) : List SigEvent → List ℤ
  | [] => []
  | .arrive sig positive t :: rest =>
      (sigHandler s sig t).prev :: recorded sigList (sigStep sigList s (.arrive sig positive t)) rest
  | event :: rest => recorded sigList (sigStep sigList s event) rest

/-- The clock readings of the handler. -/
def readings (events : List SigEvent) : List Timespec :=
  events.filterMap fun
    | .arrive _ _ t => some t
    | _ => none

/-- The timestamps of successive readings. -/
def stamps (prev : ℤ) : List Timespec → List ℤ
  | [] => []
  | t :: rest => handlerTs prev (gettimeMonFrac t) :: stamps (handlerTs prev (gettimeMonFrac t)) rest

/-- The timestamps depend on nothing but the readings. -/
theorem recorded_eq (sigList : List SigListItem) (s : SigState) (events : List SigEvent) :
    recorded sigList s events = stamps s.prev (readings events) := by
  induction events generalizing s with
  | nil => rfl
  | cons event rest ih =>
    cases event with
    | arrive sig positive t => exact congrArg _ (ih _)
    | merge => exact ih _
    | clear command =>
      have kept : (sigStep sigList s (.clear command)).prev = s.prev := by
        simp only [sigStep, ctlCmdSignalClear]
        split <;> rfl
      exact (ih _).trans (congrArg (stamps · _) kept)

theorem stamps_stamp (prev : ℤ) (times : List Timespec) : ∀ ts ∈ stamps prev times, Stamp ts := by
  induction times generalizing prev with
  | nil => nofun
  | cons t rest ih => exact List.forall_mem_cons.mpr ⟨handlerTs_stamp prev t, ih _⟩

/-- A timestamp is later than the last one exactly if the reading is not below that. -/
theorem handlerTs_later {prev : ℤ} (nonneg : 0 ≤ prev) (t : Timespec) :
    prev < handlerTs prev (gettimeMonFrac t) ↔ prev ≤ gettimeMonFrac t := by
  obtain ⟨low, -⟩ := gettimeMonFrac_range t
  rw [handlerTs_reading]
  split_ifs <;> omega

theorem handlerTs_eq_max {prev : ℤ} (nonneg : 0 ≤ prev) {t : Timespec} (ahead : prev ≤ gettimeMonFrac t) :
    handlerTs prev (gettimeMonFrac t) = max (prev + 1) (gettimeMonFrac t) := by
  rw [handlerTs_reading]
  split_ifs <;> omega

/-- Between two readings, which come with their positions, there are at most as many others as the clock has advanced. -/
def FarEnough (earlier later : ℤ × ℕ) : Prop := (later.2 : ℤ) - earlier.2 - 1 ≤ later.1 - earlier.1

/-- The last timestamp stands for the readings so far: it is the earliest time at which no reading may follow any more. -/
theorem stamps_increasing_iff (times : List Timespec) (prev : ℤ) (nonneg : 0 ≤ prev) (place : ℕ) :
    (prev :: stamps prev times).Pairwise (· < ·) ↔
      ((prev :: times.map gettimeMonFrac).zipIdx place).Pairwise FarEnough := by
  induction times generalizing prev place with
  | nil => simp [stamps]
  | cons t rest ih =>
    rw [stamps, List.pairwise_cons_cons_iff_of_trans, handlerTs_later nonneg]
    by_cases ahead : prev ≤ gettimeMonFrac t
    · rw [ih _ (handlerTs_stamp prev t).1.le (place + 1), handlerTs_eq_max nonneg ahead]
      simp only [List.map_cons, List.zipIdx_cons, List.pairwise_cons, List.forall_mem_cons, ahead, true_and]
      have both (later : ℤ × ℕ) : FarEnough (max (prev + 1) (gettimeMonFrac t), place + 1) later ↔
          FarEnough (prev, place) later ∧ FarEnough (gettimeMonFrac t, place + 1) later := by
        simp only [FarEnough]
        omega
      have first : FarEnough (prev, place) (gettimeMonFrac t, place + 1) := by
        simp only [FarEnough]
        omega
      simp only [both, first, true_and, forall_and, and_assoc]
    · refine iff_of_false (fun increasing => ahead increasing.1) ?_
      intro apart
      have first := (List.pairwise_cons.mp apart).1 (gettimeMonFrac t, place + 1) (by simp [List.zipIdx_cons])
      simp only [FarEnough] at first
      omega

end DaemonProxy.Proofs
