import DaemonProxy.Model.StrSeg

/-! # Signal bookkeeping (`signal.c`)

The handler counts arrivals in `new_signals[]`, the main loop folds that table into `signals[]`,
and `signal.clear` takes counts off again. A table is a list of exactly `SIGNAL_STATUS_SLOTS`
slots; a slot whose `signum` is zero is free. The self-pipe and the signal mask, which only wake
the main loop, are left out.
-/

namespace DaemonProxy.Model

open Lib

/-- `sig_status_t`. -/
structure SigStatus where
  signum : ℤ
  lastReceivedTs : ℤ
  numberPending : ℤ
deriving DecidableEq, Repr

/-- `SIGNAL_STATUS_SLOTS`. -/
def signalStatusSlots : ℕ := 16

/-- The zero-filled slot. -/
def SigStatus.zero : SigStatus := ⟨0, 0, 0⟩

/-- An array of `sig_status_t`, whose size is fixed by its declaration. -/
structure SigTable where
  slots : List SigStatus
  size : slots.length = signalStatusSlots

/-- The zero-filled array. -/
def SigTable.zero : SigTable := ⟨List.replicate signalStatusSlots .zero, List.length_replicate⟩

/-- What `record_signal` stores into the slot its search stopped at. -/
def claimSlot (slot : SigStatus) (sig ts : ℤ) : SigStatus :=
  if slot.signum = sig then
    { slot with lastReceivedTs := ts, numberPending := wrap 32 (slot.numberPending + 1) }
  else ⟨sig, ts, 1⟩

/-- `record_signal`. The search stops at a free slot, at the slot of `sig`, or at the last slot.
The argument `count` is accepted and not used. -/
def recordSignal (sig ts count : ℤ) : List SigStatus → List SigStatus
  | [] => []
  | [last] => [claimSlot last sig ts]
  | slot :: next :: rest =>
      if slot.signum = 0 ∨ slot.signum = sig then claimSlot slot sig ts :: next :: rest
      else slot :: recordSignal sig ts count (next :: rest)

theorem recordSignal_length (sig ts count : ℤ) (slots : List SigStatus) :
    (recordSignal sig ts count slots).length = slots.length := by
  induction slots with
  | nil => rfl
  | cons slot rest ih =>
    cases rest with
    | nil => rfl
    | cons next rest =>
      simp only [recordSignal]
      split
      · rfl
      · simp only [List.length_cons, ih]

/-- A reading of `CLOCK_MONOTONIC`, counted from boot. -/
structure Timespec where
  sec : ℕ
  nsec : ℕ
  sec_lt : sec < 2 ^ 31
  nsec_lt : nsec < 1000000000

theorem zero_lt_nsecs : 0 < 1000000000 := by decide

/-- A reading some seconds after boot. -/
def Timespec.ofSeconds (sec : ℕ) : Timespec := ⟨sec % 2 ^ 31, 0, Nat.mod_lt _ (by decide), zero_lt_nsecs⟩

/-- `gettime_mon_frac`: the reading as a 32.32 fixed-point number. -/
def gettimeMonFrac (t : Timespec) : ℤ :=
  t.sec * 4294967296 + (t.nsec * 4294967296 / 1000000000 % 4294967296 : ℕ)

/-- The two tables and the `static` timestamp of `sig_handler`. -/
structure SigState where
  signals : SigTable
  newSignals : SigTable
  prev : ℤ

/-- The state `sig_init` leaves behind. -/
def SigState.init : SigState := ⟨.zero, .zero, 0⟩

/-- The timestamp `sig_handler` records: never the previous one, never zero. -/
def handlerTs (prev now : ℤ) : ℤ :=
  let now := if now = prev then wrap 64 (now + 1) else now
  if now = 0 then wrap 64 (now + 1) else now

/-- `sig_handler` for a signal delivered to the main process. -/
def sigHandler (s : SigState) (sig : ℤ) (t : Timespec) : SigState :=
  let now := handlerTs s.prev (gettimeMonFrac t)
  { s with
    newSignals := ⟨recordSignal sig now 1 s.newSignals.slots,
      (recordSignal_length ..).trans s.newSignals.size⟩
    prev := now }

/-- The loop of `merge_new_signals` over `new_signals[]`, up to the first slot with no arrival. -/
def mergeSlots (signals : List SigStatus) : List SigStatus → List SigStatus
  | [] => signals
  | slot :: rest =>
      if slot.numberPending = 0 then signals
      else mergeSlots
        (recordSignal slot.signum slot.lastReceivedTs slot.numberPending signals) rest

theorem mergeSlots_length (signals arrived : List SigStatus) :
    (mergeSlots signals arrived).length = signals.length := by
  induction arrived generalizing signals with
  | nil => rfl
  | cons slot rest ih =>
    simp only [mergeSlots]
    split
    · rfl
    · rw [ih, recordSignal_length]

/-- `merge_new_signals`, which runs with every signal blocked. -/
def mergeNewSignals (s : SigState) : SigState :=
  { s with
    signals := ⟨mergeSlots s.signals.slots s.newSignals.slots,
      (mergeSlots_length ..).trans s.signals.size⟩
    newSignals := .zero }

/-- A timestamp is later than another when their wrapped difference is positive. -/
def tsAfter (later earlier : ℤ) : Prop := 0 < wrap 64 (later - earlier)

instance (later earlier : ℤ) : Decidable (tsAfter later earlier) :=
  inferInstanceAs (Decidable (0 < wrap 64 (later - earlier)))

/-- Whether the loop of `sig_get_new_events` considers a slot at all. -/
def isNewEvent (since : ℤ) (slot : SigStatus) : Bool :=
  0 < slot.numberPending ∧ (since = 0 ∨ tsAfter slot.lastReceivedTs since)

/-- One iteration of the loop of `sig_get_new_events`. -/
def pickOldest (since : ℤ) (oldest : Option SigStatus) (slot : SigStatus) : Option SigStatus :=
  if isNewEvent since slot ∧ (∀ o ∈ oldest, tsAfter o.lastReceivedTs slot.lastReceivedTs)
  then some slot else oldest

/-- `sig_get_new_events`: the slot whose fields it copies out, or `none` when it returns false. -/
def sigGetNewEvents (slots : List SigStatus) (since : ℤ) : Option SigStatus :=
  slots.foldl (pickOldest since) none

/-- The loop of `sig_mark_seen`, which stops at the first slot of `signum`. -/
def markSeenSlots (signum count : ℤ) : List SigStatus → List SigStatus
  | [] => []
  | slot :: rest =>
      if slot.signum = signum then
        let left := wrap 32 (slot.numberPending - count)
        { slot with numberPending := if left < 0 then 0 else left } :: rest
      else slot :: markSeenSlots signum count rest

theorem markSeenSlots_length (signum count : ℤ) (slots : List SigStatus) :
    (markSeenSlots signum count slots).length = slots.length := by
  induction slots with
  | nil => rfl
  | cons slot rest ih =>
    simp only [markSeenSlots]
    split
    · rfl
    · simp only [List.length_cons, ih]

/-- `sig_mark_seen`, whose `count` is an `int`: a wider argument is truncated by the call. -/
def sigMarkSeen (s : SigState) (signum count : ℤ) : SigState :=
  { s with signals := ⟨markSeenSlots signum (wrap 32 count) s.signals.slots,
      (markSeenSlots_length ..).trans s.signals.size⟩ }

/-- One entry of the generated `sig_list[]`; the entry with number zero that ends it is left out. -/
structure SigListItem where
  signum : ℤ
  signame : Bytes
  signum_pos : 0 < signum

/-- The table generated from `sig_list.txt` where the numbers are those of Linux on x86-64. Names
the platform does not define have no entry. -/
def linuxSigList : List SigListItem :=
  [⟨6, bytesOf "ABRT", by decide⟩, ⟨14, bytesOf "ALRM", by decide⟩, ⟨7, bytesOf "BUS", by decide⟩,
   ⟨17, bytesOf "CHLD", by decide⟩, ⟨17, bytesOf "CLD", by decide⟩, ⟨18, bytesOf "CONT", by decide⟩,
   ⟨8, bytesOf "FPE", by decide⟩, ⟨1, bytesOf "HUP", by decide⟩, ⟨4, bytesOf "ILL", by decide⟩,
   ⟨2, bytesOf "INT", by decide⟩, ⟨29, bytesOf "IO", by decide⟩, ⟨6, bytesOf "IOT", by decide⟩,
   ⟨9, bytesOf "KILL", by decide⟩, ⟨13, bytesOf "PIPE", by decide⟩, ⟨29, bytesOf "POLL", by decide⟩,
   ⟨27, bytesOf "PROF", by decide⟩, ⟨30, bytesOf "PWR", by decide⟩, ⟨3, bytesOf "QUIT", by decide⟩,
   ⟨11, bytesOf "SEGV", by decide⟩, ⟨16, bytesOf "STKFLT", by decide⟩, ⟨19, bytesOf "STOP", by decide⟩,
   ⟨31, bytesOf "SYS", by decide⟩, ⟨15, bytesOf "TERM", by decide⟩, ⟨5, bytesOf "TRAP", by decide⟩,
   ⟨20, bytesOf "TSTP", by decide⟩, ⟨21, bytesOf "TTIN", by decide⟩, ⟨22, bytesOf "TTOU", by decide⟩,
   ⟨23, bytesOf "URG", by decide⟩, ⟨10, bytesOf "USR1", by decide⟩, ⟨12, bytesOf "USR2", by decide⟩,
   ⟨26, bytesOf "VTALRM", by decide⟩, ⟨28, bytesOf "WINCH", by decide⟩, ⟨24, bytesOf "XCPU", by decide⟩,
   ⟨25, bytesOf "XFSZ", by decide⟩]

/-- The eight zero-padded bytes two names are compared by. -/
def padName (name : Bytes) : Bytes := name ++ List.replicate (8 - name.length) 0

/-- The name without its `SIG`. -/
def dropSigPrefix : Bytes → Bytes
  | 83 :: 73 :: 71 :: c :: rest => c :: rest
  | name => name

/-- `sig_num_by_name`: zero when there is no such name. -/
def sigNumByName (sigList : List SigListItem) (name : Bytes) : ℤ :=
  let name := dropSigPrefix name
  if 8 < name.length then 0
  else match sigList.find? (fun item => padName item.signame = padName name) with
    | some item => item.signum
    | none => 0

end DaemonProxy.Model
