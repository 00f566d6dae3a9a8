import DaemonProxy.Proofs.Numbers

/-! # Numbers and signals in command arguments

What a command argument is taken for, against what it says.
-/

namespace DaemonProxy.Soundness

open Lib Model Proofs

/-! ## Integers -/

/-- `strseg_atoi` yields the integer in front of the string and what follows it, if there is one and it fits in 64 bits, and
refuses the string otherwise. -/
def ReadsExactly (string : Bytes) : Prop :=
  strsegAtoi string = (denoted string).filter fun number => InInt64 number.1

/-- A string is read exactly if and only if the integer in front of it, if there is one, fits in 64 bits. The integer that a
command takes from such an argument is the one that the argument denotes. -/
theorem atoi_exact_iff (string : Bytes) :
    (ReadsExactly string ↔ ∀ number ∈ denoted string, InInt64 number.1) ∧
    ∀ command value, ctlPeekArg command = some string → (∀ number ∈ denoted string, InInt64 number.1) →
      (ctlGetArgInt command).2 = .ok value → denoted string = some (value, []) := by
  have reads : ReadsExactly string ↔ ∀ number ∈ denoted string, InInt64 number.1 := by
    rw [ReadsExactly, strsegAtoi_eq]
    cases denoted string with
    | none => simp
    | some number =>
      obtain ⟨value, rest⟩ := number
      simp only [Option.map_some, Option.mem_some_iff, forall_eq']
      by_cases fits : InInt64 value
      · simp [Option.filter, fits, wrap64_eq]
      · simp [Option.filter, fits]
  refine ⟨reads, ?_⟩
  intro command value next fits accepted
  cases command with
  | none => cases next
  | some text =>
    obtain rfl : (splitAtSep tab text).1 = string := Option.some_inj.mp next
    have exact := reads.mpr fits
    simp only [ctlGetArgInt, strsegTokNext, Option.map_some] at accepted
    split at accepted
    · next read =>
      cases accepted
      rw [exact] at read
      exact (Option.filter_eq_some_iff.mp read).1
    · cases accepted

/-- Two guard codes that differ by 2^64 are taken for the same number. -/
theorem atoi_wraps :
    ¬ReadsExactly (bytesOf "18446744073709551617") ∧
      ctlGetArgInt (some (bytesOf "18446744073709551617")) = ctlGetArgInt (some (bytesOf "1")) ∧
      (ctlGetArgInt (some (bytesOf "1"))).2 = .ok 1 := by
  have read : strsegAtoi (bytesOf "18446744073709551617") = some (1, []) := by decide +kernel
  have meant : denoted (bytesOf "18446744073709551617") = some (18446744073709551617, []) := by decide +kernel
  refine ⟨?_, by decide +kernel, by decide +kernel⟩
  rw [ReadsExactly, read, meant]
  decide

/-! ## Signals -/

/-- The argument says which signal it is: it is a decimal number below 65536, or the name of an entry of the table. -/
def NamesSignal (sigList : List SigListItem) (arg : Bytes) (signum : ℤ) : Prop :=
  (arg ≠ [] ∧ (∀ c ∈ arg, isDigit c) ∧ decimal arg = signum ∧ signum < 65536) ∨
    ∃ item ∈ sigList, item.signum = signum ∧ Spells item arg

instance (sigList : List SigListItem) (arg : Bytes) (signum : ℤ) : Decidable (NamesSignal sigList arg signum) :=
  inferInstanceAs (Decidable (_ ∨ _))

/-- The argument is empty, or starts with a digit and does not wrap to a number below 65536, or is a name of the table. -/
def SignalReadable (sigList : List SigListItem) (arg : Bytes) : Prop :=
  match arg with
  | [] => True
  | c :: _ =>
      if isDigit c then ¬((∀ d ∈ arg, isDigit d) ∧ 65536 ≤ decimal arg ∧ decimal arg % 18446744073709551616 < 65536)
      else ∃ item ∈ sigList, Spells item arg

theorem wrap64_below {value : ℤ} : 0 ≤ wrap 64 value ∧ wrap 64 value < 65536 ↔ value % 18446744073709551616 < 65536 := by
  simp only [wrap, Int.bmod]
  split <;> omega

/-- A number in front decides: the argument is accepted with the wrapped value of its digits. -/
theorem getArgSignal_digits (sigList : List SigListItem) {command : StrSeg} {c : UInt8} {name : Bytes} {rest : StrSeg}
    (next : strsegTokNext command tab = some (c :: name, rest)) (digit : isDigit c) (signum : ℤ) :
    (ctlGetArgSignal sigList command).2 = .ok signum ↔
      (∀ d ∈ c :: name, isDigit d) ∧ signum = wrap 64 (decimal (c :: name)) ∧ 0 ≤ signum ∧ signum < 65536 := by
  have number : (digit? c).isSome := by rw [digit?_eq, if_pos digit]; rfl
  rw [← and_assoc, ← strsegAtoi_digits digit]
  simp only [ctlGetArgSignal, next, number, if_true]
  split
  · next i read =>
    have shifted : i >>> (16 : ℕ) = i / 65536 := Int.shiftRight_eq_div_pow i 16
    simp only [read, Option.some.injEq, Prod.mk.injEq, and_true, shifted]
    split
    · next invalid =>
      refine iff_of_false nofun ?_
      rintro ⟨rfl, low, high⟩
      omega
    · next valid =>
      simp only [Except.ok.injEq]
      constructor
      · rintro rfl
        exact ⟨rfl, by omega, by omega⟩
      · exact And.left
  · next unread =>
    refine iff_of_false nofun fun both => unread signum both.1

/-- Anything else that is not empty is accepted, with zero for a name that is not known. -/
theorem getArgSignal_name (sigList : List SigListItem) {command : StrSeg} {c : UInt8} {name : Bytes} {rest : StrSeg}
    (next : strsegTokNext command tab = some (c :: name, rest)) (other : isDigit c = false) :
    (ctlGetArgSignal sigList command).2 = .ok (sigNumByName sigList (c :: name)) := by
  have noNumber : ¬(digit? c).isSome := by rw [digit?_eq, other]; nofun
  simp only [ctlGetArgSignal, next]
  rw [if_neg noNumber, if_neg (not_lt.mpr (sigNumByName_nonneg sigList _))]

/-- An argument is accepted as exactly the signal that it names, if it names one, if and only if it is readable. -/
theorem signal_argument_iff {sigList : List SigListItem} (table : NameTable sigList) {command : StrSeg} {arg : Bytes}
    {rest : StrSeg} (next : strsegTokNext command tab = some (arg, rest)) :
    (∀ signum, (ctlGetArgSignal sigList command).2 = .ok signum ↔ NamesSignal sigList arg signum) ↔
      SignalReadable sigList arg := by
  match arg with
  | [] =>
    refine iff_of_true (fun signum => iff_of_false ?_ ?_) trivial
    · simp [ctlGetArgSignal, next]
    · rintro (⟨empty, -⟩ | ⟨item, member, -, name | name⟩)
      · exact empty rfl
      · exact table.nonempty item member name.symm
      · exact nomatch name
  | c :: name =>
    rw [SignalReadable]
    by_cases digit : isDigit c
    · rw [if_pos digit]
      have names (signum : ℤ) : NamesSignal sigList (c :: name) signum ↔
          (∀ d ∈ c :: name, isDigit d) ∧ signum = decimal (c :: name) ∧ signum < 65536 := by
        constructor
        · rintro (⟨-, all, value, below⟩ | ⟨item, member, -, spells⟩)
          · exact ⟨all, value.symm, below⟩
          · exact absurd spells (table.not_spells_digit digit name member)
        · rintro ⟨all, value, below⟩
          exact .inl ⟨nofun, all, value.symm, below⟩
      simp only [getArgSignal_digits sigList next digit, names, and_congr_right_iff]
      constructor
      · rintro exact ⟨all, large, wraps⟩
        obtain ⟨low, high⟩ := wrap64_below.mpr wraps
        have same := ((exact _ all).mp ⟨rfl, low, high⟩)
        omega
      · intro readable signum all
        have nonneg := decimal_nonneg all
        by_cases large : 65536 ≤ decimal (c :: name)
        · have outside : ¬decimal (c :: name) % 18446744073709551616 < 65536 := fun wraps => readable ⟨all, large, wraps⟩
          rw [← wrap64_below] at outside
          refine iff_of_false ?_ (by omega)
          rintro ⟨rfl, low, high⟩
          exact outside ⟨low, high⟩
        · rw [wrap64_eq ⟨by omega, by omega⟩]
          omega
    · rw [if_neg digit]
      rw [Bool.not_eq_true] at digit
      simp only [getArgSignal_name sigList next digit, Except.ok.injEq]
      constructor
      · intro exact
        rcases (exact _).mp rfl with ⟨-, all, -⟩ | ⟨item, member, -, spells⟩
        · exact nomatch digit.symm.trans (all c List.mem_cons_self)
        · exact ⟨item, member, spells⟩
      · rintro ⟨item, member, spells⟩ signum
        rw [table.sigNumByName_eq member spells]
        constructor
        · rintro rfl
          exact .inr ⟨item, member, rfl, spells⟩
        · rintro (⟨-, all, -⟩ | ⟨other, otherMember, rfl, otherSpells⟩)
          · exact nomatch digit.symm.trans (all c List.mem_cons_self)
          · apply table.single item member other otherMember
            rw [← table.dropSigPrefix_eq member spells, table.dropSigPrefix_eq otherMember otherSpells]

theorem linux_nameTable : NameTable linuxSigList := by
  constructor
  all_goals decide +kernel

/-- `SIGTERM` is accepted as signal 15. -/
theorem signal_argument_term :
    NamesSignal linuxSigList (bytesOf "SIGTERM") 15 ∧
      (ctlGetArgSignal linuxSigList (some (bytesOf "SIGTERM\t1"))).2 = .ok 15 := by
  have names : NamesSignal linuxSigList (bytesOf "SIGTERM") 15 := by decide +kernel
  have next : strsegTokNext (some (bytesOf "SIGTERM\t1")) tab = some (bytesOf "SIGTERM", some (bytesOf "1")) := by decide +kernel
  have readable : SignalReadable linuxSigList (bytesOf "SIGTERM") := by
    change ∃ item ∈ linuxSigList, Spells item (bytesOf "SIGTERM")
    decide +kernel
  exact ⟨names, ((signal_argument_iff linux_nameTable next).mpr readable 15).mpr names⟩

/-- `FOO`, which names no signal, is accepted as signal zero, and 2^64 + 9 as signal 9. -/
theorem signal_unknown_accepted :
    (ctlGetArgSignal linuxSigList (some (bytesOf "FOO"))).2 = .ok 0 ∧ ¬NamesSignal linuxSigList (bytesOf "FOO") 0 ∧
      (ctlGetArgSignal linuxSigList (some (bytesOf "18446744073709551625"))).2 = .ok 9 ∧
      ¬NamesSignal linuxSigList (bytesOf "18446744073709551625") 9 := by
  decide +kernel

end DaemonProxy.Soundness
