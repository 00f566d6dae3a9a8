import DaemonProxy.Proofs.TriggerParsing

/-! # Numbers in command arguments

The digit loop of `strseg_atoi` computes the integer that its digits denote, wrapped to 64 bits.
-/

namespace DaemonProxy.Proofs

open Lib Model

def isDigit (c : UInt8) : Bool := 48 ≤ c.toNat ∧ c.toNat ≤ 57

def appendDigit (value : ℤ) (c : UInt8) : ℤ := value * 10 + (c.toNat - 48)

/-- The integer that a row of decimal digits denotes. -/
def decimal (digits : Bytes) : ℤ := digits.foldl appendDigit 0

/-- The sign of a string and what follows it. -/
def signed (string : Bytes) : ℤ × Bytes :=
  match string with
  | 45 :: rest => (-1, rest)
  | _ => (1, string)

/-- The integer that a string starts with, if it starts with an optional minus and a digit, and the characters after it. -/
def denoted (string : Bytes) : Option (ℤ × Bytes) :=
  if (signed string).2.takeWhile isDigit = [] then none
  else some ((signed string).1 * decimal ((signed string).2.takeWhile isDigit), (signed string).2.dropWhile isDigit)

theorem digit?_eq (c : UInt8) : digit? c = if isDigit c then some ((c.toNat : ℤ) - 48) else none := by
  simp [digit?, isDigit]

theorem wrap_appendDigit (value : ℤ) (c : UInt8) : wrap 64 (appendDigit (wrap 64 value) c) = wrap 64 (appendDigit value c) := by
  simp only [appendDigit, wrap]
  rw [← Int.bmod_add_bmod, Int.bmod_mul_bmod, Int.bmod_add_bmod]

theorem atoiDigits_eq (accum : ℤ) (count : ℕ) (body : Bytes) :
    atoiDigits accum count body =
      ((body.takeWhile isDigit).foldl (fun value c => wrap 64 (appendDigit value c)) accum,
        count + (body.takeWhile isDigit).length, body.dropWhile isDigit) := by
  induction body generalizing accum count with
  | nil => rfl
  | cons c rest ih =>
    rw [atoiDigits, digit?_eq]
    by_cases digit : isDigit c
    · simp only [digit, if_true, ih, List.takeWhile_cons_of_pos, List.dropWhile_cons_of_pos, List.foldl_cons, List.length_cons, appendDigit]
      rw [Nat.add_right_comm, Nat.add_assoc]
    · simp [digit]

theorem strsegAtoi_signed (string : Bytes) : strsegAtoi string =
    match atoiDigits 0 0 (signed string).2 with
    | (_, 0, _) => none
    | (accum, _, rest) => some (wrap 64 (accum * (signed string).1), rest) := rfl

/-- `strseg_atoi` takes the characters of the denoted integer and yields it wrapped. -/
theorem strsegAtoi_eq (string : Bytes) :
    strsegAtoi string = (denoted string).map fun (value, rest) => (wrap 64 value, rest) := by
  have folded : ((signed string).2.takeWhile isDigit).foldl (fun value c => wrap 64 (appendDigit value c)) 0 =
      wrap 64 (decimal ((signed string).2.takeWhile isDigit)) :=
    foldl_wrap wrap_appendDigit 0 _
  rw [strsegAtoi_signed, atoiDigits_eq, folded, Nat.zero_add, denoted]
  cases (signed string).2.takeWhile isDigit with
  | nil => rfl
  | cons c rest => simp [wrap_mul, mul_comm (signed string).1]

theorem decimal_nonneg {digits : Bytes} (all : ∀ c ∈ digits, isDigit c) : 0 ≤ decimal digits := by
  have fold (value : ℤ) (start : 0 ≤ value) : 0 ≤ digits.foldl appendDigit value := by
    induction digits generalizing value with
    | nil => exact start
    | cons c rest ih =>
      have digit := all c List.mem_cons_self
      simp only [isDigit, Bool.decide_and, Bool.and_eq_true, decide_eq_true_eq] at digit
      apply ih (fun c' member => all c' (List.mem_cons_of_mem _ member))
      rw [appendDigit]
      omega
  exact fold 0 le_rfl

theorem denoted_of_digit {c : UInt8} (digit : isDigit c) (rest : Bytes) :
    denoted (c :: rest) = some (decimal ((c :: rest).takeWhile isDigit), (c :: rest).dropWhile isDigit) := by
  have unsigned : signed (c :: rest) = (1, c :: rest) := by
    unfold signed
    split
    · next minus => cases minus; exact nomatch digit
    · rfl
  rw [denoted, unsigned, if_neg (by simp [digit]), one_mul]

/-- A string that starts with a digit is a number when it consists of digits. -/
theorem strsegAtoi_digits {c : UInt8} (digit : isDigit c) (rest : Bytes) (value : ℤ) :
    strsegAtoi (c :: rest) = some (value, []) ↔
      (∀ d ∈ c :: rest, isDigit d) ∧ value = wrap 64 (decimal (c :: rest)) := by
  rw [strsegAtoi_eq, denoted_of_digit digit, Option.map_some, Option.some_inj, Prod.mk.injEq, List.dropWhile_eq_nil_iff, and_comm]
  refine and_congr_right fun all => ?_
  rw [List.takeWhile_eq_self_iff.mpr all, eq_comm]

/-! ## Signals -/

/-- A table of signals as the generated one is: each name is that of one signal, has at most eight bytes, starts with no digit
and has lost its `SIG`. -/
structure NameTable (sigList : List SigListItem) : Prop where
  nonempty : ∀ item ∈ sigList, item.signame ≠ []
  length : ∀ item ∈ sigList, item.signame.length ≤ 8
  noNul : ∀ item ∈ sigList, 0 ∉ item.signame
  letter : ∀ item ∈ sigList, ∀ c ∈ item.signame.head?, isDigit c = false
  bare : ∀ item ∈ sigList, ¬bytesOf "SIG" <+: item.signame
  single : ∀ item ∈ sigList, ∀ other ∈ sigList, item.signame = other.signame → item.signum = other.signum

/-- The string is the name of the entry, with or without `SIG` in front. -/
def Spells (item : SigListItem) (arg : Bytes) : Prop := arg = item.signame ∨ arg = bytesOf "SIG" ++ item.signame

instance (item : SigListItem) (arg : Bytes) : Decidable (Spells item arg) := inferInstanceAs (Decidable (_ ∨ _))

namespace NameTable

variable {sigList : List SigListItem} (table : NameTable sigList) {item : SigListItem} {arg : Bytes}
include table

theorem dropSigPrefix_eq (member : item ∈ sigList) (spells : Spells item arg) : dropSigPrefix arg = item.signame := by
  rcases spells with rfl | rfl
  · unfold dropSigPrefix
    split
    · next c rest name => exact absurd ⟨c :: rest, name.symm⟩ (table.bare item member)
    · rfl
  · cases name : item.signame with
    | nil => exact absurd name (table.nonempty item member)
    | cons c rest => rfl

theorem sigNumByName_eq (member : item ∈ sigList) (spells : Spells item arg) : sigNumByName sigList arg = item.signum := by
  have name := table.dropSigPrefix_eq member spells
  rw [sigNumByName, name, if_neg (not_lt.mpr (table.length item member))]
  cases found : sigList.find? fun other => padName other.signame = padName item.signame with
  | none => simpa using List.find?_eq_none.mp found item member
  | some other =>
    have otherMember := List.mem_of_find?_eq_some found
    have same := List.find?_some found
    have padded : padName other.signame = padName item.signame := of_decide_eq_true same
    rw [padName_inj (table.noNul other otherMember) (table.noNul item member)] at padded
    exact table.single other otherMember item member padded

theorem not_spells_digit {c : UInt8} (digit : isDigit c) (rest : Bytes) (member : item ∈ sigList) : ¬Spells item (c :: rest) := by
  rintro (name | name)
  · have letter := table.letter item member c (by rw [← name]; rfl)
    exact nomatch digit.symm.trans letter
  · obtain rfl : c = 83 := congrArg (fun text => text.headD 0) name
    exact nomatch digit

end NameTable

theorem sigNumByName_nonneg (sigList : List SigListItem) (name : Bytes) : 0 ≤ sigNumByName sigList name := by
  rw [sigNumByName]
  split
  · rfl
  · split
    · next item _ => exact item.signum_pos.le
    · rfl

end DaemonProxy.Proofs
