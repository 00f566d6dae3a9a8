import DaemonProxy.Model.Pool
import DaemonProxy.Proofs.Numbers

/-! # Sizes of the object pools

What the options of a pool come to, against the numbers that their arguments denote.
-/

namespace DaemonProxy.Soundness

open Lib Model Proofs

/-! ## What an argument asks for -/

/-- An argument `N` or `NxM`. -/
structure PoolRequest where
  count : ℤ
  size : Option (ℤ × Option SizeUnit)

/-- The size that a request means. -/
def PoolRequest.meant (request : PoolRequest) (unset : ℤ) : ℤ :=
  match request.size with
  | none => unset
  | some (value, none) => value
  | some (value, some unit) => value * unit.factor ^ unit.power

/-- The size that is read, with its number wrapped to 64 bits. -/
def PoolRequest.read (request : PoolRequest) (unset : ℤ) : ℤ :=
  match request.size with
  | none => unset
  | some (value, none) => wrap 64 value
  | some (value, some unit) => wrap 64 value * unit.mul

theorem mul_range {c : UInt8} {power : ℕ} (letter : unitPower c = some power) (si : Bool) :
    0 < SizeUnit.mul ⟨power, si⟩ ∧ SizeUnit.mul ⟨power, si⟩ ≤ longMax := by
  have small : power < 5 := by
    unfold unitPower at letter
    split_ifs at letter <;> (cases letter; decide)
  have all : ∀ power < 5, ∀ si, 0 < SizeUnit.mul ⟨power, si⟩ ∧ SizeUnit.mul ⟨power, si⟩ ≤ longMax := by decide
  exact all power small si

/-- The division detects every overflow of the product. -/
theorem product_exact {value mul : ℤ} (positive : 0 < mul) (most : mul ≤ longMax)
    (kept : (wrap 64 (value * mul)).tdiv mul = value) : wrap 64 (value * mul) = value * mul := by
  have split := Int.mul_tdiv_add_tmod (wrap 64 (value * mul)) mul
  rw [kept, mul_comm mul value] at split
  have above := Int.tmod_lt_of_pos (wrap 64 (value * mul)) positive
  have below := Int.lt_tmod_of_pos (wrap 64 (value * mul)) positive
  generalize (wrap 64 (value * mul)).tmod mul = rest at split above below
  generalize value * mul = product at split ⊢
  rw [longMax] at most
  simp only [wrap, Int.bmod] at split ⊢
  split at split <;> omega

/-- The letter, in either case, that stands for a power. -/
def UnitLetter (c : UInt8) (power : ℕ) : Prop := (bytesOf "bkmgt")[power]? = some c ∨ (bytesOf "BKMGT")[power]? = some c

/-- The suffixes of a size, with the unit that each names. -/
inductive NamesUnit : Bytes → SizeUnit → Prop
  | none : NamesUnit [] ⟨0, false⟩
  | letter {c : UInt8} {power : ℕ} (names : UnitLetter c power) : NamesUnit [c] ⟨power, false⟩
  | binary {c : UInt8} {power : ℕ} (names : UnitLetter c power) : NamesUnit (c :: bytesOf "iB") ⟨power, false⟩
  | si {c : UInt8} {power : ℕ} (names : UnitLetter c power) : NamesUnit (c :: bytesOf "B") ⟨power, true⟩

/-- The size is read to its end when it fits, and refused otherwise. -/
def ReadsSize (digits suffix : Bytes) (unit : SizeUnit) : Prop :=
  strsegParseSize (digits ++ suffix) =
    if InInt64 (decimal digits * unit.factor ^ unit.power) then some (decimal digits * unit.factor ^ unit.power, []) else none

theorem UnitLetter.unitPower_eq {c : UInt8} {power : ℕ} (names : UnitLetter c power) : unitPower c = some power := by
  have all : ∀ text ∈ [bytesOf "bkmgt", bytesOf "BKMGT"], ∀ i : Fin 5, text[i.val]?.bind unitPower = some i.val := by decide
  rcases names with lower | upper
  · have short : power < 5 := (List.getElem?_eq_some_iff.mp lower).1
    simpa [lower] using all _ List.mem_cons_self ⟨power, short⟩
  · have short : power < 5 := (List.getElem?_eq_some_iff.mp upper).1
    simpa [upper] using all _ (List.mem_cons_of_mem _ List.mem_cons_self) ⟨power, short⟩

theorem unitPower_digit {c : UInt8} (digit : isDigit c) : unitPower c = none := by
  have other {lower upper : UInt8} (letters : isDigit lower = false ∧ isDigit upper = false) : ¬(c = lower ∨ c = upper) := by
    rintro (rfl | rfl)
    · exact absurd digit (by rw [letters.1]; decide)
    · exact absurd digit (by rw [letters.2]; decide)
  rw [unitPower, if_neg (other (by decide)), if_neg (other (by decide)), if_neg (other (by decide)), if_neg (other (by decide)),
    if_neg (other (by decide))]

theorem strsegAtoi_suffix {digits suffix : Bytes} (nonempty : digits ≠ []) (all : ∀ c ∈ digits, isDigit c)
    (small : decimal digits < 9223372036854775808) (stops : ∀ c ∈ suffix.head?, isDigit c = false) :
    strsegAtoi (digits ++ suffix) = some (decimal digits, suffix) := by
  have range : InInt64 (decimal digits) := ⟨(by decide : (-9223372036854775808 : ℤ) ≤ 0).trans (decimal_nonneg all), small⟩
  obtain ⟨c, rest, rfl⟩ := List.exists_cons_of_ne_nil nonempty
  have digit : isDigit c := all c List.mem_cons_self
  have before : ((c :: rest) ++ suffix).takeWhile isDigit = c :: rest := by
    rw [List.takeWhile_append_of_pos all]
    cases suffix with
    | nil => rw [List.takeWhile_nil, List.append_nil]
    | cons d later => rw [List.takeWhile_cons_of_neg (by simp [stops d rfl]), List.append_nil]
  have behind : ((c :: rest) ++ suffix).dropWhile isDigit = suffix := by
    rw [List.dropWhile_append_of_pos all]
    cases suffix with
    | nil => rfl
    | cons d later => rw [List.dropWhile_cons_of_neg (by simp [stops d rfl])]
  rw [strsegAtoi_eq, List.cons_append, denoted_of_digit digit, ← List.cons_append, before, behind, Option.map_some]
  exact congrArg (fun value => some (value, suffix)) (wrap64_eq range)

/-- The product is kept exactly when it fits. -/
theorem product_kept {value mul : ℤ} (positive : 0 < mul) (most : mul ≤ longMax) :
    (wrap 64 (value * mul)).tdiv mul = value ↔ InInt64 (value * mul) := by
  constructor
  · intro kept
    rw [← product_exact positive most kept]
    exact wrap64_range _
  · intro fits
    rw [wrap64_eq fits, Int.mul_tdiv_cancel _ positive.ne']

/-- A number with a unit is read with the multiplier of the unit. -/
theorem parseSize_unit {digits suffix : Bytes} {unit : SizeUnit} (nonempty : digits ≠ []) (all : ∀ c ∈ digits, isDigit c)
    (small : decimal digits < 9223372036854775808) (names : NamesUnit suffix unit) :
    strsegParseSize (digits ++ suffix) = if InInt64 (decimal digits * unit.mul) then some (decimal digits * unit.mul, []) else none := by
  have nonneg := decimal_nonneg all
  have lettered {c : UInt8} {power : ℕ} {more : Bytes} (letter : unitPower c = some power) (last : (afterLetter more).2 = []) :
      strsegParseSize (digits ++ c :: more) =
        if InInt64 (decimal digits * SizeUnit.mul ⟨power, (afterLetter more).1⟩) then
          some (decimal digits * SizeUnit.mul ⟨power, (afterLetter more).1⟩, [])
        else none := by
    have stops : ∀ d ∈ (c :: more).head?, isDigit d = false := by
      rintro d ⟨⟩
      by_contra digit
      rw [unitPower_digit (by simpa using digit)] at letter
      cases letter
    obtain ⟨positive, most⟩ := mul_range letter (afterLetter more).1
    rw [strsegParseSize, strsegAtoi_suffix nonempty all small stops]
    simp only [letter, last, not_lt.mpr nonneg, false_or, ne_eq, product_kept positive most, ite_not]
    split
    · next fits => rw [wrap64_eq fits]
    · rfl
  cases names with
  | none =>
    have range : InInt64 (decimal digits * SizeUnit.mul ⟨0, false⟩) := by
      rw [show SizeUnit.mul ⟨0, false⟩ = 1 from rfl, mul_one]
      exact ⟨(by decide : (-9223372036854775808 : ℤ) ≤ 0).trans nonneg, small⟩
    rw [if_pos range, strsegParseSize, strsegAtoi_suffix nonempty all small (by rintro c ⟨⟩), show SizeUnit.mul ⟨0, false⟩ = 1 from rfl,
      mul_one]
  | letter names | binary names | si names => exact lettered names.unitPower_eq rfl

/-- Sizes are exact but for the largest unit: with it only zero is read, and a number that does not fit is refused. -/
theorem size_suffixes_iff (digits suffix : Bytes) (unit : SizeUnit) (nonempty : digits ≠ []) (all : ∀ c ∈ digits, isDigit c)
    (small : decimal digits < 9223372036854775808) (names : NamesUnit suffix unit) :
    ReadsSize digits suffix unit ↔
      unit.power ≠ 4 ∨ decimal digits = 0 ∨ ¬InInt64 (decimal digits * unit.factor ^ unit.power) := by
  have nonneg := decimal_nonneg all
  rw [ReadsSize, parseSize_unit nonempty all small names]
  by_cases power : unit.power = 4
  · have factor : unit.factor = 1024 ∨ unit.factor = 1000 := by
      rw [SizeUnit.factor]
      cases unit.si
      · exact .inl rfl
      · exact .inr rfl
    rw [SizeUnit.mul, if_pos power, power, longMax]
    obtain zero | one | more : decimal digits = 0 ∨ decimal digits = 1 ∨ 2 ≤ decimal digits := by omega
    · rw [zero, zero_mul, zero_mul]
      exact iff_of_true rfl (.inr (.inl rfl))
    · -- The multiplier itself is a size that fits, as the unit is.
      rw [one, one_mul, one_mul]
      rcases factor with factor | factor
      · rw [factor]
        decide +kernel
      · rw [factor]
        decide +kernel
    · have refused : ¬InInt64 (decimal digits * 9223372036854775807) := by
        rintro ⟨-, below⟩
        omega
      rw [if_neg refused]
      by_cases fits : InInt64 (decimal digits * unit.factor ^ 4)
      · rw [if_pos fits]
        refine iff_of_false (Option.some_ne_none _).symm ?_
        rintro (other | zero | above)
        · exact other rfl
        · omega
        · exact above fits
      · rw [if_neg fits]
        exact iff_of_true rfl (.inr (.inr fits))
  · rw [SizeUnit.mul, if_neg power]
    exact iff_of_true rfl (.inl power)

theorem size_suffixes_iff_kilo :
    ReadsSize (bytesOf "16") (bytesOf "kB") ⟨1, true⟩ ↔
      (1 : ℕ) ≠ 4 ∨ decimal (bytesOf "16") = 0 ∨ ¬InInt64 (decimal (bytesOf "16") * (1000 : ℤ) ^ 1) :=
  size_suffixes_iff (bytesOf "16") (bytesOf "kB") ⟨1, true⟩ (by decide) (by decide +kernel) (by decide +kernel) (.si (.inl rfl))

/-- One terabyte is read as the largest number, and two are refused. -/
theorem terabyte_not_read :
    strsegParseSize (bytesOf "1t") = some (9223372036854775807, []) ∧ ¬ReadsSize (bytesOf "1") (bytesOf "t") ⟨4, false⟩ ∧
      strsegParseSize (bytesOf "2t") = none ∧ ¬ReadsSize (bytesOf "2") (bytesOf "t") ⟨4, false⟩ := by
  simp only [ReadsSize]
  decide +kernel

end DaemonProxy.Soundness
