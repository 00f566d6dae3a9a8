import Mathlib.Algebra.Order.Ring.Int
import Mathlib.Data.Int.Order.Basic

/-! # Two's complement integers of a fixed width

A C integer of `w` bits is an integer, and each arithmetic result is brought back into
`[-2^(w-1), 2^(w-1))` by `wrap`. Results that stay in that range are left alone, so a proof works
with ordinary integers as soon as it knows the range.
-/

namespace DaemonProxy.Lib

/-- The signed `w`-bit integer congruent to `x`. -/
def wrap (w : ℕ) (x : ℤ) : ℤ := x.bmod (2 ^ w)

/-- The values of a signed 32-bit integer. -/
def InInt32 (x : ℤ) : Prop := -2147483648 ≤ x ∧ x < 2147483648

theorem inInt32_zero : InInt32 0 := ⟨by decide, by decide⟩

theorem inInt32_one : InInt32 1 := ⟨by decide, by decide⟩

theorem wrap32_eq {x : ℤ} (range : InInt32 x) : wrap 32 x = x := by
  obtain ⟨low, high⟩ := range
  simp only [wrap, Int.bmod]
  split <;> omega

theorem wrap32_range (x : ℤ) : InInt32 (wrap 32 x) := by
  simp only [InInt32, wrap, Int.bmod]
  split <;> omega

theorem wrap32_le {x : ℤ} (low : -2147483648 ≤ x) : wrap 32 x ≤ x := by
  simp only [wrap, Int.bmod]
  split <;> omega

theorem wrap32_add (x y : ℤ) : wrap 32 (wrap 32 x + y) = wrap 32 (x + y) := Int.bmod_add_bmod ..

/-- The values of a signed 64-bit integer. -/
def InInt64 (x : ℤ) : Prop := -9223372036854775808 ≤ x ∧ x < 9223372036854775808

instance (x : ℤ) : Decidable (InInt64 x) := inferInstanceAs (Decidable (_ ∧ _))

theorem wrap64_eq {x : ℤ} (range : InInt64 x) : wrap 64 x = x := by
  obtain ⟨low, high⟩ := range
  simp only [wrap, Int.bmod]
  split <;> omega

theorem wrap64_range (x : ℤ) : InInt64 (wrap 64 x) := by
  simp only [InInt64, wrap, Int.bmod]
  split <;> omega

section Loops

variable {α : Type} {w : ℕ}

theorem wrap_mul (x y : ℤ) : wrap w (wrap w x * y) = wrap w (x * y) := Int.bmod_mul_bmod ..

/-- A loop that wraps after each of its steps computes the exact result, wrapped once. -/
theorem foldl_wrap {step : ℤ → α → ℤ} (respects : ∀ x item, wrap w (step (wrap w x) item) = wrap w (step x item))
    (x : ℤ) (items : List α) :
    items.foldl (fun x item => wrap w (step x item)) (wrap w x) = wrap w (items.foldl step x) := by
  induction items generalizing x with
  | nil => rfl
  | cons item items ih =>
    rw [List.foldl_cons, List.foldl_cons, respects, ih]

end Loops

end DaemonProxy.Lib
