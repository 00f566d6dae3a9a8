import Mathlib.Data.Nat.Digits.Lemmas
import Mathlib.Data.List.Basic

/-! # Byte-addressed memory

A memory gives every address a byte. `Holds m a bytes` says that `bytes` stand at the address `a`;
the lemmas say what a write leaves in place and what it puts down.
-/

namespace DaemonProxy.Lib

def Memory := ℕ → UInt8

namespace Memory

/-- The `n` bytes at `a`. -/
def read (m : Memory) (a n : ℕ) : List UInt8 := (List.range n).map fun i => m (a + i)

/-- `memcpy` from bytes that are not in this memory. -/
def write (m : Memory) (a : ℕ) (bytes : List UInt8) : Memory :=
  fun x => if x < a then m x else (bytes[x - a]?).getD (m x)

/-- `memmove`. -/
def move (m : Memory) (dst src n : ℕ) : Memory := m.write dst (m.read src n)

/-- The little-endian bytes of a number, and the number they stand for. -/
def toBytes (width v : ℕ) : List UInt8 := (List.range width).map fun i => UInt8.ofNat (v / 256 ^ i)

def load (m : Memory) (a width : ℕ) : ℕ := Nat.ofDigits 256 ((m.read a width).map UInt8.toNat)

def store (m : Memory) (a width v : ℕ) : Memory := m.write a (toBytes width v)

/-- Replaces the `count` bytes at `p` by others, and moves the `rest` bytes that follow when the sizes differ. -/
def splice (m : Memory) (p count : ℕ) (bytes : List UInt8) (rest : ℕ) : Memory :=
  (if bytes.length ≠ count ∧ 0 < rest then m.move (p + bytes.length) (p + count) rest else m).write p bytes

/-- The bytes stand at the address. -/
def Holds (m : Memory) (a : ℕ) (bytes : List UInt8) : Prop := m.read a bytes.length = bytes

variable {m : Memory} {a b n k : ℕ} {bytes other : List UInt8}

@[simp] theorem length_read : (m.read a n).length = n := by simp [read]

@[simp] theorem length_toBytes (width v : ℕ) : (toBytes width v).length = width := by simp [toBytes]

theorem read_add : m.read a (n + k) = m.read a n ++ m.read (a + n) k := by
  simp only [read, List.range_add, List.map_append, List.map_map, Function.comp_def, Nat.add_assoc]

variable {m' : Memory}

theorem read_congr (same : ∀ x, a ≤ x → x < a + n → m' x = m x) : m'.read a n = m.read a n := by
  apply List.map_congr_left
  intro i inside
  rw [List.mem_range] at inside
  exact same (a + i) (by omega) (by omega)

variable {x : ℕ}

theorem write_outside (outside : x < a ∨ a + bytes.length ≤ x) : m.write a bytes x = m x := by
  rcases outside with before | after
  · exact if_pos before
  · rw [write, if_neg (by omega), List.getElem?_eq_none (by omega), Option.getD_none]

@[simp] theorem holds_nil : m.Holds a [] := rfl

theorem holds_append : m.Holds a (bytes ++ other) ↔ m.Holds a bytes ∧ m.Holds (a + bytes.length) other := by
  rw [Holds, List.length_append, read_add]
  constructor
  · intro same
    exact List.append_inj same length_read
  · rintro ⟨first, second⟩
    exact congrArg₂ (· ++ ·) first second

theorem holds_write : (m.write a bytes).Holds a bytes := by
  apply List.ext_getElem length_read
  intro i _ inside
  simp [read, write, inside]

theorem Holds.congr (holds : m.Holds a bytes)
    (same : ∀ x, a ≤ x → x < a + bytes.length → m' x = m x) : m'.Holds a bytes :=
  (read_congr same).trans holds

/-- What stands apart from a write stays. -/
theorem Holds.write (holds : m.Holds a bytes) (apart : a + bytes.length ≤ b ∨ b + other.length ≤ a) :
    (m.write b other).Holds a bytes := by
  apply holds.congr
  intro x above below
  exact write_outside (by omega)

theorem Holds.move_eq (holds : m.Holds a bytes) : m.move b a bytes.length = m.write b bytes := by
  rw [Memory.move, holds]

@[simp] theorem write_nil : m.write a [] = m := by
  funext x
  simp [Memory.write]

theorem write_append : (m.write a bytes).write (a + bytes.length) other = m.write a (bytes ++ other) := by
  funext x
  simp only [Memory.write, List.getElem?_append, Nat.sub_add_eq]
  split_ifs
  · rfl
  · rfl
  · omega
  · omega
  · omega
  · have beyond : bytes[x - a]? = none := List.getElem?_eq_none (by omega)
    rw [beyond, Option.getD_none]

theorem splice_outside {count rest : ℕ} (outside : x < a ∨ a + max count bytes.length + rest ≤ x) :
    m.splice a count bytes rest x = m x := by
  rw [splice, write_outside (by omega)]
  split
  · rw [move, write_outside]
    rw [length_read]
    omega
  · rfl

theorem Holds.splice {front old rest : List UInt8} (holds : m.Holds a (front ++ (old ++ rest))) :
    (m.splice (a + front.length) old.length bytes rest.length).Holds a (front ++ (bytes ++ rest)) := by
  rw [holds_append, holds_append] at holds ⊢
  obtain ⟨holdsFront, -, holdsRest⟩ := holds
  refine ⟨?_, ?_, ?_⟩
  · apply holdsFront.congr
    intro x _ below
    exact splice_outside (.inl below)
  · exact holds_write
  · rw [Memory.splice]
    split
    · rw [holdsRest.move_eq]
      exact holds_write.write (.inr le_rfl)
    · rename_i same
      rcases Nat.eq_zero_or_pos rest.length with none | some
      · rw [List.eq_nil_of_length_eq_zero none]
        exact holds_nil
      · obtain sameLength : bytes.length = old.length := by omega
        rw [← sameLength] at holdsRest
        exact holdsRest.write (.inr le_rfl)

theorem ofDigits_toBytes (width v : ℕ) :
    Nat.ofDigits 256 ((toBytes width v).map UInt8.toNat) = v % 256 ^ width := by
  induction width generalizing v with
  | zero => simp [toBytes, Nat.mod_one]
  | succ width ih =>
    have rest : (toBytes (width + 1) v).map UInt8.toNat = v % 256 :: (toBytes width (v / 256)).map UInt8.toNat := by
      simp [toBytes, List.range_succ_eq_map, Function.comp_def, Nat.pow_succ', Nat.div_div_eq_div_mul]
    rw [rest, Nat.ofDigits_cons, ih, Nat.pow_succ', Nat.mod_mul]

variable {width v : ℕ}

theorem Holds.load (holds : m.Holds a (toBytes width v)) (small : v < 256 ^ width) :
    m.load a width = v := by
  rw [Holds, length_toBytes] at holds
  rw [Memory.load, holds, ofDigits_toBytes, Nat.mod_eq_of_lt small]

theorem store_outside (outside : x < a ∨ a + width ≤ x) : m.store a width v x = m x :=
  write_outside (by rwa [length_toBytes])

theorem load_store (small : v < 256 ^ width) : (m.store a width v).load a width = v :=
  Holds.load (m := m.store a width v) holds_write small

theorem load_congr (same : ∀ x, a ≤ x → x < a + width → m' x = m x) :
    m'.load a width = m.load a width := by
  rw [Memory.load, Memory.load, read_congr same]

theorem write_replicate {count : ℕ} {value : UInt8} (above : a ≤ x) (below : x < a + count) :
    m.write a (List.replicate count value) x = value := by
  rw [write, if_neg (Nat.not_lt.mpr above), List.getElem?_replicate_of_lt (by omega), Option.getD_some]

theorem load_zero (zero : ∀ x, a ≤ x → x < a + width → m x = 0) : m.load a width = 0 := by
  have zeros : m.read a width = List.replicate width 0 := by
    refine List.eq_replicate_iff.mpr ⟨length_read, ?_⟩
    simp only [read, List.mem_map, List.mem_range]
    rintro byte ⟨i, inside, rfl⟩
    exact zero (a + i) (by omega) (by omega)
  rw [load, zeros, List.map_replicate, UInt8.toNat_zero]
  exact Nat.ofDigits_replicate_zero

end Memory

end DaemonProxy.Lib
