import DaemonProxy.Model.StrSeg

/-! # Numbers in messages

What `%d` prints, and the bounds on its length that the sizes of the buffers rely on.
-/

namespace DaemonProxy.Model

def natText (n : ℕ) : Bytes := (Nat.toDigits 10 n).map fun c => UInt8.ofNat c.toNat

/-- `%d`. -/
def intText (value : ℤ) : Bytes := if value < 0 then 45 :: natText value.natAbs else natText value.natAbs

theorem length_natText_le {n count : ℕ} (positive : 0 < count) (bound : n < 10 ^ count) : (natText n).length ≤ count := by
  rw [natText, List.length_map]
  exact (Nat.length_toDigits_le_iff (by decide) positive).mpr bound

end DaemonProxy.Model
