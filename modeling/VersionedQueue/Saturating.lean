/-!
# Saturating arithmetic

Sums and products of 64-bit words that stop at the largest word instead of wrapping around.
-/

set_option autoImplicit false
set_option relaxedAutoImplicit false

namespace VersionedQueue.Saturating

/-- The largest 64-bit word. -/
def top : UInt64 := UInt64.ofNat (UInt64.size - 1)

/-- The word of a number, or the largest word if the number is too large for one. -/
def ofNat (n : Nat) : UInt64 := UInt64.ofNat (min n (UInt64.size - 1))

/-- The sum of two words, at most the largest word. -/
def add (a b : UInt64) : UInt64 := ofNat (a.toNat + b.toNat)

/-- The product of two words, at most the largest word. -/
def mul (a b : UInt64) : UInt64 := ofNat (a.toNat * b.toNat)

theorem toNat_ofNat (n : Nat) : (ofNat n).toNat = min n (UInt64.size - 1) := by
  have small : min n (UInt64.size - 1) < UInt64.size := by simp only [UInt64.size]; omega
  simp only [ofNat, UInt64.toNat_ofNat']
  exact Nat.mod_eq_of_lt small

theorem toNat_add (a b : UInt64) : (add a b).toNat = min (a.toNat + b.toNat) (UInt64.size - 1) :=
  toNat_ofNat _

theorem toNat_mul (a b : UInt64) : (mul a b).toNat = min (a.toNat * b.toNat) (UInt64.size - 1) :=
  toNat_ofNat _

end VersionedQueue.Saturating
