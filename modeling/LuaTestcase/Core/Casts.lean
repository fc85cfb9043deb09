import Mathlib.Algebra.Order.Ring.Int

/-!
# Casts between machine integers

What a cast does to the number, and for which numbers it does nothing.

* `toInt32_exact`, `toUInt32_exact` — a cast to 32 bits keeps exactly the numbers that fit.
* `toInt64_exact` — a cast from unsigned to signed keeps exactly the numbers below `2 ^ 63`.
-/

namespace Testcase

theorem toNat_toUInt64 (n : Int64) :
    (n.toUInt64.toNat : Int) = if n.toInt < 0 then n.toInt + 2 ^ 64 else n.toInt := by
  have hnat : n.toUInt64.toNat = n.toBitVec.toNat := rfl
  have hint : n.toInt = n.toBitVec.toInt := rfl
  have hlt : n.toBitVec.toNat < 2 ^ 64 := n.toBitVec.isLt
  rw [hnat, hint, BitVec.toInt_eq_toNat_cond]
  split_ifs <;> omega

theorem toInt_toInt64 (u : UInt64) :
    u.toInt64.toInt = if u.toNat < 2 ^ 63 then (u.toNat : Int) else u.toNat - 2 ^ 64 := by
  have hint : u.toInt64.toInt = u.toBitVec.toInt := rfl
  have hnat : u.toNat = u.toBitVec.toNat := rfl
  rw [hint, hnat, BitVec.toInt_eq_toNat_cond]
  split_ifs <;> omega

/-- The signed number is the unsigned one if and only if it is below `2 ^ 63`. -/
theorem toInt64_exact (u : UInt64) : u.toInt64.toInt = u.toNat ↔ u.toNat < 2 ^ 63 := by
  rw [toInt_toInt64]
  split_ifs <;> omega

theorem toInt32_exact (n : Int64) :
    n.toInt32.toInt = n.toInt ↔ -2 ^ 31 ≤ n.toInt ∧ n.toInt < 2 ^ 31 := by
  rw [Int64.toInt_toInt32]
  constructor
  · intro h
    have hle := Int.le_bmod (x := n.toInt) (m := 2 ^ 32) (by decide)
    have hlt := Int.bmod_lt (x := n.toInt) (m := 2 ^ 32) (by decide)
    omega
  · rintro ⟨hle, hlt⟩
    exact Int.bmod_eq_of_le (by omega) (by omega)

theorem toUInt32_exact (n : Int64) :
    (n.toUInt64.toUInt32.toNat : Int) = n.toInt ↔ 0 ≤ n.toInt ∧ n.toInt < 2 ^ 32 := by
  have hcast := toNat_toUInt64 n
  have hlow : n.toUInt64.toUInt32.toNat = n.toUInt64.toNat % 2 ^ 32 := UInt64.toNat_toUInt32 _
  have hle := n.le_toInt
  have hlt := n.toInt_lt
  rw [hlow]
  split_ifs at hcast <;> omega

end Testcase
