import Mathlib.Data.UInt
import Mathlib.Tactic

/-!
# Machine words as natural numbers

What bit operations on 32-bit words do to the number a word stands for.
-/

namespace Word

/-- Clearing the low `k` bits rounds down to a multiple of `2 ^ k`. -/
theorem toNat_and_not {m : UInt32} {k : ℕ} (v : UInt32) (hm : m.toNat = 2 ^ k - 1) :
    (v &&& ~~~m).toNat = v.toNat / 2 ^ k * 2 ^ k := by
  apply Nat.eq_of_testBit_eq
  intro i
  have hand : (v &&& ~~~m).toNat.testBit i
      = (v.toNat.testBit i && (decide (i < 32) && !m.toNat.testBit i)) := by
    change (v.toBitVec &&& ~~~m.toBitVec).getLsbD i = _
    rw [BitVec.getLsbD_and, BitVec.getLsbD_not]
    rfl
  rw [hand, hm, Nat.testBit_two_pow_sub_one, Nat.testBit_mul_two_pow, Nat.testBit_div_two_pow]
  by_cases hk : k ≤ i
  · by_cases hi : i < 32
    · simp [hk, hi]
    · -- past the word's width both sides are zero
      have hv : v.toNat < 2 ^ i := v.toNat_lt.trans_le (Nat.pow_le_pow_right (by decide) (by omega))
      simp [hk, hi, Nat.testBit_lt_two_pow hv]
  · simp only [hk, decide_false, Bool.false_and, Bool.and_eq_false_imp]
    intro _ _
    simp only [Bool.not_eq_false', decide_eq_true_eq]
    omega

end Word
