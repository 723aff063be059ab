import Mathlib.Tactic

/-! A machine word as a set of small numbers: bit `i` says whether `i` is in it.
The rules read the usual masks (`1 << i`, its complement, and the two ways to test
a bit) as membership, insertion and removal. -/

namespace Bitmap

variable {n : ℕ} (w : BitVec n) {i j : ℕ}

theorem getLsbD_one_shiftLeft (hi : i < n) : (1#n <<< i).getLsbD j = decide (j = i) := by
  rw [← BitVec.twoPow_eq, BitVec.getLsbD_twoPow]
  rcases eq_or_ne j i with rfl | hji
  · simp [hi]
  · simp [hji, Ne.symm hji]

theorem and_mask_eq_zero_iff (hi : i < n) : w &&& (1#n <<< i) = 0#n ↔ w.getLsbD i = false := by
  rw [← BitVec.twoPow_eq, BitVec.and_twoPow]
  cases h : w.getLsbD i
  · simp
  · have hne : BitVec.twoPow n i ≠ 0#n := fun h0 => by
      have := congrArg (fun v => BitVec.getLsbD v i) h0
      simp [hi] at this
    simp [hne]

theorem shiftRight_and_one_eq_zero_iff (hn : 0 < n) :
    (w >>> i) &&& 1#n = 0#n ↔ w.getLsbD i = false := by
  have h := and_mask_eq_zero_iff (w >>> i) hn
  rw [BitVec.shiftLeft_zero] at h
  rw [h, BitVec.getLsbD_ushiftRight, Nat.add_zero]

/-- Testing a bit with a mask and moving the result to the bottom. -/
theorem mask_shiftRight_ne_zero_iff (hi : i < n) :
    (w &&& (1#n <<< i)) >>> i ≠ 0#n ↔ w.getLsbD i = true := by
  rw [← BitVec.twoPow_eq, BitVec.and_twoPow]
  cases h : w.getLsbD i
  · simp
  · have hne : BitVec.twoPow n i >>> i ≠ 0#n := fun h0 => by
      have := congrArg (fun v => BitVec.getLsbD v 0) h0
      simp [BitVec.getLsbD_ushiftRight, hi] at this
    simp [hne]

theorem getLsbD_insert (hi : i < n) :
    (w ||| (1#n <<< i)).getLsbD j = true ↔ j = i ∨ w.getLsbD j = true := by
  rw [BitVec.getLsbD_or, getLsbD_one_shiftLeft hi]
  simp [or_comm]

theorem getLsbD_remove (hi : i < n) :
    (w &&& ~~~(1#n <<< i)).getLsbD j = true ↔ j ≠ i ∧ w.getLsbD j = true := by
  rw [BitVec.getLsbD_and, BitVec.getLsbD_not, getLsbD_one_shiftLeft hi]
  by_cases hj : j < n
  · simp [hj, and_comm]
  · simp [hj, BitVec.getLsbD_of_ge w j (by omega)]

theorem remove_insert (hi : i < n) (h : w.getLsbD i = false) :
    (w ||| (1#n <<< i)) &&& ~~~(1#n <<< i) = w := by
  refine BitVec.eq_of_getLsbD_eq fun j hj => ?_
  rw [Bool.eq_iff_iff, getLsbD_remove _ hi, getLsbD_insert _ hi]
  rcases eq_or_ne j i with rfl | hne
  · simp [h]
  · simp [hne]

end Bitmap
