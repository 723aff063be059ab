import SnoopDos.Lib.Numerals
import SnoopDos.Proofs.Strings
import SnoopDos.Spec.Format

/-! `itoa` writes the numeral of its argument: the loop over the places, and the reversal
in place after it. -/

namespace SnoopDos

open Numerals

section Strrev

variable {buf : ℕ → UInt8} {s : ℕ} {l : List UInt8}

theorem bufStrlen_of_stands (hl : NulFree l) (hlen : l.length < 2 ^ 32)
    (h : Stands buf s (l ++ [NULL_CHAR])) : bufStrlen buf s = some l.length := by
  obtain ⟨hchars, hend⟩ := stands_append.mp h
  refine strlen_run_eq _ _ 0 _ (Nat.zero_le _) (by omega) (fun j _ hj => ?_) ?_
  · have hchar : buf (s + j) = l[j] := hchars j hj
    exact fun hnul => hl ((hchar.symm.trans hnul) ▸ List.getElem_mem hj)
  · exact hend 0 Nat.one_pos

theorem strrevLoop_apply (s fuel first last : ℕ) (buf : ℕ → UInt8) (hfuel : last ≤ first + 2 * fuel)
    (i : ℕ) : strrevLoop s fuel first last buf i =
      if s + first ≤ i ∧ i ≤ s + last then buf (2 * s + first + last - i) else buf i := by
  induction fuel generalizing first last buf with
  | zero =>
    rw [strrevLoop]
    split_ifs with h
    · congr 1
      omega
    · rfl
  | succ fuel ih =>
    rw [strrevLoop]
    by_cases hlt : first < last
    · rw [if_pos hlt, ih _ _ _ (by omega)]
      simp only [Function.update_apply]
      split_ifs <;> first | omega | rfl | (congr 1; omega)
    · rw [if_neg hlt]
      split_ifs with h
      · congr 1
        omega
      · rfl

theorem strrev_stands (hl : NulFree l) (hlen : l.length < 2 ^ 32)
    (h : Stands buf s (l ++ [NULL_CHAR])) : Stands (strrev buf s) s (l.reverse ++ [NULL_CHAR]) := by
  obtain ⟨hchars, hend⟩ := stands_append.mp h
  have happly (i : ℕ) : strrev buf s i =
      if s + 0 ≤ i ∧ i ≤ s + (l.length - 1) then buf (2 * s + 0 + (l.length - 1) - i) else buf i := by
    rw [strrev, bufStrlen_of_stands hl hlen h, Option.getD_some]
    exact strrevLoop_apply s _ 0 _ buf (by omega) i
  refine stands_append.mpr ⟨hchars.reverse fun i hi => ?_, ?_⟩
  · rw [happly, if_pos (by omega)]
    congr 1
    omega
  · rw [List.length_reverse]
    refine hend.congr fun i hi _ => ?_
    rw [happly]
    split_ifs
    · congr 1
      omega
    · rfl

theorem strrev_of_lt {i : ℕ} (hi : i < s) : strrev buf s i = buf i := by
  rw [strrev, strrevLoop_apply _ _ _ _ _ (by omega), if_neg (by omega)]

end Strrev

section Itoa

variable {radix : ℕ}

theorem itoaLoop_spec (hradix : 1 < radix) (fuel n : ℕ) (buf : ℕ → UInt8) (p : ℕ)
    (hfuel : (Nat.digits radix n).length ≤ fuel) :
    let r := itoaLoop radix fuel n buf p
    r.2 = p + (Nat.digits radix n).length ∧ Stands r.1 p ((Nat.digits radix n).map lookupDigit) ∧
      ∀ i < p, r.1 i = buf i := by
  induction fuel generalizing n buf p with
  | zero =>
    have hnil := List.length_eq_zero_iff.mp (Nat.le_zero.mp hfuel)
    rw [hnil]
    exact ⟨rfl, stands_nil _ _, fun i _ => rfl⟩
  | succ fuel ih =>
    rw [itoaLoop]
    rcases Nat.eq_zero_or_pos n with rfl | hn
    · rw [if_neg (lt_irrefl 0), Nat.digits_zero]
      exact ⟨rfl, stands_nil _ _, fun i _ => rfl⟩
    · rw [Nat.digits_def' hradix hn, List.length_cons] at hfuel
      rw [if_pos hn, Nat.digits_def' hradix hn]
      obtain ⟨hend, hstands, hbefore⟩ := ih (n / radix)
        (Function.update buf p (lookupDigit (n % radix))) (p + 1) (by omega)
      refine ⟨?_, stands_cons.mpr ⟨?_, hstands⟩, fun i hi => ?_⟩
      · rw [hend, List.length_cons]
        omega
      · rw [hbefore p (Nat.lt_succ_self p), Function.update_self]
      · rw [hbefore i (by omega), Function.update_of_ne (by omega)]

theorem lookupDigit_ne_null {d : ℕ} (hd : d < 36) : lookupDigit d ≠ NULL_CHAR := by
  revert d
  decide

theorem nulFree_digits (hradix : 1 < radix) (hmax : radix ≤ 36) (n : ℕ) :
    NulFree ((Nat.digits radix n).map lookupDigit) := fun hmem => by
  obtain ⟨d, hd, hnul⟩ := List.mem_map.mp hmem
  exact lookupDigit_ne_null ((Nat.digits_lt_base hradix hd).trans_le hmax) hnul

/-- `itoa` writes the numeral with its terminator, and nothing before it. -/
theorem itoa_spec (hradix : 1 < radix) (hmax : radix ≤ 36) (value : Word) (buf : ℕ → UInt8) (s : ℕ) :
    Stands (itoa value buf s radix) s (numeral lookupDigit radix value.toNat ++ [NULL_CHAR]) ∧
      ∀ i < s, itoa value buf s radix i = buf i := by
  rw [itoa]
  by_cases hzero : value = 0#32
  · subst hzero
    rw [if_pos rfl]
    refine ⟨stands_cons.mpr ⟨?_, stands_cons.mpr ⟨?_, stands_nil _ _⟩⟩, fun i hi => ?_⟩
    · rw [Function.update_of_ne (by omega), Function.update_self]
      rfl
    · rw [Function.update_self]
    · rw [Function.update_of_ne (by omega), Function.update_of_ne (by omega)]
  · have hpos : value.toNat ≠ 0 := fun h => hzero (BitVec.eq_of_toNat_eq h)
    have hdigits : (Nat.digits radix value.toNat).length ≤ 32 :=
      (Nat.digits_length_le_iff hradix _).mpr
        (value.isLt.trans_le (Nat.pow_le_pow_left hradix 32))
    obtain ⟨hend, hstands, hbefore⟩ := itoaLoop_spec hradix 32 value.toNat buf s hdigits
    have hnul := nulFree_digits hradix hmax value.toNat
    rw [if_neg hzero, numeral, if_neg hpos]
    refine ⟨strrev_stands hnul ?_ (stands_append.mpr ⟨?_, ?_⟩), fun i hi => ?_⟩
    · rw [List.length_map]
      omega
    · refine hstands.update (Or.inr ?_) _
      rw [hend, List.length_map]
    · rw [List.length_map, ← hend]
      exact stands_cons.mpr ⟨Function.update_self _ _ _, stands_nil _ _⟩
    · rw [strrev_of_lt hi, Function.update_of_ne (by omega), hbefore i hi]

end Itoa

end SnoopDos
