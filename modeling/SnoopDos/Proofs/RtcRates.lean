import SnoopDos.Proofs.Strings
import SnoopDos.Spec.Terminal

/-! The rate of the real time clock: which frequencies `write_rtc` accepts, and the
rate that its loop finds for them. -/

namespace SnoopDos

open Kernel UserMem

/-- The frequency that a process hands to `write_rtc`. -/
def frequencyAt (u : UserMem) (buf : Addr) : Word := le32 (charAt u buf) 0

/-- A power of two between 2 and 1024. -/
def IsRtcFrequency (freq : Word) : Prop := ∃ e, 1 ≤ e ∧ e ≤ 10 ∧ freq.toInt = 2 ^ e

/-- The state after `(a AND 0xF0) OR r` has been written to register A, whose value was `a`. -/
def Kernel.withRate (k : Kernel) (r : ℕ) : Kernel :=
  { k with rtcRegisterA := (k.rtcRegisterA &&& 0xF0) ||| UInt8.ofNat r }

/-- `write_rtc` found the rate of `freq` and wrote it to the low half of register A. -/
structure RateProgrammed (k : Kernel) (freq : Word) (ret : Word) (k' : Kernel) : Prop where
  returns : ret = 1#32
  rate : ∃ r ≤ 15, 1 ≤ r ∧
    (∀ fuel, r ≤ fuel + 1 → rateLoop fuel (FREQ_FORMULA_VAL / freq.toNat) 1 = r) ∧
    32768 >>> (r - 1) = freq.toNat ∧ k' = k.withRate r
  upper : k'.rtcRegisterA &&& 0xF0 = k.rtcRegisterA &&& 0xF0

section Frequencies

variable {freq : Word}

theorem toInt_eq_of_small (h : freq.toNat ≤ 1024) : freq.toInt = freq.toNat :=
  BitVec.toInt_eq_toNat_of_lt (by omega)

theorem toNat_le_of_range (hmin : 2 ≤ freq.toInt) (hmax : freq.toInt ≤ 1024) :
    2 ≤ freq.toNat ∧ freq.toNat ≤ 1024 := by
  have hint := BitVec.toInt_eq_toNat_cond freq
  have hlt := freq.isLt
  split_ifs at hint
  · omega
  · omega

theorem rtcCond_iff_nat : rtcCond freq = true ↔
    (2 ≤ freq.toNat ∧ freq.toNat ≤ 1024) ∧ freq.toNat &&& (freq.toNat - 1) = 0 := by
  have htrick (hpos : 2 ≤ freq.toNat) :
      freq &&& (freq - 1#32) = 0#32 ↔ freq.toNat &&& (freq.toNat - 1) = 0 := by
    have hle : 1#32 ≤ freq := by
      rw [BitVec.le_def, BitVec.toNat_ofNat]
      omega
    rw [← BitVec.toNat_inj, BitVec.toNat_and, BitVec.toNat_sub_of_le hle]
    rfl
  rw [rtcCond, Bool.and_eq_true, Bool.and_eq_true, decide_eq_true_eq, decide_eq_true_eq,
    decide_eq_true_eq, RTC_FREQ_MIN, RTC_FREQ_MAX]
  constructor
  · rintro ⟨⟨hmin, hmax⟩, hzero⟩
    have hrange := toNat_le_of_range hmin hmax
    exact ⟨hrange, (htrick hrange.1).mp hzero⟩
  · rintro ⟨hrange, hzero⟩
    have hint := toInt_eq_of_small hrange.2
    exact ⟨⟨by omega, by omega⟩, (htrick hrange.1).mpr hzero⟩

theorem isRtcFrequency_iff_nat : IsRtcFrequency freq ↔ ∃ e, 1 ≤ e ∧ e ≤ 10 ∧ freq.toNat = 2 ^ e := by
  have hpow {e : ℕ} (hlow : 1 ≤ e) (hhigh : e ≤ 10) : 2 ≤ 2 ^ e ∧ 2 ^ e ≤ 1024 :=
    ⟨Nat.pow_le_pow_right (n := 2) (by decide) hlow, Nat.pow_le_pow_right (by decide) hhigh⟩
  constructor
  · rintro ⟨e, hlow, hhigh, he⟩
    have hrange := hpow hlow hhigh
    have hcast : freq.toInt = (2 ^ e : ℕ) := by rw [he]; norm_cast
    have hnat : 2 ≤ freq.toNat ∧ freq.toNat ≤ 1024 := toNat_le_of_range (by omega) (by omega)
    have hint := toInt_eq_of_small hnat.2
    exact ⟨e, hlow, hhigh, by omega⟩
  · rintro ⟨e, hlow, hhigh, he⟩
    have hrange := hpow hlow hhigh
    refine ⟨e, hlow, hhigh, ?_⟩
    rw [toInt_eq_of_small (by omega), he]
    norm_cast

/-- The bit trick of `write_rtc` accepts exactly the powers of two in its range. -/
theorem rtcCond_iff : rtcCond freq = true ↔ IsRtcFrequency freq := by
  rw [rtcCond_iff_nat, isRtcFrequency_iff_nat]
  constructor
  · rintro ⟨⟨hmin, hmax⟩, hzero⟩
    obtain ⟨e, he⟩ := (Nat.and_sub_one_eq_zero_iff_isPowerOfTwo (by omega)).mp hzero
    have hlow : 2 ^ 1 ≤ 2 ^ e := by omega
    have hhigh : 2 ^ e ≤ 2 ^ 10 := by omega
    exact ⟨e, (Nat.pow_le_pow_iff_right (by decide)).mp hlow,
      (Nat.pow_le_pow_iff_right (by decide)).mp hhigh, he⟩
  · rintro ⟨e, hlow, hhigh, he⟩
    have hmin : 2 ^ 1 ≤ 2 ^ e := Nat.pow_le_pow_right (by decide) hlow
    have hmax : 2 ^ e ≤ 2 ^ 10 := Nat.pow_le_pow_right (by decide) hhigh
    exact ⟨⟨by omega, by omega⟩, (Nat.and_sub_one_eq_zero_iff_isPowerOfTwo (by omega)).mpr ⟨e, he⟩⟩

theorem rateLoop_two_pow (n fuel rate : ℕ) (hfuel : n ≤ fuel) :
    rateLoop fuel (2 ^ n) rate = rate + n := by
  induction n generalizing fuel rate with
  | zero =>
    cases fuel with
    | zero => rfl
    | succ fuel => exact if_neg (not_not.mpr rfl)
  | succ n ih =>
    obtain ⟨fuel, rfl⟩ := Nat.exists_eq_succ_of_ne_zero (by omega : fuel ≠ 0)
    have hne : 2 ^ (n + 1) ≠ 1 := by
      have := Nat.one_lt_two_pow (by omega : n + 1 ≠ 0)
      omega
    rw [rateLoop, if_pos hne, pow_succ, Nat.mul_div_cancel _ (by decide), ih fuel _ (by omega)]
    omega

theorem rateLoop_frequency {e : ℕ} (hhigh : e ≤ 10) (hfreq : freq.toNat = 2 ^ e) {fuel : ℕ}
    (hfuel : 16 - e ≤ fuel + 1) : rateLoop fuel (FREQ_FORMULA_VAL / freq.toNat) 1 = 16 - e := by
  have hdiv : FREQ_FORMULA_VAL / freq.toNat = 2 ^ (15 - e) := by
    rw [hfreq, show FREQ_FORMULA_VAL = 2 ^ 15 from rfl, Nat.pow_div (by omega) (by decide)]
  rw [hdiv, rateLoop_two_pow _ _ _ (by omega)]
  omega

end Frequencies

section Programming

variable (k : Kernel) (buf : Addr) (u : UserMem)

theorem writeRtc_fst : (k.writeRtc buf u).1 =
    if ¬ rtcCond (frequencyAt u buf) then (FAILURE, k)
    else (1#32, k.withRate (rateLoop 32 (FREQ_FORMULA_VAL / (frequencyAt u buf).toNat) 1)) := by
  have hfreq : le32 (fun i => [u.bytes buf, u.bytes (buf + 1#32), u.bytes (buf + 2#32),
      u.bytes (buf + 3#32)].getD i 0) 0 = frequencyAt u buf := by
    rw [frequencyAt, le32, le32, charAt, BitVec.add_zero]
    rfl
  rw [← hfreq, Kernel.writeRtc, bind_run, bind_run, bind_run, bind_run]
  split_ifs with hcond hsame hsame
  · rfl
  · exact absurd hcond hsame
  · exact absurd hsame hcond
  · rfl

theorem upper_half (a : UInt8) {r : ℕ} (hr : r ≤ 15) :
    ((a &&& 0xF0) ||| UInt8.ofNat r) &&& 0xF0 = a &&& 0xF0 := by
  have hlow : UInt8.ofNat r &&& 0xF0 = 0 := by
    interval_cases r <;> decide
  apply UInt8.eq_of_toBitVec_eq
  rw [UInt8.toBitVec_and, UInt8.toBitVec_or, BitVec.and_or_distrib_right, ← UInt8.toBitVec_and,
    ← UInt8.toBitVec_and, hlow, UInt8.and_assoc]
  exact BitVec.or_zero

theorem rateProgrammed_of_frequency {k : Kernel} {freq : Word} (h : IsRtcFrequency freq) :
    RateProgrammed k freq 1#32 (k.withRate (rateLoop 32 (FREQ_FORMULA_VAL / freq.toNat) 1)) := by
  obtain ⟨e, hlow, hhigh, hpow⟩ := isRtcFrequency_iff_nat.mp h
  rw [rateLoop_frequency hhigh hpow (by omega)]
  refine ⟨rfl, ⟨16 - e, by omega, by omega, fun fuel hfuel => rateLoop_frequency hhigh hpow hfuel,
    ?_, rfl⟩, upper_half _ (by omega)⟩
  rw [hpow, Nat.shiftRight_eq_div_pow, show 32768 = 2 ^ 15 from rfl,
    Nat.pow_div (by omega) (by decide)]
  congr 1
  omega

end Programming

/-- `write_rtc` refuses every frequency but the powers of two from 2 to 1024, and for
these it programs the rate. -/
theorem write_rtc_exact (k : Kernel) (buf : Addr) (u : UserMem) :
    let r := (k.writeRtc buf u).1
    (r = (FAILURE, k) ↔ ¬ IsRtcFrequency (frequencyAt u buf)) ∧
      (RateProgrammed k (frequencyAt u buf) r.1 r.2 ↔ IsRtcFrequency (frequencyAt u buf)) := by
  intro r
  have hr : r = _ := writeRtc_fst k buf u
  by_cases hcond : rtcCond (frequencyAt u buf) = true
  · have hfreq := rtcCond_iff.mp hcond
    rw [if_neg (not_not.mpr hcond)] at hr
    refine ⟨iff_of_false (fun h => ?_) (not_not.mpr hfreq), iff_of_true ?_ hfreq⟩
    · exact absurd (show 1#32 = FAILURE from congrArg Prod.fst (hr.symm.trans h)) (by decide)
    · rw [hr]
      exact rateProgrammed_of_frequency hfreq
  · have hfreq := rtcCond_iff.not.mp hcond
    rw [if_pos hcond] at hr
    refine ⟨iff_of_true hr hfreq, iff_of_false (fun h => ?_) hfreq⟩
    rw [hr] at h
    exact absurd (show FAILURE = 1#32 from h.returns) (by decide)

end SnoopDos
