import Mathlib.Data.Nat.Digits.Lemmas

/-! Lists that stand in a buffer, and the numerals of natural numbers. A numeral has its
highest place first; a program that divides finds the places in the opposite order. -/

namespace Numerals

variable {α : Type*}

section Buffers

/-- The list stands in the buffer from `off` on. -/
def Stands (buf : ℕ → α) (off : ℕ) (l : List α) : Prop :=
  ∀ j (hj : j < l.length), buf (off + j) = l[j]

variable {buf buf' : ℕ → α} {off : ℕ} {l l' : List α} {a : α}

theorem stands_nil (buf : ℕ → α) (off : ℕ) : Stands buf off [] := fun j hj => by simp at hj

theorem stands_cons : Stands buf off (a :: l) ↔ buf off = a ∧ Stands buf (off + 1) l := by
  constructor
  · intro h
    refine ⟨h 0 (by simp), fun j hj => ?_⟩
    rw [show off + 1 + j = off + (j + 1) by omega, h (j + 1) (by simpa using hj),
      List.getElem_cons_succ]
  · rintro ⟨hhead, htail⟩ j hj
    cases j with
    | zero => exact hhead
    | succ j =>
      rw [show off + (j + 1) = off + 1 + j by omega, htail j (by simpa using hj),
        List.getElem_cons_succ]

theorem stands_append : Stands buf off (l ++ l') ↔
    Stands buf off l ∧ Stands buf (off + l.length) l' := by
  induction l generalizing off with
  | nil => simp [stands_nil]
  | cons a l ih =>
    rw [List.cons_append, stands_cons, stands_cons, ih, List.length_cons, and_assoc,
      show off + 1 + l.length = off + (l.length + 1) by omega]

theorem Stands.congr (h : Stands buf off l)
    (heq : ∀ i, off ≤ i → i < off + l.length → buf' i = buf i) : Stands buf' off l := fun j hj => by
  rw [heq _ (by omega) (by omega), h j hj]

theorem stands_offset : Stands (fun i => buf (off + i)) 0 l ↔ Stands buf off l := by
  simp only [Stands, Nat.zero_add]

theorem Stands.update (h : Stands buf off l) {i : ℕ} (hi : i < off ∨ off + l.length ≤ i) (a : α) :
    Stands (Function.update buf i a) off l :=
  h.congr fun j hj hlt => Function.update_of_ne (by omega) _ _

theorem Stands.reverse (h : Stands buf off l)
    (hturn : ∀ i < l.length, buf' (off + i) = buf (off + (l.length - 1 - i))) :
    Stands buf' off l.reverse := fun j hj => by
  rw [List.length_reverse] at hj
  rw [hturn j hj, h _ (by omega), List.getElem_reverse]

end Buffers

section Places

variable (digit : ℕ → α) (radix : ℕ)

/-- The numeral of `n`: its digits from the highest place, without leading zeros. -/
def numeral (n : ℕ) : List α :=
  if n = 0 then [digit 0] else ((Nat.digits radix n).map digit).reverse

variable {digit radix}

theorem numeral_congr {digit' : ℕ → α} (hradix : 1 < radix) (h : ∀ d < radix, digit d = digit' d)
    (n : ℕ) : numeral digit radix n = numeral digit' radix n := by
  unfold numeral
  split_ifs
  · rw [h 0 (by omega)]
  · rw [List.map_congr_left fun d hd => h d (Nat.digits_lt_base hradix hd)]

theorem numeral_length_le (hradix : 1 < radix) {n k : ℕ} (hk : 0 < k) (hn : n < radix ^ k) :
    (numeral digit radix n).length ≤ k := by
  unfold numeral
  split_ifs
  · exact hk
  · rw [List.length_reverse, List.length_map]
    exact (Nat.digits_length_le_iff hradix n).mpr hn

theorem mem_numeral (hradix : 1 < radix) {n : ℕ} {c : α} (hc : c ∈ numeral digit radix n) :
    ∃ d < radix, digit d = c := by
  unfold numeral at hc
  split_ifs at hc
  · exact ⟨0, by omega, (List.mem_singleton.mp hc).symm⟩
  · obtain ⟨d, hd, rfl⟩ := List.mem_map.mp (List.mem_reverse.mp hc)
    exact ⟨d, Nat.digits_lt_base hradix hd, rfl⟩

end Places

end Numerals
