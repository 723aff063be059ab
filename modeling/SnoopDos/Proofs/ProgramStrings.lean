import SnoopDos.Proofs.FilePrograms

/-! The string code of the programs, on memory that holds NUL-terminated strings. -/

namespace SnoopDos

open UserMem

section Cells

variable {u u' : UserMem} {p q : Addr} {l m : List UInt8}

theorem charAt_add (u : UserMem) (p : Addr) (i j : ℕ) :
    charAt u (p + BitVec.ofNat 32 i) j = charAt u p (i + j) := by
  rw [charAt, charAt, BitVec.ofNat_add, BitVec.add_assoc]

theorem HoldsName.drop (h : HoldsName u p l) {i : ℕ} (hi : i ≤ l.length) :
    HoldsName u (p + BitVec.ofNat 32 i) (l.drop i) := by
  intro j hj
  rw [List.length_drop] at hj
  rw [charAt_add, h (i + j) (by omega), List.getD_eq_getElem?_getD, List.getD_eq_getElem?_getD,
    List.getElem?_drop]

theorem HoldsName.of_bytes (h : HoldsName u p l) (heq : u'.bytes = u.bytes) : HoldsName u' p l := by
  refine h.congr fun j _ => ?_
  rw [charAt, charAt, heq]

theorem HoldsName.head {c : UInt8} (h : HoldsName u p (c :: l)) : u.bytes p = c := by
  have h0 := h 0 (Nat.zero_le _)
  rwa [charAt, show BitVec.ofNat 32 0 = 0#32 from rfl, BitVec.add_zero, List.getD_cons_zero] at h0

theorem HoldsName.tail {c : UInt8} (h : HoldsName u p (c :: l)) : HoldsName u (p + 1#32) l :=
  h.drop (show 1 ≤ (c :: l).length by rw [List.length_cons]; omega)

theorem HoldsName.empty (h : HoldsName u p []) : u.bytes p = NULL_CHAR := by
  have h0 := h 0 le_rfl
  rwa [charAt, show BitVec.ofNat 32 0 = 0#32 from rfl, BitVec.add_zero] at h0

theorem NulFree.head {c : UInt8} (h : NulFree (c :: l)) : c ≠ NULL_CHAR :=
  fun hc => h (hc ▸ List.mem_cons_self)

theorem NulFree.tail {c : UInt8} (h : NulFree (c :: l)) : NulFree l :=
  fun hmem => h (List.mem_cons_of_mem c hmem)

end Cells

section Compare

end Compare

section Copy

end Copy

section Lines

variable {data : Addr} {u : UserMem}

/-- The scan stops at the first line break of the text in the buffer. -/
theorem lineEndLoop_fst (data : Addr) (l : List UInt8) (i : ℕ) (u : UserMem)
    (hcells : ∀ j < l.length, charAt u data (i + j) = l.getD j NULL_CHAR) :
    (lineEndLoop data l.length i u).1 = i + (l.takeWhile (· ≠ NEW_LINE)).length := by
  induction l generalizing i u with
  | nil => rfl
  | cons c l ih =>
    have h0 := hcells 0 (by rw [List.length_cons]; omega)
    rw [Nat.add_zero, List.getD_cons_zero] at h0
    simp only [List.length_cons, lineEndLoop, bind_run]
    rw [show (load (data + BitVec.ofNat 32 i) u).1 = charAt u data i from rfl, h0]
    by_cases hc : c = NEW_LINE
    · rw [if_neg (not_not.mpr hc.symm), List.takeWhile_cons_of_neg (by simpa using hc)]
      rfl
    · rw [if_pos (Ne.symm hc), List.takeWhile_cons_of_pos (by simpa using hc), List.length_cons,
        ih (i + 1) _ fun j hj => ?_]
      · omega
      · have h1 := hcells (j + 1) (by rw [List.length_cons]; omega)
        rw [List.getD_cons_succ] at h1
        rw [← h1, show i + (j + 1) = i + 1 + j by omega]
        rfl

end Lines

end SnoopDos
