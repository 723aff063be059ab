import SnoopDos.Lib.Bitmap
import SnoopDos.Spec.Execute

/-! The pid bitmap as a set of used pids, and the addresses that belong to a pid. -/

namespace SnoopDos

open Bitmap

namespace Kernel

variable (k : Kernel)

def Used (p : ℕ) : Prop := p < MAX_NUM_PROCS ∧ k.pidAvail.getLsbD p = true

instance (p : ℕ) : Decidable (k.Used p) := inferInstanceAs (Decidable (_ ∧ _))

variable {k} {p q : ℕ}

theorem isPidUsed_iff (hp : p < MAX_NUM_PROCS) : k.isPidUsed p = true ↔ k.Used p := by
  have hneg : ¬ ((p : ℤ) < 0 ∨ (MAX_NUM_PROCS : ℤ) ≤ p) := by omega
  rw [isPidUsed, if_neg hneg, Int.toNat_natCast, decide_eq_true_iff,
    mask_shiftRight_ne_zero_iff _ (hp.trans (by decide)), Used]
  exact (and_iff_right hp).symm

theorem markPidFree_pidAvail (hp : p < MAX_NUM_PROCS) :
    (k.markPidFree p).pidAvail = k.pidAvail &&& ~~~(1#32 <<< p) := by
  rw [markPidFree, if_pos (by omega), Int.toNat_natCast]

theorem markPidFree_frame (k : Kernel) (pid : ℤ) :
    ∃ w, k.markPidFree pid = { k with pidAvail := w } := by
  rw [markPidFree]
  split_ifs
  · exact ⟨_, rfl⟩
  · exact ⟨_, rfl⟩

theorem used_insert {k' : Kernel} (hp : p < MAX_NUM_PROCS)
    (h : k'.pidAvail = k.pidAvail ||| (1#32 <<< p)) : k'.Used q ↔ q = p ∨ k.Used q := by
  rw [Used, h, getLsbD_insert _ (hp.trans (by decide)), Used]
  constructor
  · rintro ⟨hq, h | h⟩
    · exact Or.inl h
    · exact Or.inr ⟨hq, h⟩
  · rintro (rfl | h)
    · exact ⟨hp, Or.inl rfl⟩
    · exact ⟨h.1, Or.inr h.2⟩

theorem used_remove {k' : Kernel} (hp : p < MAX_NUM_PROCS)
    (h : k'.pidAvail = k.pidAvail &&& ~~~(1#32 <<< p)) : k'.Used q ↔ q ≠ p ∧ k.Used q := by
  rw [Used, h, getLsbD_remove _ (hp.trans (by decide)), Used]
  exact and_left_comm

theorem used_markPidFree_of_ne (k : Kernel) (hne : q ≠ p) :
    (k.markPidFree p).Used q ↔ k.Used q := by
  rw [markPidFree]
  split_ifs with hrange
  · have hp : p < MAX_NUM_PROCS := by omega
    rw [Int.toNat_natCast, used_remove (k := k) hp rfl]
    exact and_iff_right hne
  · exact Iff.rfl

theorem used_congr {k' : Kernel} (h : k'.pidAvail = k.pidAvail) : k'.Used q ↔ k.Used q := by
  rw [Used, h, Used]

/-- The search of `get_available_pid` returns the least clear bit from `i` on. -/
theorem availableLoop_spec (w : Word) (n i : ℕ) (hi : i + n ≤ 32) :
    (∀ p, availableLoop w n i (1#32 <<< i) = some p → i ≤ p ∧ p < i + n ∧ w.getLsbD p = false ∧
      ∀ q, i ≤ q → q < p → w.getLsbD q = true) ∧
    (availableLoop w n i (1#32 <<< i) = none → ∀ q, i ≤ q → q < i + n → w.getLsbD q = true) := by
  induction n generalizing i with
  | zero => exact ⟨fun p h => by simp [availableLoop] at h, fun _ q h1 h2 => by omega⟩
  | succ n ih =>
    have hmask := and_mask_eq_zero_iff w (show i < 32 by omega)
    rw [availableLoop]
    by_cases hbit : w.getLsbD i = false
    · rw [if_pos (hmask.mpr hbit)]
      refine ⟨fun p hp => ?_, fun h => by simp at h⟩
      obtain rfl := Option.some.inj hp
      exact ⟨le_rfl, by omega, hbit, fun q h1 h2 => by omega⟩
    · have hset : w.getLsbD i = true := by simpa using hbit
      rw [if_neg (mt hmask.mp hbit), ← BitVec.shiftLeft_add]
      obtain ⟨hsome, hnone⟩ := ih (i + 1) (by omega)
      refine ⟨fun p hp => ?_, fun h q h1 h2 => ?_⟩
      · obtain ⟨h1, h2, h3, h4⟩ := hsome p hp
        refine ⟨by omega, by omega, h3, fun q hq1 hq2 => ?_⟩
        rcases eq_or_lt_of_le hq1 with rfl | hlt
        · exact hset
        · exact h4 q hlt hq2
      · rcases eq_or_lt_of_le h1 with rfl | hlt
        · exact hset
        · exact hnone h q hlt (by omega)

theorem getAvailablePid_eq_some (h : k.getAvailablePid = some p) :
    p < MAX_NUM_PROCS ∧ ¬ k.Used p ∧ ∀ q < p, k.Used q := by
  obtain ⟨-, hlt, hclear, hleast⟩ :=
    (availableLoop_spec k.pidAvail MAX_NUM_PROCS 0 (by decide)).1 p h
  rw [Nat.zero_add] at hlt
  exact ⟨hlt, fun hu => absurd (hclear.symm.trans hu.2) (by decide), fun q hq =>
    ⟨hq.trans hlt, hleast q (Nat.zero_le _) hq⟩⟩

theorem getAvailablePid_eq_none (h : k.getAvailablePid = none) (hp : p < MAX_NUM_PROCS) : k.Used p :=
  ⟨hp, (availableLoop_spec k.pidAvail MAX_NUM_PROCS 0 (by decide)).2 h p (Nat.zero_le _) (by omega)⟩

theorem not_allPidsAvailable (h : k.Used p) : k.allPidsAvailable = false := by
  rw [allPidsAvailable, decide_eq_false_iff_not]
  intro h0
  have := h.2
  rw [h0, BitVec.getLsbD_zero] at this
  simp at this

/-- Only an assignment to it changes the pid that a terminal runs. -/
theorem setTerminal_pid {t : ℕ} {f : Terminal → Terminal} (hf : ∀ u, (f u).pid = u.pid) (i : ℕ) :
    ((k.setTerminal t f).terminals i).pid = (k.terminals i).pid := by
  simp only [setTerminal]
  rcases eq_or_ne i t with rfl | hne
  · rw [Function.update_self, hf]
  · rw [Function.update_of_ne hne]

end Kernel

section Addresses

variable {p q : ℕ}

theorem getPageDirectoryForPid_of_lt (hp : p < MAX_NUM_PROCS) :
    getPageDirectoryForPid p = .user p := by
  rw [getPageDirectoryForPid, if_neg (by omega)]

theorem pcbAddr_toNat (hp : p < MAX_NUM_PROCS) : (pcbAddr p).toNat = 0x800000 - (p + 1) * 0x2000 := by
  simp only [MAX_NUM_PROCS] at hp
  have hint : KERNEL_STACK_START - ((p : ℤ) + 1) * 0x2000 =
      ((0x800000 - (p + 1) * 0x2000 : ℕ) : ℤ) := by
    rw [KERNEL_STACK_START]
    omega
  rw [pcbAddr, hint, BitVec.ofInt_natCast, BitVec.toNat_ofNat]
  omega

theorem pcbAddr_inj (hp : p < MAX_NUM_PROCS) (hq : q < MAX_NUM_PROCS) (h : pcbAddr p = pcbAddr q) :
    p = q := by
  have := congrArg BitVec.toNat h
  rw [pcbAddr_toNat hp, pcbAddr_toNat hq] at this
  simp only [MAX_NUM_PROCS] at hp hq
  omega

theorem pcbCurr_of_kernelStackTop {k : Kernel} (hp : p < MAX_NUM_PROCS)
    (h : k.esp0 = kernelStackTop p) : k.pcbCurr = pcbAddr p := by
  rw [Kernel.pcbCurr, h]
  have : ∀ q : Fin MAX_NUM_PROCS,
      (kernelStackTop (q : ℕ) - 1#32) &&& MASK_8KB_ALIGNED = pcbAddr (q : ℕ) := by decide
  exact this ⟨p, hp⟩

end Addresses

end SnoopDos
