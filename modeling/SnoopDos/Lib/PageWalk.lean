import Mathlib.Tactic

/-! The IA-32 two-level page walk with 4MB pages enabled. A directory and a
table are functions from an index to a 32-bit entry; `tableAt` gives the table
that starts at a page-aligned physical address. -/

namespace PageWalk

def present (e : BitVec 32) : Bool := e.getLsbD 0

/-- Bit 2: user mode may use the entry. -/
def user (e : BitVec 32) : Bool := e.getLsbD 2

/-- Bit 7 of a directory entry: it maps a 4MB page itself. -/
def large (e : BitVec 32) : Bool := e.getLsbD 7

def frame (e : BitVec 32) : BitVec 32 := e &&& 0xFFFFF000#32

def largeFrame (e : BitVec 32) : BitVec 32 := e &&& 0xFFC00000#32

/-- Index of the directory entry an address uses. -/
def directoryIndex (v : BitVec 32) : ℕ := v.toNat / 2 ^ 22

/-- Index of the table entry an address uses. -/
def tableIndex (v : BitVec 32) : ℕ := v.toNat / 2 ^ 12 % 2 ^ 10

/-- A successful walk: the physical address and whether user mode may use it. -/
structure Translation where
  phys : BitVec 32
  user : Bool
  deriving DecidableEq, Repr

def walk (tableAt : BitVec 32 → ℕ → BitVec 32) (directory : ℕ → BitVec 32) (v : BitVec 32) :
    Option Translation :=
  let pde := directory (directoryIndex v)
  if present pde then
    if large pde then
      some ⟨largeFrame pde ||| (v &&& 0x3FFFFF#32), user pde⟩
    else
      let pte := tableAt (frame pde) (tableIndex v)
      if present pte then some ⟨frame pte ||| (v &&& 0xFFF#32), user pde && user pte⟩ else none
  else none

section Arithmetic

theorem toNat_or_low (base v : BitVec 32) (k : ℕ) (hk : k < 32) (hb : base.toNat % 2 ^ k = 0) :
    (base ||| (v &&& BitVec.ofNat 32 (2 ^ k - 1))).toNat = base.toNat + v.toNat % 2 ^ k := by
  have hpow : 2 ^ k - 1 < 2 ^ 32 := by
    have : 2 ^ k < 2 ^ 32 := Nat.pow_lt_pow_right (by norm_num) hk
    omega
  have hlow : (v &&& BitVec.ofNat 32 (2 ^ k - 1)).toNat = v.toNat % 2 ^ k := by
    rw [BitVec.toNat_and, BitVec.toNat_ofNat, Nat.mod_eq_of_lt hpow, Nat.and_two_pow_sub_one_eq_mod]
  obtain ⟨c, hc⟩ := Nat.dvd_of_mod_eq_zero hb
  rw [BitVec.toNat_or, hlow, hc]
  exact (Nat.two_pow_add_eq_or_of_lt (Nat.mod_lt _ (by positivity)) c).symm

theorem toNat_and_high (v : BitVec 32) (k : ℕ) :
    (v &&& (BitVec.allOnes 32 <<< k)).toNat = v.toNat / 2 ^ k * 2 ^ k := by
  have hmask : v &&& (BitVec.allOnes 32 <<< k) = (v >>> k) <<< k := by
    ext i hi
    simp only [BitVec.getElem_and, BitVec.getElem_shiftLeft, BitVec.getElem_allOnes]
    by_cases hik : i < k
    · simp [hik]
    · simp [hik, show k + (i - k) = i by omega, hi]
  have hle : v.toNat / 2 ^ k * 2 ^ k ≤ v.toNat := Nat.div_mul_le_self _ _
  rw [hmask, BitVec.toNat_shiftLeft, BitVec.toNat_ushiftRight, Nat.shiftLeft_eq,
    Nat.shiftRight_eq_div_pow, Nat.mod_eq_of_lt (by have := v.isLt; omega)]

theorem toNat_frame (v : BitVec 32) : (frame v).toNat = v.toNat / 2 ^ 12 * 2 ^ 12 :=
  toNat_and_high v 12

theorem toNat_largeFrame (v : BitVec 32) : (largeFrame v).toNat = v.toNat / 2 ^ 22 * 2 ^ 22 :=
  toNat_and_high v 22

theorem directoryIndex_lt (v : BitVec 32) : directoryIndex v < 1024 := by
  have := v.isLt
  unfold directoryIndex
  omega

theorem tableIndex_lt (v : BitVec 32) : tableIndex v < 1024 := Nat.mod_lt _ (by norm_num)

end Arithmetic

/-! Entries made of a page-aligned address and flags in the low twelve bits. -/

section Entries

variable (a f : BitVec 32)

def IsFlags : Prop := frame f = 0#32

instance : Decidable (IsFlags f) := inferInstanceAs (Decidable (_ = _))

theorem getLsbD_frame_or (i : ℕ) (hi : i < 12) : (frame a ||| f).getLsbD i = f.getLsbD i := by
  have hmask : (0xFFFFF000#32).getLsbD i = false := by
    have : ∀ j : Fin 12, (0xFFFFF000#32).getLsbD j = false := by decide
    exact this ⟨i, hi⟩
  simp [frame, BitVec.getLsbD_or, BitVec.getLsbD_and, hmask]

@[simp] theorem present_frame_or : present (frame a ||| f) = present f :=
  getLsbD_frame_or a f 0 (by norm_num)

@[simp] theorem user_frame_or : user (frame a ||| f) = user f :=
  getLsbD_frame_or a f 2 (by norm_num)

@[simp] theorem large_frame_or : large (frame a ||| f) = large f :=
  getLsbD_frame_or a f 7 (by norm_num)

@[simp] theorem frame_frame : frame (frame a) = frame a := by
  simp only [frame, BitVec.and_assoc, BitVec.and_self]

theorem or_and_mask (x y m : BitVec 32) : (x ||| y) &&& m = x &&& m ||| y &&& m := by
  ext i
  simp [Bool.and_or_distrib_right]

theorem frame_frame_or {f : BitVec 32} (hf : IsFlags f) : frame (frame a ||| f) = frame a := by
  have h : frame (frame a ||| f) = frame (frame a) ||| frame f := or_and_mask _ _ _
  rw [h, frame_frame, hf, BitVec.or_zero]

theorem largeFrame_frame : largeFrame (frame a) = largeFrame a := by
  rw [largeFrame, frame, BitVec.and_assoc]
  rfl

theorem largeFrame_frame_or {f : BitVec 32} (hf : IsFlags f) :
    largeFrame (frame a ||| f) = largeFrame a := by
  have hf' : largeFrame f = 0#32 := by
    rw [← largeFrame_frame, hf]
    rfl
  have h : largeFrame (frame a ||| f) = largeFrame (frame a) ||| largeFrame f := or_and_mask _ _ _
  rw [h, hf', largeFrame_frame, BitVec.or_zero]

theorem frame_eq_self {a : BitVec 32} (ha : a.toNat % 2 ^ 12 = 0) : frame a = a :=
  BitVec.eq_of_toNat_eq (by rw [toNat_frame]; omega)

end Entries

section Walk

variable (tableAt : BitVec 32 → ℕ → BitVec 32) {directory : ℕ → BitVec 32} {v : BitVec 32}

theorem walk_large {a f : BitVec 32} (hpde : directory (directoryIndex v) = frame a ||| f)
    (hf : IsFlags f) (hpresent : present f = true) (hlarge : large f = true)
    (ha : a.toNat % 2 ^ 22 = 0) :
    ∃ phys, walk tableAt directory v = some ⟨phys, user f⟩ ∧
      phys.toNat = a.toNat + v.toNat % 2 ^ 22 := by
  refine ⟨largeFrame (frame a ||| f) ||| (v &&& 0x3FFFFF#32), ?_, ?_⟩
  · simp [walk, hpde, hpresent, hlarge]
  · have hnat : (largeFrame (frame a ||| f)).toNat = a.toNat := by
      rw [largeFrame_frame_or a hf, toNat_largeFrame]
      omega
    have h := toNat_or_low (largeFrame (frame a ||| f)) v 22 (by norm_num) (by rw [hnat, ha])
    rw [hnat] at h
    exact h

variable {tableAt}

theorem walk_small {a b f g : BitVec 32} (hpde : directory (directoryIndex v) = frame a ||| f)
    (hpte : tableAt (frame a) (tableIndex v) = frame b ||| g) (hf : IsFlags f) (hg : IsFlags g)
    (hpresent : present f = true) (hlarge : large f = false) (hpresent' : present g = true) :
    ∃ phys, walk tableAt directory v = some ⟨phys, user f && user g⟩ ∧
      phys.toNat = (frame b).toNat + v.toNat % 2 ^ 12 := by
  refine ⟨frame (frame b ||| g) ||| (v &&& 0xFFF#32), ?_, ?_⟩
  · simp [walk, hpde, hpresent, hlarge, frame_frame_or a hf, hpte, hpresent']
  · rw [frame_frame_or b hg]
    exact toNat_or_low (frame b) v 12 (by norm_num) (by rw [toNat_frame]; omega)

/-- User code only gets through entries that are for it, at both levels. -/
theorem user_of_walk {t : Translation} (h : walk tableAt directory v = some t) (hu : t.user = true) :
    user (directory (directoryIndex v)) = true ∧
      (large (directory (directoryIndex v)) = false →
        user (tableAt (frame (directory (directoryIndex v))) (tableIndex v)) = true) := by
  simp only [walk] at h
  split_ifs at h with h1 h2 h3
  · obtain rfl := Option.some.inj h
    exact ⟨hu, fun hl => absurd h2 (by simp [hl])⟩
  · obtain rfl := Option.some.inj h
    have hboth := (Bool.and_eq_true _ _).mp hu
    exact ⟨hboth.1, fun _ => hboth.2⟩

end Walk

end PageWalk
