import Mathlib.Tactic

/-! The string instructions of a 32-bit machine with a byte memory, and what they
store over a whole repetition. A block of memory is overwritten by `write`; blocks that
follow each other join, so a loop that goes through an area element by element is one
write of the area, whatever the size of its elements. -/

namespace StringOps

abbrev Address := BitVec 32

/-- Memory after a store of `f 0`, ..., `f (n - 1)` from address `p` on. -/
def write (mem : Address → UInt8) (p : Address) (n : ℕ) (f : ℕ → UInt8) : Address → UInt8 :=
  fun a => if (a - p).toNat < n then f (a - p).toNat else mem a

/-- Byte `i` of a register, the lowest first. -/
def byteOf (x : BitVec 32) (i : ℕ) : UInt8 := UInt8.ofBitVec (x.extractLsb' (8 * i) 8)

/-- The registers that the string instructions use, and the memory. -/
structure Machine where
  eax : BitVec 32
  ecx : BitVec 32
  edx : BitVec 32
  esi : BitVec 32
  edi : BitVec 32
  /-- The direction flag. -/
  df : Bool
  mem : Address → UInt8

namespace Machine

variable (m : Machine)

/-- A pointer after an element of `size` bytes. -/
def advance (size : ℕ) (p : BitVec 32) : BitVec 32 :=
  if m.df then p - BitVec.ofNat 32 size else p + BitVec.ofNat 32 size

/-- `rep`: the instruction `%ecx` times. -/
def rep (op : Machine → Machine) : Machine := { op^[m.ecx.toNat] m with ecx := 0#32 }

/-- `stos` of an element of `size` bytes. -/
def stos (size : ℕ) (m : Machine) : Machine :=
  { m with edi := m.advance size m.edi, mem := write m.mem m.edi size (byteOf m.eax) }

/-- `movs` of an element of `size` bytes. -/
def movs (size : ℕ) (m : Machine) : Machine :=
  { m with
    esi := m.advance size m.esi
    edi := m.advance size m.edi
    mem := write m.mem m.edi size fun i => m.mem (m.esi + BitVec.ofNat 32 i) }

end Machine

section Write

variable {mem : Address → UInt8} {p : Address} {n k : ℕ} {f g : ℕ → UInt8}

theorem write_zero (mem : Address → UInt8) (p : Address) (f : ℕ → UInt8) : write mem p 0 f = mem := by
  funext a
  exact if_neg (Nat.not_lt_zero _)

theorem write_of_lt {a : Address} (h : (a - p).toNat < n) : write mem p n f a = f (a - p).toNat :=
  if_pos h

theorem write_of_ge {a : Address} (h : n ≤ (a - p).toNat) : write mem p n f a = mem a :=
  if_neg (not_lt.mpr h)

theorem toNat_add_sub {i : ℕ} (hi : i < 2 ^ 32) (p : Address) :
    (p + BitVec.ofNat 32 i - p).toNat = i := by
  rw [BitVec.add_comm, BitVec.add_sub_cancel, BitVec.toNat_ofNat, Nat.mod_eq_of_lt hi]

theorem write_congr (h : ∀ i < n, f i = g i) : write mem p n f = write mem p n g := by
  funext a
  unfold write
  split_ifs with hlt
  · exact h _ hlt
  · rfl

theorem write_write (hle : n + k ≤ 2 ^ 32) (hfg : ∀ i < k, g i = f (n + i)) :
    write (write mem p n f) (p + BitVec.ofNat 32 n) k g = write mem p (n + k) f := by
  funext a
  have hn : n < 2 ^ 32 ∨ k = 0 := by omega
  rcases hn with hn | rfl
  · have hoff : a - (p + BitVec.ofNat 32 n) = a - p - BitVec.ofNat 32 n := by
      rw [BitVec.sub_sub]
    have hnat : (a - (p + BitVec.ofNat 32 n)).toNat = (2 ^ 32 - n + (a - p).toNat) % 2 ^ 32 := by
      rw [hoff, BitVec.toNat_sub, BitVec.toNat_ofNat, Nat.mod_eq_of_lt hn]
    have hlt := (a - p).isLt
    by_cases h1 : (a - p).toNat < n
    · rw [write_of_ge (by omega), write_of_lt h1, write_of_lt (by omega)]
    · by_cases h2 : (a - p).toNat < n + k
      · rw [write_of_lt (by omega), write_of_lt h2, hfg _ (by omega)]
        congr 1
        omega
      · rw [write_of_ge (by omega), write_of_ge (by omega), write_of_ge (by omega)]
  · rw [write_zero]
    rfl

/-- A block that repeats and the next repetition, also where the area wraps around. -/
theorem write_repeat {size : ℕ} (hsize : size ∣ 2 ^ 32) (t : ℕ) (mem : Address → UInt8)
    (p : Address) (g : ℕ → UInt8) :
    write (write mem p (size * t) fun i => g (i % size)) (p + BitVec.ofNat 32 (size * t)) size g =
      write mem p (size * (t + 1)) fun i => g (i % size) := by
  funext a
  set e := (a - (p + BitVec.ofNat 32 (size * t))).toNat with he
  have hback : (a - p).toNat = (e + size * t) % 2 ^ 32 := by
    rw [← BitVec.sub_sub] at he
    have hsum : a - p = a - p - BitVec.ofNat 32 (size * t) + BitVec.ofNat 32 (size * t) :=
      (BitVec.sub_add_cancel _ _).symm
    rw [hsum, BitVec.toNat_add, ← he, BitVec.toNat_ofNat, Nat.add_mod_mod]
  have hmod : (a - p).toNat % size = e % size := by
    rw [hback, Nat.mod_mod_of_dvd _ hsize, Nat.add_mul_mod_self_left]
  rw [Nat.mul_succ]
  by_cases hlt : e < size
  · have hle : (a - p).toNat ≤ e + size * t := hback ▸ Nat.mod_le _ _
    rw [write_of_lt hlt, write_of_lt (by omega), hmod, Nat.mod_eq_of_lt hlt]
  · rw [write_of_ge (not_lt.mp hlt)]
    have hiff : (a - p).toNat < size * t ↔ (a - p).toNat < size * t + size := by
      refine ⟨fun h => by omega, fun h => ?_⟩
      by_contra hge
      have heq : e = (a - p).toNat - size * t := by
        have hoff := BitVec.toNat_sub (a - p) (BitVec.ofNat 32 (size * t))
        have hbound := (a - p).isLt
        rw [BitVec.sub_sub, ← he, BitVec.toNat_ofNat, Nat.mod_eq_of_lt (by omega)] at hoff
        omega
      omega
    unfold write
    simp only [hiff]

/-- A copy of `n` bytes never reads what it has written: the areas are the same, or
`dest` does not lie among the bytes of the source. -/
def Forward (dest src : Address) (n : ℕ) : Prop := dest = src ∨ n ≤ (dest - src).toNat

/-- The plain loop that copies byte after byte. -/
def copyBytes : ℕ → Address → Address → (Address → UInt8) → Address → UInt8
  | 0, _, _, mem => mem
  | n + 1, dest, src, mem =>
    let mem := copyBytes n dest src mem
    write mem (dest + BitVec.ofNat 32 n) 1 fun _ => mem (src + BitVec.ofNat 32 n)

theorem copyBytes_succ (n : ℕ) (dest src : Address) (mem : Address → UInt8) :
    copyBytes (n + 1) dest src mem = write (copyBytes n dest src mem) (dest + BitVec.ofNat 32 n) 1
      fun _ => copyBytes n dest src mem (src + BitVec.ofNat 32 n) := rfl

/-- The next `k` bytes may be copied at once when none of them is read after it is written. -/
theorem copyBytes_block {dest src : Address} (h : Forward dest src k) (hk : k ≤ 2 ^ 32) (i : ℕ) :
    copyBytes (i + k) dest src mem =
      write (copyBytes i dest src mem) (dest + BitVec.ofNat 32 i) k
        fun j => copyBytes i dest src mem (src + BitVec.ofNat 32 i + BitVec.ofNat 32 j) := by
  induction k with
  | zero => exact (write_zero _ _ _).symm
  | succ k ih =>
    have hread : copyBytes (i + k) dest src mem (src + BitVec.ofNat 32 (i + k)) =
        copyBytes i dest src mem (src + BitVec.ofNat 32 i + BitVec.ofNat 32 k) := by
      have hoff : src + BitVec.ofNat 32 i + BitVec.ofNat 32 k - (dest + BitVec.ofNat 32 i) =
          BitVec.ofNat 32 k - (dest - src) := by bv_omega
      rw [ih (h.imp_right (Nat.le_of_succ_le ·)) (by omega), BitVec.ofNat_add, ← BitVec.add_assoc]
      refine write_of_ge ?_
      rw [hoff, BitVec.toNat_sub, BitVec.toNat_ofNat, Nat.mod_eq_of_lt (show k < 2 ^ 32 by omega)]
      have hlt := (dest - src).isLt
      rcases h with rfl | hle
      · rw [BitVec.sub_self, BitVec.toNat_zero]
        omega
      · omega
    rw [← Nat.add_assoc, copyBytes_succ, hread, ih (h.imp_right (Nat.le_of_succ_le ·)) (by omega),
      BitVec.ofNat_add, ← BitVec.add_assoc]
    exact write_write (by omega) fun j hj => by
      obtain rfl : j = 0 := by omega
      rfl

theorem copyBytes_forward {dest src : Address} (h : Forward dest src n) (hn : n ≤ 2 ^ 32) :
    copyBytes n dest src mem = write mem dest n fun j => mem (src + BitVec.ofNat 32 j) := by
  calc copyBytes n dest src mem
    _ = copyBytes (0 + n) dest src mem := by rw [Nat.zero_add]
    _ = write mem (dest + BitVec.ofNat 32 0) n
          fun j => mem (src + BitVec.ofNat 32 0 + BitVec.ofNat 32 j) := copyBytes_block h hn 0
    _ = _ := by
      rw [show BitVec.ofNat 32 0 = 0#32 from rfl, BitVec.add_zero, BitVec.add_zero]

theorem write_before (hle : n + k ≤ 2 ^ 32) (hg : ∀ i < k, g i = f (n + i)) :
    write (write mem (p + BitVec.ofNat 32 n) k g) p n f = write mem p (n + k) f := by
  rw [← write_write hle hg]
  funext a
  have hn : n < 2 ^ 32 ∨ k = 0 := by omega
  rcases hn with hn | rfl
  · have hnat : (a - (p + BitVec.ofNat 32 n)).toNat = (2 ^ 32 - n + (a - p).toNat) % 2 ^ 32 := by
      rw [← BitVec.sub_sub, BitVec.toNat_sub, BitVec.toNat_ofNat, Nat.mod_eq_of_lt hn]
    have hlt := (a - p).isLt
    by_cases h1 : (a - p).toNat < n
    · rw [write_of_lt h1, write_of_ge (by omega), write_of_lt h1]
    · rw [write_of_ge (by omega)]
      by_cases h2 : (a - (p + BitVec.ofNat 32 n)).toNat < k
      · rw [write_of_lt h2, write_of_lt h2]
      · rw [write_of_ge (by omega), write_of_ge (by omega), write_of_ge (by omega)]
  · rw [write_zero, write_zero]

end Write

namespace Machine

/-- From `m₀` on, `i` bytes at `p` have been filled with `f`. -/
structure Fills (mem : Address → UInt8) (p : Address) (f : ℕ → UInt8) (i : ℕ) (m : Machine) :
    Prop where
  mem_eq : m.mem = write mem p i f
  edi_eq : m.edi = p + BitVec.ofNat 32 i

/-- `i` bytes have been copied. -/
structure Copies (mem : Address → UInt8) (dest src : Address) (i : ℕ) (m : Machine) : Prop where
  mem_eq : m.mem = copyBytes i dest src mem
  edi_eq : m.edi = dest + BitVec.ofNat 32 i
  esi_eq : m.esi = src + BitVec.ofNat 32 i

section Forward

variable {mem : Address → UInt8} {p dest src : Address} {f : ℕ → UInt8} {i k n : ℕ} {m : Machine}

theorem advance_forward (h : m.df = false) (p : BitVec 32) : m.advance k p = p + BitVec.ofNat 32 k :=
  if_neg (by rw [h]; decide)

theorem Fills.step (h : Fills mem p f i m) (hle : i + k ≤ 2 ^ 32) {g : ℕ → UInt8}
    (hg : ∀ j < k, g j = f (i + j)) {m' : Machine} (hmem : m'.mem = write m.mem m.edi k g)
    (hedi : m'.edi = m.edi + BitVec.ofNat 32 k) : Fills mem p f (i + k) m' := by
  refine ⟨?_, ?_⟩
  · rw [hmem, h.mem_eq, h.edi_eq, write_write hle hg]
  · rw [hedi, h.edi_eq, BitVec.add_assoc, BitVec.ofNat_add]

theorem Copies.step (h : Copies mem dest src i m) (hblock : Forward dest src k) (hk : k ≤ 2 ^ 32)
    {g : ℕ → UInt8} (hg : ∀ j < k, g j = m.mem (m.esi + BitVec.ofNat 32 j)) {m' : Machine}
    (hmem : m'.mem = write m.mem m.edi k g) (hedi : m'.edi = m.edi + BitVec.ofNat 32 k)
    (hesi : m'.esi = m.esi + BitVec.ofNat 32 k) : Copies mem dest src (i + k) m' := by
  refine ⟨?_, ?_, ?_⟩
  · rw [hmem, write_congr hg, h.edi_eq, h.esi_eq, h.mem_eq, copyBytes_block hblock hk]
  · rw [hedi, h.edi_eq, BitVec.add_assoc, BitVec.ofNat_add]
  · rw [hesi, h.esi_eq, BitVec.add_assoc, BitVec.ofNat_add]

end Forward

section Rep

variable {op : Machine → Machine} {m : Machine}

theorem iterate_same {α : Type} (op : Machine → Machine) (g : Machine → α)
    (h : ∀ m, g (op m) = g m) (n : ℕ) (m : Machine) :
    g (op^[n] m) = g m := by
  induction n generalizing m with
  | zero => rfl
  | succ n ih => rw [Function.iterate_succ_apply, ih, h]

theorem iterate_progress (op : Machine → Machine) (I : ℕ → Machine → Prop) {size bound : ℕ}
    (hstep : ∀ i m, I i m → i + size ≤ bound → I (i + size) (op m)) (n : ℕ) {i : ℕ} (h : I i m)
    (hle : i + size * n ≤ bound) : I (i + size * n) (op^[n] m) := by
  induction n generalizing i m with
  | zero => exact h
  | succ n ih =>
    rw [Nat.mul_succ] at hle ⊢
    rw [Function.iterate_succ_apply, Nat.add_comm (size * n), ← Nat.add_assoc]
    exact ih (hstep i m h (by omega)) (by omega)

variable {mem : Address → UInt8} {p dest src : Address} {f : ℕ → UInt8} {i size n : ℕ}

theorem rep_stos_fills (h : Fills mem p f i m) (hdf : m.df = false)
    (hle : i + size * m.ecx.toNat ≤ 2 ^ 32)
    (hf : ∀ t < m.ecx.toNat, ∀ j < size, byteOf m.eax j = f (i + size * t + j)) :
    Fills mem p f (i + size * m.ecx.toNat) (m.rep (stos size)) := by
  have hall := iterate_progress (stos size)
    (fun j m' => (∃ t, j = i + size * t) ∧ Fills mem p f j m' ∧ m'.df = false ∧ m'.eax = m.eax)
    (fun j m' ⟨⟨t, ht⟩, hfills, hdf', heax⟩ hj => by
      refine ⟨⟨t + 1, by rw [ht, Nat.mul_succ, Nat.add_assoc]⟩, ?_, hdf', heax⟩
      refine hfills.step (by omega) (g := byteOf m'.eax) (fun b hb => ?_) rfl (advance_forward hdf' _)
      have htlt : t < m.ecx.toNat := by
        by_contra hge
        have hmul : size * m.ecx.toNat ≤ size * t := Nat.mul_le_mul_left _ (not_lt.mp hge)
        omega
      rw [heax, hf t htlt b hb, ht])
    m.ecx.toNat (m := m) ⟨⟨0, rfl⟩, h, hdf, rfl⟩ le_rfl
  exact ⟨hall.2.1.mem_eq, hall.2.1.edi_eq⟩

theorem rep_stos_repeats (hdf : m.df = false) (hsize : size ∣ 2 ^ 32) : (m.rep (stos size)).mem =
    write m.mem m.edi (size * m.ecx.toNat) fun i => byteOf m.eax (i % size) := by
  have hsame (t : ℕ) : ((stos size)^[t] m).df = m.df ∧ ((stos size)^[t] m).eax = m.eax :=
    ⟨iterate_same (stos size) (·.df) (fun _ => rfl) t m,
      iterate_same (stos size) (·.eax) (fun _ => rfl) t m⟩
  have hround (t : ℕ) : ((stos size)^[t] m).edi = m.edi + BitVec.ofNat 32 (size * t) ∧
      ((stos size)^[t] m).mem =
        write m.mem m.edi (size * t) fun i => byteOf m.eax (i % size) := by
    induction t with
    | zero => exact ⟨(BitVec.add_zero _).symm, (write_zero _ _ _).symm⟩
    | succ t ih =>
      obtain ⟨hedi, hmem⟩ := ih
      obtain ⟨hflag, heax⟩ := hsame t
      rw [Function.iterate_succ_apply', stos, advance_forward (hflag.trans hdf), hedi, hmem, heax]
      exact ⟨by rw [BitVec.add_assoc, ← BitVec.ofNat_add, ← Nat.mul_succ], write_repeat hsize t _ _ _⟩
  exact (hround m.ecx.toNat).2

theorem rep_movs_copies (h : Copies mem dest src i m) (hdf : m.df = false)
    (hblock : Forward dest src size) (hsize : size ≤ 2 ^ 32) :
    Copies mem dest src (i + size * m.ecx.toNat) (m.rep (movs size)) := by
  have hall := iterate_progress (movs size) (fun j m' => Copies mem dest src j m' ∧ m'.df = false)
    (fun j m' ⟨hcopies, hdf'⟩ _ => ⟨hcopies.step hblock hsize (g := _) (fun _ _ => rfl) rfl
      (advance_forward hdf' _) (advance_forward hdf' _), hdf'⟩)
    m.ecx.toNat (m := m) ⟨h, hdf⟩ le_rfl
  exact ⟨hall.1.mem_eq, hall.1.edi_eq, hall.1.esi_eq⟩

/-- The last `i` of `n` bytes have been copied, from the end. -/
structure CopiesDown (mem : Address → UInt8) (dest src : Address) (n i : ℕ) (m : Machine) : Prop where
  mem_eq : m.mem = write mem (dest + BitVec.ofNat 32 (n - i)) i
    fun j => mem (src + BitVec.ofNat 32 (n - i + j))
  edi_eq : m.edi = dest + BitVec.ofNat 32 (n - i) - 1#32
  esi_eq : m.esi = src + BitVec.ofNat 32 (n - i) - 1#32
  df_eq : m.df = true

theorem CopiesDown.step (h : CopiesDown mem dest src n i m) (hback : Forward src dest n)
    (hi : i + 1 ≤ n) (hn : n < 2 ^ 32) : CopiesDown mem dest src n (i + 1) (m.movs 1) := by
  obtain ⟨q, hq, hq'⟩ : ∃ q, n - i = q + 1 ∧ n - (i + 1) = q := ⟨n - i - 1, by omega, by omega⟩
  have hsucc (a : Address) : a + BitVec.ofNat 32 (q + 1) = a + BitVec.ofNat 32 q + 1#32 := by
    rw [BitVec.ofNat_add, BitVec.add_assoc]
  have hadvance (a : BitVec 32) : m.advance 1 a = a - 1#32 := if_pos h.df_eq
  have hedi : m.edi = dest + BitVec.ofNat 32 q := by
    rw [h.edi_eq, hq, hsucc, BitVec.add_sub_cancel]
  have hesi : m.esi = src + BitVec.ofNat 32 q := by
    rw [h.esi_eq, hq, hsucc, BitVec.add_sub_cancel]
  have hread : m.mem m.esi = mem (src + BitVec.ofNat 32 q) := by
    have hoff : src + BitVec.ofNat 32 q - (dest + BitVec.ofNat 32 (q + 1)) = src - dest - 1#32 := by
      rw [hsucc]
      bv_omega
    have hlt := (src - dest).isLt
    rw [h.mem_eq, hesi, hq]
    refine write_of_ge ?_
    rw [hoff, BitVec.toNat_sub]
    rcases hback with rfl | hle
    · rw [BitVec.sub_self]
      simp only [BitVec.toNat_ofNat]
      omega
    · simp only [BitVec.toNat_ofNat]
      omega
  have hmem : (m.movs 1).mem =
      write m.mem m.edi 1 fun j => m.mem (m.esi + BitVec.ofNat 32 j) := rfl
  have hone : ∀ j < 1, m.mem (m.esi + BitVec.ofNat 32 j) = mem (src + BitVec.ofNat 32 (q + j)) := by
    intro j hj
    obtain rfl : j = 0 := by omega
    rw [show BitVec.ofNat 32 0 = 0#32 from rfl, BitVec.add_zero, hread, Nat.add_zero]
  refine ⟨?_, ?_, ?_, h.df_eq⟩
  · rw [hmem, hedi, write_congr hone, h.mem_eq, hq, hq', hsucc, Nat.add_comm i 1]
    exact write_before (p := dest + BitVec.ofNat 32 q) (n := 1) (by omega) fun j _ => by
      rw [Nat.add_assoc]
  · rw [hq', ← hedi]
    exact hadvance m.edi
  · rw [hq', ← hesi]
    exact hadvance m.esi

theorem rep_movsb_down (h : CopiesDown mem dest src n 0 m) (hecx : m.ecx.toNat = n)
    (hback : Forward src dest n) (hn : n < 2 ^ 32) :
    (m.rep (movs 1)).mem = write mem dest n fun j => mem (src + BitVec.ofNat 32 j) := by
  have hall := iterate_progress (movs 1) (CopiesDown mem dest src n)
    (fun i m' hm hi => hm.step hback hi hn) n h (show 0 + 1 * n ≤ n by omega)
  rw [Nat.zero_add, Nat.one_mul] at hall
  have hmem := hall.mem_eq
  rw [Nat.sub_self, show BitVec.ofNat 32 0 = 0#32 from rfl, BitVec.add_zero] at hmem
  change ((movs 1)^[m.ecx.toNat] m).mem = _
  rw [hecx, hmem]
  exact write_congr fun j _ => by rw [Nat.zero_add]

end Rep

end Machine

end StringOps
