import SnoopDos.Spec.Memory

/-! The memory functions store what they promise. `memset` and `memcpy` go byte by byte
to an aligned address and from there in words; what they leave in memory is that of the
plain byte loops. -/

namespace SnoopDos

open StringOps Machine

section InWords

theorem toNat_sub_one {x : Word} (h : x ≠ 0#32) : (x - 1#32).toNat + 1 = x.toNat := by
  bv_omega

/-- What `memset` and `memcpy` have done after `i` bytes, whatever the counters say. -/
structure Progress (I : ℕ → Machine → Prop) (step op : Machine → Machine) (total : ℕ) : Prop where
  frame : ∀ i m ecx edx df, I i m → I i { m with ecx := ecx, edx := edx, df := df }
  byte : ∀ i m, I i m → i + 1 ≤ total → I (i + 1) (step m)
  words : ∀ i m, I i m → m.df = false → i + 4 * m.ecx.toNat ≤ total →
    I (i + 4 * m.ecx.toNat) (m.rep op)
  words_edx : ∀ m, (op m).edx = m.edx

variable {I : ℕ → Machine → Prop} {step op : Machine → Machine} {total : ℕ}

theorem Progress.alignLoop (hI : Progress I step op total) {i : ℕ} {m : Machine} (h : I i m)
    {n : ℕ} (hn : m.ecx.toNat ≤ n) (htotal : i + m.ecx.toNat = total) :
    ∃ j, I j (alignLoop step n m) ∧ j + (alignLoop step n m).ecx.toNat = total := by
  induction n generalizing i m with
  | zero => exact ⟨i, h, htotal⟩
  | succ n ih =>
    rw [SnoopDos.alignLoop]
    split_ifs with hstop
    · exact ⟨i, h, htotal⟩
    · have hcount := toNat_sub_one fun h0 => hstop (Or.inl h0)
      have hstep := hI.byte i m h (by omega)
      exact ih (hI.frame (i + 1) (step m) (m.ecx - 1#32) (step m).edx (step m).df hstep)
        (show (m.ecx - 1#32).toNat ≤ n by omega)
        (show i + 1 + (m.ecx - 1#32).toNat = total by omega)

theorem Progress.restLoop (hI : Progress I step op total) {i : ℕ} {m : Machine} (h : I i m)
    {n : ℕ} (hn : m.edx.toNat ≤ n) (htotal : i + m.edx.toNat = total) :
    I total (restLoop step n m) := by
  induction n generalizing i m with
  | zero =>
    obtain rfl : i = total := by omega
    exact h
  | succ n ih =>
    rw [SnoopDos.restLoop]
    split_ifs with hstop
    · rw [hstop, BitVec.toNat_zero, Nat.add_zero] at htotal
      exact htotal ▸ h
    · have hcount := toNat_sub_one hstop
      have hstep := hI.byte i m h (by omega)
      exact ih (hI.frame (i + 1) (step m) (step m).ecx (m.edx - 1#32) (step m).df hstep)
        (show (m.edx - 1#32).toNat ≤ n by omega)
        (show i + 1 + (m.edx - 1#32).toNat = total by omega)

theorem Progress.inWords (hI : Progress I step op total) {m : Machine} (h : I 0 m)
    (htotal : m.ecx.toNat = total) : I total (inWords step op m) := by
  obtain ⟨j, hj, hcount⟩ := hI.alignLoop h le_rfl (by rw [Nat.zero_add, htotal])
  unfold SnoopDos.inWords
  generalize SnoopDos.alignLoop step m.ecx.toNat m = m₁ at hj hcount
  simp only
  split_ifs with hzero
  · rw [hzero, BitVec.toNat_zero, Nat.add_zero] at hcount
    exact hcount ▸ hj
  · have hquot : (m₁.ecx >>> 2).toNat = m₁.ecx.toNat / 4 := by
      rw [BitVec.toNat_ushiftRight, Nat.shiftRight_eq_div_pow]
    have hrem : (m₁.ecx &&& 3#32).toNat = m₁.ecx.toNat % 4 := by
      rw [BitVec.toNat_and]
      exact Nat.and_two_pow_sub_one_eq_mod m₁.ecx.toNat 2
    have hframe := hI.frame j m₁ (m₁.ecx >>> 2) (m₁.ecx &&& 3#32) false hj
    have hwords := hI.words j _ hframe rfl (show j + 4 * (m₁.ecx >>> 2).toNat ≤ total by omega)
    have hedx : ({ m₁ with edx := m₁.ecx &&& 3#32, ecx := m₁.ecx >>> 2, df := false }.rep op).edx =
        m₁.ecx &&& 3#32 := iterate_same op (fun m => m.edx) hI.words_edx _ _
    refine hI.restLoop hwords le_rfl ?_
    rw [hedx]
    change j + 4 * (m₁.ecx >>> 2).toNat + _ = total
    omega

end InWords

section Set

theorem byteOf_splat (c : Word) {i : ℕ} (hi : i < 4) :
    byteOf ((c &&& 0xFF#32) <<< 24 ||| (c &&& 0xFF#32) <<< 16 ||| (c &&& 0xFF#32) <<< 8 |||
      (c &&& 0xFF#32)) i = byteOf c 0 := by
  refine congrArg UInt8.ofBitVec (BitVec.eq_of_getLsbD_eq fun j hj => ?_)
  simp only [BitVec.getLsbD_extractLsb', BitVec.getLsbD_or, BitVec.getLsbD_shiftLeft,
    BitVec.getLsbD_and]
  interval_cases i <;> interval_cases j <;> simp

theorem memset_mem (r : Machine) (s : Addr) (c n : Word) :
    (memset r s c n).2.mem = write r.mem s n.toNat fun _ => byteOf c 0 := by
  set x := (c &&& 0xFF#32) <<< 24 ||| (c &&& 0xFF#32) <<< 16 ||| (c &&& 0xFF#32) <<< 8 |||
    (c &&& 0xFF#32) with hx
  have hsplat (i : ℕ) (hi : i < 4) : byteOf x i = byteOf c 0 := by rw [hx, byteOf_splat c hi]
  have hn := n.isLt
  have hI : Progress (fun i m => Fills r.mem s (fun _ => byteOf c 0) i m ∧ m.eax = x) setByte
      (Machine.stos 4) n.toNat := by
    refine ⟨fun i m _ _ _ h => ⟨⟨h.1.mem_eq, h.1.edi_eq⟩, h.2⟩, fun i m h hi => ⟨?_, h.2⟩,
      fun i m h hdf hi => ⟨?_, ?_⟩, fun m => rfl⟩
    · refine h.1.step (by omega) (g := byteOf m.eax) (fun j hj => ?_) rfl rfl
      rw [h.2, hsplat j (by omega)]
    · exact rep_stos_fills h.1 hdf (by omega) fun t _ j hj => by rw [h.2, hsplat j hj]
    · exact (iterate_same (Machine.stos 4) (fun m => m.eax) (fun m => rfl) _ _).trans h.2
  have hall := hI.inWords (m := { r with eax := x, edi := s, ecx := n })
    ⟨⟨(write_zero _ _ _).symm, (BitVec.add_zero s).symm⟩, rfl⟩ rfl
  exact hall.1.mem_eq

/-- `memset` fills `n` bytes with the low byte of `c`, whatever the alignment of `s`;
`memset_word` and `memset_dword` fill `n` elements of two and of four bytes. -/
theorem memset_fills (r : Machine) (s : Addr) (c n : Word) :
    ((memset r s c n).1 = s ∧
      (memset r s c n).2.mem = write r.mem s n.toNat fun _ => byteOf c 0) ∧
    ((memsetWord r s c n).1 = s ∧
      (memsetWord r s c n).2.mem = write r.mem s (2 * n.toNat) fun i => byteOf c (i % 2)) ∧
    (memsetDword r s c n).1 = s ∧
      (memsetDword r s c n).2.mem = write r.mem s (4 * n.toNat) fun i => byteOf c (i % 4) :=
  ⟨⟨rfl, memset_mem r s c n⟩, ⟨rfl, rep_stos_repeats rfl (by decide)⟩, rfl,
    rep_stos_repeats rfl (by decide)⟩

end Set

section Copy

theorem forward_one (dest src : Addr) : Forward dest src 1 := by
  rcases eq_or_ne dest src with heq | hne
  · exact Or.inl heq
  · exact Or.inr (by bv_omega)

/-- `memcpy` leaves what the byte loop leaves unless the destination begins inside the first
word of the source; it copies the source as it was unless the destination begins anywhere
inside of it. -/
theorem memcpy_copies (r : Machine) (dest src : Addr) (n : Word) :
    (memcpy r dest src n).1 = dest ∧
    (Forward dest src 4 ∨ n.toNat < 4 →
      (memcpy r dest src n).2.mem = copyBytes n.toNat dest src r.mem) ∧
    (Forward dest src n.toNat → (memcpy r dest src n).2.mem =
      write r.mem dest n.toNat fun i => r.mem (src + BitVec.ofNat 32 i)) := by
  have hn := n.isLt
  have hbytes (h : Forward dest src 4 ∨ n.toNat < 4) :
      (memcpy r dest src n).2.mem = copyBytes n.toNat dest src r.mem := by
    have hI : Progress (fun i m => Copies r.mem dest src i m) copyByte (Machine.movs 4) n.toNat := by
      refine ⟨fun i m _ _ _ h => ⟨h.mem_eq, h.edi_eq, h.esi_eq⟩, fun i m hm hi => ?_,
        fun i m hm hdf hi => ?_, fun m => rfl⟩
      · refine hm.step (forward_one dest src) (by omega) (g := fun _ => m.mem m.esi) (fun j hj => ?_) rfl rfl rfl
        obtain rfl : j = 0 := by omega
        rw [show BitVec.ofNat 32 0 = 0#32 from rfl, BitVec.add_zero]
      · rcases h with hword | hshort
        · exact rep_movs_copies hm hdf hword (by omega)
        · have hzero : m.ecx.toNat = 0 := by omega
          rw [hzero]
          refine ⟨?_, ?_, ?_⟩
          · rw [Machine.rep, hzero]
            exact hm.mem_eq
          · rw [Machine.rep, hzero]
            exact hm.edi_eq
          · rw [Machine.rep, hzero]
            exact hm.esi_eq
    exact (hI.inWords (m := { r with esi := src, edi := dest, ecx := n })
      ⟨rfl, (BitVec.add_zero dest).symm, (BitVec.add_zero src).symm⟩ rfl).mem_eq
  refine ⟨rfl, hbytes, fun h => ?_⟩
  rw [hbytes (by
    rcases h with heq | hle
    · exact Or.inl (Or.inl heq)
    · rcases lt_or_ge n.toNat 4 with hlt | hge
      · exact Or.inr hlt
      · exact Or.inl (Or.inr (hge.trans hle))), copyBytes_forward h hn.le]

/-- `memmove` copies the source as it was, however the two areas overlap. It leaves the
direction flag set when it has gone backwards. -/
theorem memmove_moves (r : Machine) (dest src : Addr) (n : Word)
    (hdest : dest.toNat + n.toNat ≤ 2 ^ 32) (hsrc : src.toNat + n.toNat ≤ 2 ^ 32) :
    (memmove r dest src n).1 = dest ∧
    (memmove r dest src n).2.mem =
      write r.mem dest n.toNat (fun i => r.mem (src + BitVec.ofNat 32 i)) ∧
    ((memmove r dest src n).2.df = true ↔ src.toNat < dest.toNat) := by
  have hn := n.isLt
  refine ⟨rfl, ?_⟩
  unfold memmove
  simp only
  by_cases hle : dest.toNat ≤ src.toNat
  · rw [if_pos hle]
    have hforward : Forward dest src n.toNat := by
      rcases eq_or_ne dest src with heq | hne
      · exact Or.inl heq
      · refine Or.inr ?_
        bv_omega
    set m : Machine := { r with edi := dest, esi := src, ecx := n, df := false } with hm
    have hstart : Copies r.mem dest src 0 m :=
      ⟨rfl, (BitVec.add_zero dest).symm, (BitVec.add_zero src).symm⟩
    have hcopies := rep_movs_copies hstart rfl (forward_one dest src) (by omega)
    have hecx : 0 + 1 * m.ecx.toNat = n.toNat := by rw [Nat.zero_add, Nat.one_mul]
    rw [hecx] at hcopies
    have hdf : (m.rep (Machine.movs 1)).df = false :=
      iterate_same (Machine.movs 1) (fun m => m.df) (fun _ => rfl) _ _
    rw [hcopies.mem_eq, copyBytes_forward hforward hn.le, hdf]
    exact ⟨rfl, iff_of_false (by decide) (by omega)⟩
  · rw [if_neg hle]
    set m : Machine := { r with
      edi := dest + n - 1#32, esi := src + n - 1#32, ecx := n, df := true } with hm
    have hback : Forward src dest n.toNat := Or.inr (by bv_omega)
    have hnat : BitVec.ofNat 32 (n.toNat - 0) = n := by
      rw [Nat.sub_zero, BitVec.ofNat_toNat, BitVec.setWidth_eq]
    have hstart : CopiesDown r.mem dest src n.toNat 0 m :=
      ⟨(write_zero _ _ _).symm, by rw [hnat], by rw [hnat], rfl⟩
    have hdf : (m.rep (Machine.movs 1)).df = true :=
      iterate_same (Machine.movs 1) (fun m => m.df) (fun _ => rfl) _ _
    rw [rep_movsb_down hstart rfl hback hn, hdf]
    exact ⟨rfl, iff_of_true rfl (by omega)⟩

/-- Two areas that overlap by one byte, moved in either direction. -/
theorem memmove_moves_overlap :
    (memmove ⟨0, 0, 0, 0, 0, false, fun a => UInt8.ofBitVec (a.setWidth 8)⟩ 9#32 8#32 2#32).2.mem 10#32
      = 9 := by
  have h := (memmove_moves ⟨0, 0, 0, 0, 0, false, fun a => UInt8.ofBitVec (a.setWidth 8)⟩ 9#32 8#32
    2#32 (by decide) (by decide)).2.1
  rw [h]
  decide

end Copy

end SnoopDos
