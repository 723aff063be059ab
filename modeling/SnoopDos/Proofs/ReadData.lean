import SnoopDos.Proofs.Filesystem
import SnoopDos.Spec.System

/-! `read_data` on every image that fits the address space: when it fails, what it
returns and what it stores, whatever the offset and the length. -/

namespace SnoopDos

open Fs

variable {fs : Fs}

section Loops

variable {inode : ℕ}

/-- The copy loop ends without an error exactly when every block up to the last
byte it is to copy can be read. -/
theorem copyAt_fst_iff (n o : ℕ) (hgood : fs.GoodTo inode (o - 1)) :
    (copyAt fs inode n o).1 = true ↔
      fs.GoodTo inode (o + min n ((fs.length inode).toNat - o) - 1) := by
  induction n generalizing o with
  | zero =>
    rw [Nat.zero_min, Nat.add_zero]
    exact iff_of_true rfl hgood
  | succ n ih =>
    rw [copyAt_succ]
    by_cases hlen : o < (fs.length inode).toNat
    · rw [if_pos hlen]
      by_cases hbad : OpensBlock o ∧
          fs.badBlock (fs.blockNumber inode (o / FS_BLOCK_LENGTH)) = true
      · rw [if_pos hbad]
        refine iff_of_false Bool.false_ne_true fun h => ?_
        have hnext := ((goodTo_iff o).mp (h.mono (by omega))).2 hbad.1
        simp [hnext] at hbad
      · have ho : fs.GoodTo inode o :=
          (goodTo_iff o).mpr ⟨hgood, fun h => by simpa using fun hb => hbad ⟨h, hb⟩⟩
        rw [if_neg hbad, ih (o + 1) ho]
        rw [show o + 1 + min n ((fs.length inode).toNat - (o + 1)) - 1 =
          o + min (n + 1) ((fs.length inode).toNat - o) - 1 by omega]
    · rw [if_neg hlen]
      refine iff_of_true rfl ?_
      rwa [show o + min (n + 1) ((fs.length inode).toNat - o) - 1 = o - 1 by omega]

end Loops

variable {inode offset length : Word}

/-- How many bytes of the file a call is to deliver. -/
def Fs.available (fs : Fs) (inode offset length : Word) : ℕ :=
  if (fs.length inode.toNat).toNat ≤ offset.toNat then 0
  else min length.toNat ((fs.length inode.toNat).toNat - offset.toNat)

/-- The blocks that a call has to look up can be read. -/
def Fs.Reachable (fs : Fs) (inode offset length : Word) : Prop :=
  fs.GoodTo inode.toNat 0 ∧ (offset.toNat < (fs.length inode.toNat).toNat →
    fs.GoodTo inode.toNat (offset.toNat + fs.available inode offset length - 1))

theorem goodTo_zero_iff {i : ℕ} : fs.GoodTo i 0 ↔ fs.badBlock (fs.blockNumber i 0) = false := by
  constructor
  · exact fun h => h 0 (Nat.zero_le _)
  · intro h b hb
    obtain rfl : b = 0 := by simpa using hb
    exact h

theorem readData_of_reachable (hinode : inode.toNat < fs.inodes.toNat)
    (h : fs.Reachable inode offset length) :
    (readData fs inode offset length).bytes.length = fs.available inode offset length ∧
      (readData fs inode offset length).ret =
        BitVec.ofNat 32 (fs.available inode offset length) := by
  have hbad : ¬ fs.badBlock (fs.blockNumber inode.toNat 0) = true := by
    simp [goodTo_zero_iff.mp h.1]
  by_cases hlen : offset.toNat < (fs.length inode.toNat).toNat
  · have hgood := h.2 hlen
    have havail : fs.available inode offset length =
        min length.toNat ((fs.length inode.toNat).toNat - offset.toNat) := if_neg (by omega)
    have hstarts : fs.Starts inode offset := ⟨hinode, hlen, hgood.mono (by omega)⟩
    have hcount : (readData fs inode offset length).bytes.length =
        fs.available inode offset length := by
      have hlt : ∀ i, i < (readData fs inode offset length).bytes.length ↔
          i < fs.available inode offset length := by
        intro i
        rw [lt_readData_length_iff]
        constructor
        · rintro ⟨h1, -, h2, -⟩
          omega
        · intro hi
          exact ⟨by omega, hinode, by omega, hgood.mono (by omega)⟩
      have h1 := hlt (fs.available inode offset length)
      have h2 := hlt (readData fs inode offset length).bytes.length
      omega
    have hfst : (copyAt fs inode.toNat length.toNat offset.toNat).1 = true := by
      rw [copyAt_fst_iff _ _ hstarts.2.2, ← havail]
      exact hgood
    refine ⟨hcount, ?_⟩
    rw [← hcount, readData_of_starts hstarts, hfst]
    rfl
  · have hzero : fs.available inode offset length = 0 := if_pos (by omega)
    rw [readData, if_neg (by omega), if_neg hbad, if_pos (by omega), hzero]
    exact ⟨rfl, rfl⟩

theorem readData_of_not_reachable (hinode : inode.toNat < fs.inodes.toNat)
    (h : ¬ fs.Reachable inode offset length) : (readData fs inode offset length).ret = FAILURE := by
  by_cases hbad : fs.badBlock (fs.blockNumber inode.toNat 0) = true
  · rw [readData, if_neg (by omega), if_pos hbad]
  · have h0 : fs.GoodTo inode.toNat 0 := goodTo_zero_iff.mpr (by simpa using hbad)
    obtain ⟨hlen, hgood⟩ := Classical.not_imp.mp fun himp => h ⟨h0, himp⟩
    have havail : fs.available inode offset length =
        min length.toNat ((fs.length inode.toNat).toNat - offset.toNat) := if_neg (by omega)
    by_cases hstarts : fs.Starts inode offset
    · have hfst : ¬ (copyAt fs inode.toNat length.toNat offset.toNat).1 = true := by
        rw [copyAt_fst_iff _ _ hstarts.2.2, ← havail]
        exact hgood
      rw [readData_of_starts hstarts]
      exact if_neg hfst
    · have hskip : skipLoop fs inode.toNat offset.toNat 0 0 0 _ = none :=
        skipLoop_of_not_goodTo h0 fun hg => hstarts ⟨hinode, hlen, hg⟩
      rw [readData, if_neg (by omega), if_neg hbad, if_neg (by omega)]
      simp only [hskip]

theorem badBlock_iff (h : fs.datablocks.toNat ≤ 2 ^ 31) (block : Word) :
    fs.badBlock block = true ↔ fs.datablocks.toNat ≤ block.toNat := by
  simp only [badBlock, Bool.or_eq_true, decide_eq_true_eq]
  constructor
  · rintro (hneg | hge)
    · rw [BitVec.toInt_eq_toNat_cond] at hneg
      split_ifs at hneg <;> omega
    · exact hge
  · exact Or.inr

theorem not_goodTo_iff {i e : ℕ} (he : 0 < e) (h : fs.datablocks.toNat ≤ 2 ^ 31) :
    ¬ fs.GoodTo i (e - 1) ↔
      ∃ b, b * FS_BLOCK_LENGTH < e ∧ fs.datablocks.toNat ≤ (fs.blockNumber i b).toNat := by
  have hindex (b : ℕ) : b ≤ (e - 1) / FS_BLOCK_LENGTH ↔ b * FS_BLOCK_LENGTH < e := by
    rw [Nat.le_div_iff_mul_le (by decide)]
    omega
  simp only [GoodTo, not_forall, exists_prop, hindex, Bool.not_eq_false, badBlock_iff h]

/-- `read_data` fails exactly when the inode, the first block, or a block up to the
last byte asked for is out of range; else it delivers these bytes of the file's
blocks, and stores nothing else. -/
theorem read_data_spec (fs : Fs) (inode offset length : Word)
    (hlength : (fs.length inode.toNat).toNat ≤ MAX_BLOCKS * FS_BLOCK_LENGTH)
    (hdatablocks : fs.datablocks.toNat ≤ 2 ^ 20) :
    let L := (fs.length inode.toNat).toNat
    let n := if L ≤ offset.toNat then 0 else min length.toNat (L - offset.toNat)
    let r := readData fs inode offset length
    (r.ret = FAILURE ↔ fs.inodes.toNat ≤ inode.toNat ∨
      fs.datablocks.toNat ≤ (fs.blockNumber inode.toNat 0).toNat ∨
      offset.toNat < L ∧ ∃ b, b * FS_BLOCK_LENGTH < offset.toNat + n ∧
        fs.datablocks.toNat ≤ (fs.blockNumber inode.toNat b).toNat) ∧
    (r.ret ≠ FAILURE → r.ret.toNat = n ∧
      ∀ (buf : ℕ → UInt8) (i : ℕ), overlay r.bytes buf i =
        if i < n then (fs.blocks inode.toNat MAX_BLOCKS).getD (offset.toNat + i) 0 else buf i) := by
  intro L n r
  have hsmall : fs.datablocks.toNat ≤ 2 ^ 31 := hdatablocks.trans (by norm_num)
  have hn : n = fs.available inode offset length := rfl
  have hn_small : n < 2 ^ 32 - 1 := by
    simp only [n, MAX_BLOCKS, FS_BLOCK_LENGTH] at hlength ⊢
    split_ifs <;> omega
  have hreachable : fs.Reachable inode offset length ↔
      ¬ (fs.datablocks.toNat ≤ (fs.blockNumber inode.toNat 0).toNat ∨
        offset.toNat < L ∧ ∃ b, b * FS_BLOCK_LENGTH < offset.toNat + n ∧
          fs.datablocks.toNat ≤ (fs.blockNumber inode.toNat b).toNat) := by
    rw [Reachable, ← hn, not_or, goodTo_zero_iff, ← badBlock_iff hsmall, Bool.not_eq_true, not_and]
    refine and_congr_right fun h0 => imp_congr_right fun _ => ?_
    rcases Nat.eq_zero_or_pos (offset.toNat + n) with he | he
    · rw [he]
      refine iff_of_true (goodTo_zero_iff.mpr h0) ?_
      rintro ⟨b, hb, -⟩
      exact absurd hb (Nat.not_lt_zero _)
    · rw [← not_goodTo_iff he hsmall, not_not]
  by_cases hinode : inode.toNat < fs.inodes.toNat
  · by_cases h : fs.Reachable inode offset length
    · obtain ⟨hbytes, hret⟩ := readData_of_reachable hinode h
      rw [← hn] at hbytes hret
      have hnat : r.ret.toNat = n := by
        rw [hret, BitVec.toNat_ofNat]
        omega
      have hok : r.ret ≠ FAILURE := fun heq => by
        rw [heq, show FAILURE.toNat = 2 ^ 32 - 1 from rfl] at hnat
        omega
      refine ⟨iff_of_false hok ?_, fun _ => ⟨hnat, fun buf i => ?_⟩⟩
      · rintro (hge | hbad)
        · omega
        · exact hreachable.mp h hbad
      · by_cases hi : i < n
        · have hlen : offset.toNat + i < (fs.blocks inode.toNat MAX_BLOCKS).length := by
            have hlt := (lt_readData_length_iff i).mp (hbytes ▸ hi)
            rw [blocks_length]
            omega
          rw [if_pos hi, overlay, List.getD_eq_getElem?_getD, List.getD_eq_getElem?_getD,
            List.getElem?_eq_getElem (hbytes ▸ hi), List.getElem?_eq_getElem hlen, blocks_getElem,
            readData_getElem]
          rfl
        · rw [if_neg hi, overlay, List.getD_eq_getElem?_getD,
            List.getElem?_eq_none (hbytes.trans_le (not_lt.mp hi))]
          rfl
    · have hret := readData_of_not_reachable hinode h
      have hbad := not_not.mp (hreachable.not.mp h)
      exact ⟨iff_of_true hret (Or.inr hbad), fun hne => absurd hret hne⟩
  · have hret : r.ret = FAILURE := by
      simp only [r, readData, if_pos (not_lt.mp hinode)]
    exact ⟨iff_of_true hret (Or.inl (not_lt.mp hinode)), fun hne => absurd hret hne⟩

theorem read_data_spec_shell : (readData shellFs 0#32 30#32 100#32).ret.toNat = 10 :=
  ((read_data_spec shellFs 0#32 30#32 100#32 (by decide) (by decide)).2 (by decide)).1

end SnoopDos
