import SnoopDos.Spec.Filesystem
import SnoopDos.Proofs.Strings

/-! `read_data` as a function of the file. Its two loops advance the block index
lazily: after byte `o - 1` they still stand in the block of that byte. With the
loops started at such a cursor, one round is one byte of the file. -/

namespace SnoopDos

namespace Fs

variable (fs : Fs) (inode : ℕ)

def fileByte (o : ℕ) : UInt8 :=
  fs.data (fs.blockNumber inode (o / FS_BLOCK_LENGTH)) (o % FS_BLOCK_LENGTH)

/-- The first `n` data blocks of the file, joined in order. -/
def blocks (n : ℕ) : List UInt8 :=
  (List.range n).flatMap fun b => (List.range FS_BLOCK_LENGTH).map (fs.data (fs.blockNumber inode b))

/-- The contents of the file: its data blocks joined in order, cut at its length. -/
def contents : List UInt8 := (fs.blocks inode MAX_BLOCKS).take (fs.length inode).toNat

/-- Every block up to the one that holds position `o` can be read. -/
def GoodTo (o : ℕ) : Prop :=
  ∀ b ≤ o / FS_BLOCK_LENGTH, fs.badBlock (fs.blockNumber inode b) = false

/-- An inode whose file `read_data` can deliver in full. -/
structure ValidFile : Prop where
  inode_lt : inode < fs.inodes.toNat
  length_le : (fs.length inode).toNat ≤ MAX_BLOCKS * FS_BLOCK_LENGTH
  block_lt : ∀ b, b = 0 ∨ b * FS_BLOCK_LENGTH < (fs.length inode).toNat →
    (fs.blockNumber inode b).toNat < fs.datablocks.toNat
  datablocks_le : fs.datablocks.toNat ≤ 2 ^ 20

/-- The block index of the loops when position `o` is next. -/
def lazyIdx (o : ℕ) : ℕ := (o - 1) / FS_BLOCK_LENGTH

/-- The index inside the block when position `o` is next. -/
def lazyOff (o : ℕ) : ℕ := o - lazyIdx o * FS_BLOCK_LENGTH

variable {fs inode}

variable (fs inode) in
theorem blocks_length (n : ℕ) : (fs.blocks inode n).length = n * FS_BLOCK_LENGTH := by
  simp [blocks, List.length_flatMap]

theorem blocks_getElem (n i : ℕ) (hi : i < (fs.blocks inode n).length) :
    (fs.blocks inode n)[i] = fs.fileByte inode i := by
  induction n with
  | zero => simp [blocks] at hi
  | succ n ih =>
    have hsplit : fs.blocks inode (n + 1) = fs.blocks inode n ++
        (List.range FS_BLOCK_LENGTH).map (fs.data (fs.blockNumber inode n)) := by
      simp [blocks, List.range_succ]
    have hlen := blocks_length fs inode n
    rw [blocks_length] at hi
    simp only [hsplit]
    by_cases hlt : i < (fs.blocks inode n).length
    · rw [List.getElem_append_left hlt]
      exact ih hlt
    · rw [List.getElem_append_right (by omega), List.getElem_map, List.getElem_range, fileByte, hlen]
      simp only [FS_BLOCK_LENGTH] at *
      rw [show i / 4096 = n by omega, show i % 4096 = i - n * 4096 by omega]

theorem ValidFile.contents_length (h : fs.ValidFile inode) :
    (fs.contents inode).length = (fs.length inode).toNat := by
  rw [contents, List.length_take, blocks_length]
  exact Nat.min_eq_left h.length_le

theorem contents_getElem (i : ℕ) (hi : i < (fs.contents inode).length) :
    (fs.contents inode)[i] = fs.fileByte inode i := by
  simp only [contents, List.getElem_take]
  exact blocks_getElem _ _ _

theorem ValidFile.goodTo (h : fs.ValidFile inode) {o : ℕ}
    (ho : o = 0 ∨ o < (fs.length inode).toNat) : fs.GoodTo inode o := by
  intro b hb
  have hlt := h.block_lt b (by simp only [FS_BLOCK_LENGTH] at *; omega)
  have hle := h.datablocks_le
  have hint : ¬ (fs.blockNumber inode b).toInt < 0 := by
    rw [BitVec.toInt_eq_toNat_of_lt (by omega)]
    omega
  simp [badBlock, hint, hlt]

/-- A position opens a block when the loops have to look one up for it. -/
def OpensBlock (o : ℕ) : Prop := o ≠ 0 ∧ o % FS_BLOCK_LENGTH = 0

instance (o : ℕ) : Decidable (OpensBlock o) := inferInstanceAs (Decidable (_ ∧ _))

theorem goodTo_iff (o : ℕ) :
    fs.GoodTo inode o ↔ fs.GoodTo inode (o - 1) ∧
      (OpensBlock o → fs.badBlock (fs.blockNumber inode (o / FS_BLOCK_LENGTH)) = false) := by
  simp only [GoodTo, OpensBlock, FS_BLOCK_LENGTH]
  constructor
  · exact fun h => ⟨fun b hb => h b (by omega), fun _ => h _ le_rfl⟩
  · rintro ⟨h, hnext⟩ b hb
    by_cases hb' : b ≤ (o - 1) / 4096
    · exact h b hb'
    · have hbo : b = o / 4096 := by omega
      subst hbo
      exact hnext (by omega)

theorem GoodTo.mono {o o' : ℕ} (h : fs.GoodTo inode o') (hle : o ≤ o') : fs.GoodTo inode o :=
  fun b hb => h b (hb.trans (Nat.div_le_div_right hle))

end Fs

section Loops

open Fs

theorem lazy_of_opensBlock {o : ℕ} (h : OpensBlock o) :
    lazyOff o = FS_BLOCK_LENGTH ∧ lazyIdx o + 1 = o / FS_BLOCK_LENGTH ∧
      lazyOff (o + 1) = 1 ∧ lazyIdx (o + 1) = o / FS_BLOCK_LENGTH := by
  simp only [OpensBlock, lazyOff, lazyIdx, FS_BLOCK_LENGTH] at *
  omega

theorem lazy_of_not_opensBlock {o : ℕ} (h : ¬ OpensBlock o) :
    lazyOff o = o % FS_BLOCK_LENGTH ∧ lazyIdx o = o / FS_BLOCK_LENGTH ∧
      lazyOff (o + 1) = o % FS_BLOCK_LENGTH + 1 ∧ lazyIdx (o + 1) = o / FS_BLOCK_LENGTH := by
  simp only [OpensBlock, lazyOff, lazyIdx, FS_BLOCK_LENGTH] at *
  omega

variable (fs : Fs) (inode : ℕ)

def copyAt (n o : ℕ) : Bool × List UInt8 :=
  copyLoop fs inode n (lazyOff o) (lazyIdx o) o (fs.blockNumber inode (lazyIdx o))

/-- The skip loop with its cursor at position `i`. -/
def skipAt (n i : ℕ) : Option (ℕ × ℕ × Word) :=
  skipLoop fs inode n i (lazyOff i) (lazyIdx i) (fs.blockNumber inode (lazyIdx i))

variable {fs inode}

/-- One round of the copy loop delivers the byte at its position, unless the
file ends there or the position opens a block that cannot be read. -/
theorem copyAt_succ (n o : ℕ) :
    copyAt fs inode (n + 1) o =
      if o < (fs.length inode).toNat then
        if OpensBlock o ∧ fs.badBlock (fs.blockNumber inode (o / FS_BLOCK_LENGTH)) = true then
          (false, [])
        else ((copyAt fs inode n (o + 1)).1, fs.fileByte inode o :: (copyAt fs inode n (o + 1)).2)
      else (true, []) := by
  rw [copyAt, copyLoop]
  by_cases hlen : o < (fs.length inode).toNat
  · rw [if_pos hlen, if_pos hlen]
    by_cases hopens : OpensBlock o
    · obtain ⟨hoff, hidx, hoff', hidx'⟩ := lazy_of_opensBlock hopens
      rw [hoff, hidx, if_pos (by decide)]
      by_cases hbad : fs.badBlock (fs.blockNumber inode (o / FS_BLOCK_LENGTH)) = true
      · simp only [hbad, hopens, and_self, if_true]
      · simp [hbad, copyAt, hoff', hidx', fileByte, hopens.2]
    · obtain ⟨hoff, hidx, hoff', hidx'⟩ := lazy_of_not_opensBlock hopens
      have hk : ¬ (lazyOff o ≠ 0 ∧ lazyOff o % FS_BLOCK_LENGTH = 0) := by
        rw [hoff, Nat.mod_mod]
        exact fun h => h.1 h.2
      rw [if_neg hk, if_neg fun h => hopens h.1]
      simp only [copyAt, hoff, hoff', hidx', hidx, fileByte]
  · rw [if_neg hlen, if_neg hlen]

/-- One round of the skip loop moves on by one byte, unless the position opens a
block that cannot be read. -/
theorem skipAt_succ (n i : ℕ) :
    skipAt fs inode (n + 1) i =
      if OpensBlock i ∧ fs.badBlock (fs.blockNumber inode (i / FS_BLOCK_LENGTH)) = true then none
      else skipAt fs inode n (i + 1) := by
  rw [skipAt, skipLoop]
  by_cases hopens : OpensBlock i
  · obtain ⟨-, hidx, hoff', hidx'⟩ := lazy_of_opensBlock hopens
    rw [if_pos (show i ≠ 0 ∧ i % FS_BLOCK_LENGTH = 0 from hopens), hidx]
    by_cases hbad : fs.badBlock (fs.blockNumber inode (i / FS_BLOCK_LENGTH)) = true
    · simp only [hbad, hopens, and_self, if_true]
    · simp [hbad, skipAt, hoff', hidx']
  · obtain ⟨hoff, hidx, hoff', hidx'⟩ := lazy_of_not_opensBlock hopens
    rw [if_neg (show ¬ (i ≠ 0 ∧ i % FS_BLOCK_LENGTH = 0) from hopens), if_neg fun h => hopens h.1]
    simp only [skipAt, hoff, hoff', hidx', hidx]

/-- From a cursor whose block can be read, the copy loop delivers the bytes of the
file in order, as long as the file lasts and its blocks can be read. -/
theorem lt_copyAt_length_iff (n o i : ℕ) (hgood : fs.GoodTo inode (o - 1)) :
    i < (copyAt fs inode n o).2.length ↔
      i < n ∧ o + i < (fs.length inode).toNat ∧ fs.GoodTo inode (o + i) := by
  induction n generalizing o i with
  | zero => simp [copyAt, copyLoop]
  | succ n ih =>
    rw [copyAt_succ]
    by_cases hlen : o < (fs.length inode).toNat
    · rw [if_pos hlen]
      by_cases hbad : OpensBlock o ∧
          fs.badBlock (fs.blockNumber inode (o / FS_BLOCK_LENGTH)) = true
      · have hnot : ¬ fs.GoodTo inode (o + i) := fun h => by
          have := ((goodTo_iff o).mp (h.mono (Nat.le_add_right o i))).2 hbad.1
          simp [this] at hbad
        simp [hbad, hnot]
      · have ho : fs.GoodTo inode o :=
          (goodTo_iff o).mpr ⟨hgood, fun h => by simpa using fun hb => hbad ⟨h, hb⟩⟩
        rw [if_neg hbad, List.length_cons]
        cases i with
        | zero => simp [hlen, ho]
        | succ i =>
          rw [Nat.succ_lt_succ_iff, ih (o + 1) i ho, Nat.succ_lt_succ_iff,
            show o + 1 + i = o + (i + 1) by omega]
    · simp only [if_neg hlen, List.length_nil]
      omega

theorem copyAt_getElem (n o i : ℕ) (hi : i < (copyAt fs inode n o).2.length) :
    (copyAt fs inode n o).2[i] = fs.fileByte inode (o + i) := by
  induction n generalizing o i with
  | zero => simp [copyAt, copyLoop] at hi
  | succ n ih =>
    simp only [copyAt_succ] at hi ⊢
    split_ifs at hi ⊢ with hlen hbad
    · simp at hi
    · cases i with
      | zero => simp
      | succ i =>
        simp only [List.getElem_cons_succ]
        rw [ih (o + 1) i, show o + 1 + i = o + (i + 1) by omega]
    · simp at hi

theorem copyAt_fst (n o : ℕ) (hgood : ∀ p < (fs.length inode).toNat, fs.GoodTo inode p) :
    (copyAt fs inode n o).1 = true := by
  induction n generalizing o with
  | zero => rfl
  | succ n ih =>
    rw [copyAt_succ]
    split_ifs with hlen hbad
    · have := ((goodTo_iff o).mp (hgood o hlen)).2 hbad.1
      simp [this] at hbad
    · exact ih (o + 1)
    · rfl

theorem skipAt_eq (n i : ℕ) (hgood : fs.GoodTo inode (i - 1)) :
    (fs.GoodTo inode (i + n - 1) → skipAt fs inode n i = skipAt fs inode 0 (i + n)) ∧
      (¬ fs.GoodTo inode (i + n - 1) → skipAt fs inode n i = none) := by
  induction n generalizing i with
  | zero => exact ⟨fun _ => rfl, fun h => absurd hgood h⟩
  | succ n ih =>
    rw [skipAt_succ, show i + (n + 1) - 1 = i + n by omega]
    by_cases hbad : OpensBlock i ∧ fs.badBlock (fs.blockNumber inode (i / FS_BLOCK_LENGTH)) = true
    · rw [if_pos hbad]
      refine ⟨fun h => ?_, fun _ => rfl⟩
      have := ((goodTo_iff i).mp (h.mono (Nat.le_add_right i n))).2 hbad.1
      simp [this] at hbad
    · have hi : fs.GoodTo inode i :=
        (goodTo_iff i).mpr ⟨hgood, fun h => by simpa using fun hb => hbad ⟨h, hb⟩⟩
      rw [if_neg hbad]
      have := ih (i + 1) hi
      rwa [show i + 1 + n - 1 = i + n by omega, show i + 1 + n = i + (n + 1) by omega] at this

end Loops

section ReadData

open Fs

variable {fs : Fs} {inode offset length : Word}

/-- The checks of `read_data` before it copies anything. -/
def Fs.Starts (fs : Fs) (inode offset : Word) : Prop :=
  inode.toNat < fs.inodes.toNat ∧ offset.toNat < (fs.length inode.toNat).toNat ∧
    fs.GoodTo inode.toNat (offset.toNat - 1)

theorem skipLoop_of_goodTo (hgood : fs.GoodTo inode.toNat (offset.toNat - 1)) :
    skipLoop fs inode.toNat offset.toNat 0 0 0 (fs.blockNumber inode.toNat 0) =
      some (lazyOff offset.toNat, lazyIdx offset.toNat,
        fs.blockNumber inode.toNat (lazyIdx offset.toNat)) := by
  have h := (skipAt_eq offset.toNat 0 (hgood.mono (Nat.zero_le _))).1 (by simpa using hgood)
  simpa [skipAt, lazyOff, lazyIdx, skipLoop] using h

theorem skipLoop_of_not_goodTo (h0 : fs.GoodTo inode.toNat 0)
    (hgood : ¬ fs.GoodTo inode.toNat (offset.toNat - 1)) :
    skipLoop fs inode.toNat offset.toNat 0 0 0 (fs.blockNumber inode.toNat 0) = none := by
  have h := (skipAt_eq offset.toNat 0 h0).2 (by simpa using hgood)
  simpa only [skipAt, lazyOff, lazyIdx, Nat.zero_sub, Nat.zero_div, Nat.zero_mul] using h

theorem readData_of_starts (h : fs.Starts inode offset) :
    readData fs inode offset length =
      ⟨if (copyAt fs inode.toNat length.toNat offset.toNat).1 then
          BitVec.ofNat 32 (copyAt fs inode.toNat length.toNat offset.toNat).2.length
        else FAILURE,
        (copyAt fs inode.toNat length.toNat offset.toNat).2⟩ := by
  obtain ⟨hinode, hlen, hgood⟩ := h
  have h0 : fs.badBlock (fs.blockNumber inode.toNat 0) = false := hgood 0 (Nat.zero_le _)
  rw [readData, if_neg (by omega), if_neg (by simp [h0]), if_neg (by omega),
    skipLoop_of_goodTo hgood]
  rfl

theorem readData_of_not_starts (h : ¬ fs.Starts inode offset) :
    (readData fs inode offset length).bytes = [] := by
  rw [readData]
  by_cases hinode : fs.inodes.toNat ≤ inode.toNat
  · rw [if_pos hinode]
  · rw [if_neg hinode]
    by_cases hbad : fs.badBlock (fs.blockNumber inode.toNat 0) = true
    · simp [hbad]
    · by_cases hlen : (fs.length inode.toNat).toNat ≤ offset.toNat
      · simp [hbad, hlen]
      · have h0 : fs.GoodTo inode.toNat (0 - 1) := by
          intro b hb
          obtain rfl : b = 0 := by simpa using hb
          simpa using hbad
        have hskip : skipLoop fs inode.toNat offset.toNat 0 0 0 _ = none :=
          skipLoop_of_not_goodTo h0 fun hgood => h ⟨by omega, by omega, hgood⟩
        simp [hbad, hlen, hskip]

/-- How far `read_data` gets: to the requested length, the end of the file, or
the first block that cannot be read. -/
theorem lt_readData_length_iff (i : ℕ) :
    i < (readData fs inode offset length).bytes.length ↔
      i < length.toNat ∧ inode.toNat < fs.inodes.toNat ∧
        offset.toNat + i < (fs.length inode.toNat).toNat ∧
        fs.GoodTo inode.toNat (offset.toNat + i) := by
  by_cases h : fs.Starts inode offset
  · rw [readData_of_starts h]
    simp only [lt_copyAt_length_iff _ _ _ h.2.2, h.1, true_and]
  · rw [readData_of_not_starts h]
    refine iff_of_false (by simp) fun ⟨_, hinode, hlen, hgood⟩ => h ⟨hinode, by omega, ?_⟩
    exact hgood.mono (by omega)

theorem readData_getElem (i : ℕ) (hi : i < (readData fs inode offset length).bytes.length) :
    (readData fs inode offset length).bytes[i] = fs.fileByte inode.toNat (offset.toNat + i) := by
  by_cases h : fs.Starts inode offset
  · simp only [readData_of_starts h]
    exact copyAt_getElem _ _ _ _
  · rw [readData_of_not_starts h] at hi
    simp at hi

variable (offset length)

theorem readData_bytes (h : fs.ValidFile inode.toNat) :
    (readData fs inode offset length).bytes =
      ((fs.contents inode.toNat).drop offset.toNat).take length.toNat := by
  have hlt : ∀ i, i < (readData fs inode offset length).bytes.length ↔
      i < length.toNat ∧ offset.toNat + i < (fs.length inode.toNat).toNat := by
    intro i
    rw [lt_readData_length_iff]
    exact ⟨fun hi => ⟨hi.1, hi.2.2.1⟩, fun hi => ⟨hi.1, h.inode_lt, hi.2, h.goodTo (Or.inr hi.2)⟩⟩
  have hlen : (readData fs inode offset length).bytes.length =
      (((fs.contents inode.toNat).drop offset.toNat).take length.toNat).length := by
    rw [List.length_take, List.length_drop, h.contents_length]
    have h1 := hlt (min length.toNat ((fs.length inode.toNat).toNat - offset.toNat))
    have h2 := hlt (readData fs inode offset length).bytes.length
    have h3 := hlt ((readData fs inode offset length).bytes.length - 1)
    omega
  refine List.ext_getElem hlen fun i h1 h2 => ?_
  rw [readData_getElem, List.getElem_take, List.getElem_drop, contents_getElem]

theorem readData_ret (h : fs.ValidFile inode.toNat) :
    (readData fs inode offset length).ret =
      BitVec.ofNat 32 (readData fs inode offset length).bytes.length := by
  have h0 : fs.GoodTo inode.toNat 0 := h.goodTo (Or.inl rfl)
  by_cases hs : fs.Starts inode offset
  · have hfst := copyAt_fst length.toNat offset.toNat fun p hp => h.goodTo (Or.inr hp)
    rw [readData_of_starts hs, hfst]
    rfl
  · have hlen : (fs.length inode.toNat).toNat ≤ offset.toNat := by
      by_contra hlt
      exact hs ⟨h.inode_lt, by omega, h.goodTo (by omega)⟩
    have hbad : ¬ fs.badBlock (fs.blockNumber inode.toNat 0) = true := by
      simp [h0 0 (Nat.zero_le _)]
    have hinode := h.inode_lt
    rw [readData, if_neg (by omega), if_neg hbad, if_pos hlen]
    rfl

end ReadData

section ReadDentry

variable (fs : Fs) (u : UserMem) (p : Addr)

/-- The name at `p` is that of directory entry `e`. -/
def Fs.EntryMatches (e : ℕ) : Prop :=
  NameMatches (charAt u p) (fs.files e).filename FILE_NAME_SIZE 0

/-- Entry `e` is the first of the directory that the name at `p` matches. -/
def Fs.FirstMatch (e : ℕ) : Prop :=
  e < fs.direntries.toInt.toNat ∧ fs.EntryMatches u p e ∧ ∀ e' < e, ¬ fs.EntryMatches u p e'

theorem readDentryLoop_fst (n i : ℕ) :
    (∃ e, i ≤ e ∧ e < i + n ∧ fs.EntryMatches u p e ∧
      (∀ e', i ≤ e' → e' < e → ¬ fs.EntryMatches u p e') ∧
      (readDentryLoop fs (UserMem.stringAt p) n i u).1 = some (fs.files e)) ∨
    ((∀ e, i ≤ e → e < i + n → ¬ fs.EntryMatches u p e) ∧
      (readDentryLoop fs (UserMem.stringAt p) n i u).1 = none) := by
  induction n generalizing u i with
  | zero => exact Or.inr ⟨fun e h1 h2 => by omega, rfl⟩
  | succ n ih =>
    rw [readDentryLoop, UserMem.bind_run]
    have hmatch := strncmp_eq_zero_iff u p (fs.files i).filename FILE_NAME_SIZE 0
    have hbytes := strncmp_bytes u p (fs.files i).filename FILE_NAME_SIZE 0
    by_cases h0 : (strncmp (UserMem.stringAt p) (fs.files i).filename FILE_NAME_SIZE 0 u).1 = 0
    · rw [if_pos h0]
      exact Or.inl ⟨i, le_rfl, by omega, hmatch.mp h0, fun e' h1 h2 => by omega, rfl⟩
    · rw [if_neg h0]
      have hi : ¬ fs.EntryMatches u p i := fun h => h0 (hmatch.mpr h)
      set u' := (strncmp (UserMem.stringAt p) (fs.files i).filename FILE_NAME_SIZE 0 u).2 with hu'
      have hsame : ∀ e, fs.EntryMatches u' p e ↔ fs.EntryMatches u p e := fun e => by
        rw [Fs.EntryMatches, Fs.EntryMatches, show charAt u' p = charAt u p by
          funext j; rw [charAt, hbytes, charAt]]
      rcases ih u' (i + 1) with ⟨e, h1, h2, hm, hfirst, hres⟩ | ⟨hnone, hres⟩
      · refine Or.inl ⟨e, by omega, by omega, (hsame e).mp hm, fun e' h3 h4 => ?_, hres⟩
        rcases h3.eq_or_lt with rfl | hlt
        · exact hi
        · exact (hsame e').not.mp (hfirst e' hlt h4)
      · refine Or.inr ⟨fun e h3 h4 => ?_, hres⟩
        rcases h3.eq_or_lt with rfl | hlt
        · exact hi
        · exact (hsame e).not.mp (hnone e hlt (by omega))

/-- The search examines a byte of the name when it agrees with some entry, and goes
on, before it: an earlier match would not end before that byte either. -/
theorem touches_readDentryLoop (n i : ℕ) :
    UserMem.Touches u (readDentryLoop fs (UserMem.stringAt p) n i u).2 p fun j =>
      j < FILE_NAME_SIZE ∧
        ∃ e, i ≤ e ∧ e < i + n ∧ AgreeTo (charAt u p) (fs.files e).filename 0 j := by
  induction n generalizing u i with
  | zero => exact UserMem.Touches.none fun j ⟨_, e, h1, h2, _⟩ => by omega
  | succ n ih =>
    rw [readDentryLoop, UserMem.bind_run]
    have htouches := touches_strncmp u p (fs.files i).filename FILE_NAME_SIZE 0
    have hmatch := strncmp_eq_zero_iff u p (fs.files i).filename FILE_NAME_SIZE 0
    have hbytes := strncmp_bytes u p (fs.files i).filename FILE_NAME_SIZE 0
    generalize strncmp (UserMem.stringAt p) (fs.files i).filename FILE_NAME_SIZE 0 u = r at *
    have hchar : charAt r.2 p = charAt u p := by
      funext j
      rw [charAt, hbytes, charAt]
    by_cases h0 : r.1 = 0
    · rw [if_pos h0]
      refine htouches.congr fun j => ⟨?_, ?_⟩
      · rintro ⟨-, h1, hagree⟩
        exact ⟨by omega, i, le_rfl, by omega, hagree⟩
      · rintro ⟨h1, e, -, -, hagree⟩
        exact ⟨Nat.zero_le j, by omega,
          (hmatch.mp h0).agreeTo_of_scanTo (by omega) fun l h2 h3 => (hagree l h2 h3).2⟩
    · rw [if_neg h0]
      refine (htouches.trans (ih _ (i + 1))).congr fun j => ⟨?_, ?_⟩
      · rintro (⟨-, h1, hagree⟩ | ⟨h1, e, h2, h3, hagree⟩)
        · exact ⟨by omega, i, le_rfl, by omega, hagree⟩
        · exact ⟨h1, e, by omega, by omega, hchar ▸ hagree⟩
      · rintro ⟨h1, e, h2, h3, hagree⟩
        rcases h2.eq_or_lt with rfl | hlt
        · exact Or.inl ⟨Nat.zero_le j, by omega, hagree⟩
        · exact Or.inr ⟨h1, e, hlt, by omega, hchar.symm ▸ hagree⟩

theorem readDentryByName_fst :
    (∃ e, fs.FirstMatch u p e ∧
      (readDentryByName fs (UserMem.stringAt p) u).1 = some (fs.files e)) ∨
    ((∀ e < fs.direntries.toInt.toNat, ¬ fs.EntryMatches u p e) ∧
      (readDentryByName fs (UserMem.stringAt p) u).1 = none) := by
  rcases readDentryLoop_fst fs u p fs.direntries.toInt.toNat 0 with
    ⟨e, -, h2, hm, hfirst, hres⟩ | ⟨hnone, hres⟩
  · exact Or.inl ⟨e, ⟨by omega, hm, fun e' he' => hfirst e' (Nat.zero_le _) he'⟩, hres⟩
  · exact Or.inr ⟨fun e he => hnone e (Nat.zero_le _) (by omega), hres⟩

end ReadDentry

end SnoopDos
