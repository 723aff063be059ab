import SnoopDos.Proofs.ReadData
import SnoopDos.Spec.Accesses

/-! Which elements of the image `filesystem.c` goes to. Inodes and data blocks are
checked against the counts of the boot block; the number of directory entries, and
the number of blocks of a file, are not checked against the arrays that hold them. -/

namespace SnoopDos

open Fs

/-- The element is one of the arrays that the format declares. -/
def Access.InArrays (fs : Fs) : Access → Prop
  | .file i => i < NUM_FILES_CAP
  | .inode i => i < fs.inodes.toNat
  | .blockNumber i idx => i < fs.inodes.toNat ∧ idx < MAX_BLOCKS
  | .data block k => block.toNat < fs.datablocks.toNat ∧ k < FS_BLOCK_LENGTH

def BLOCKS_END : ℕ := MAX_BLOCKS * FS_BLOCK_LENGTH

section Loops

variable (fs : Fs) (inode : ℕ)

def skipAtT (n i : ℕ) : Traced (Option (ℕ × ℕ × Word)) :=
  skipLoopT fs inode n i (lazyOff i) (lazyIdx i) (fs.blockNumber inode (lazyIdx i))

/-- The traced copy loop with its cursor at position `o`. -/
def copyAtT (n o : ℕ) : Traced (Bool × List UInt8) :=
  copyLoopT fs inode n (lazyOff o) (lazyIdx o) o (fs.blockNumber inode (lazyIdx o))

variable {fs inode}

theorem badBlock_eq_false_lt {block : Word} (h : fs.badBlock block = false) :
    block.toNat < fs.datablocks.toNat := by
  simp only [badBlock, Bool.or_eq_false_iff, decide_eq_false_iff_not] at h
  omega

theorem goodTo_of_not_bad {o : ℕ} (hgood : fs.GoodTo inode (o - 1))
    (hbad : ¬ (OpensBlock o ∧ fs.badBlock (fs.blockNumber inode (o / FS_BLOCK_LENGTH)) = true)) :
    fs.GoodTo inode o :=
  (goodTo_iff o).mpr ⟨hgood, fun h => by simpa using fun hb => hbad ⟨h, hb⟩⟩

theorem opensBlock_lt_iff {o : ℕ} (ho : o ≤ BLOCKS_END) :
    o / FS_BLOCK_LENGTH < MAX_BLOCKS ↔ o ≠ BLOCKS_END := by
  simp only [BLOCKS_END, MAX_BLOCKS, FS_BLOCK_LENGTH] at *
  omega

theorem opensBlock_blocksEnd : OpensBlock BLOCKS_END := by decide

/-- The skip loop stays inside as long as it does not go past the last block, or
meets a block that cannot be read before. -/
theorem all_skipAtT (hinode : inode < fs.inodes.toNat) (n i : ℕ) (hi : i ≤ BLOCKS_END)
    (hgood : fs.GoodTo inode (i - 1)) : (skipAtT fs inode n i).All (Access.InArrays fs) ↔
      i + n ≤ BLOCKS_END ∨ ¬ fs.GoodTo inode (BLOCKS_END - 1) := by
  induction n generalizing i with
  | zero => exact iff_of_true (Trace.all_pure _) (Or.inl hi)
  | succ n ih =>
    rw [skipAtT, skipLoopT]
    by_cases hopens : OpensBlock i
    · obtain ⟨-, hidx, hoff', hidx'⟩ := lazy_of_opensBlock hopens
      rw [if_pos (show i ≠ 0 ∧ i % FS_BLOCK_LENGTH = 0 from hopens), Trace.all_bind, hidx,
        blockNumberT_val]
      have haccess : (fs.blockNumberT inode (i / FS_BLOCK_LENGTH)).All (Access.InArrays fs) ↔
          i ≠ BLOCKS_END := by
        rw [← opensBlock_lt_iff hi]
        exact (Trace.all_access _ _).trans (and_iff_right hinode)
      rw [haccess]
      rcases eq_or_ne i BLOCKS_END with rfl | hne
      · refine iff_of_false (fun h => h.1 rfl) (not_or.mpr ⟨by omega, not_not.mpr hgood⟩)
      · by_cases hbad : fs.badBlock (fs.blockNumber inode (i / FS_BLOCK_LENGTH)) = true
        · rw [if_pos hbad]
          refine iff_of_true ⟨hne, Trace.all_pure _⟩ (Or.inr fun h => ?_)
          have hnext := ((goodTo_iff i).mp (h.mono (by omega))).2 hopens
          simp [hnext] at hbad
        · rw [if_neg hbad]
          have hnext := ih (i + 1) (by omega) (goodTo_of_not_bad hgood fun h => hbad h.2)
          rw [skipAtT, hoff', hidx'] at hnext
          rw [hnext, Nat.add_assoc, Nat.add_comm 1 n]
          exact and_iff_right hne
    · obtain ⟨hoff, hidx, hoff', hidx'⟩ := lazy_of_not_opensBlock hopens
      have hne : i ≠ BLOCKS_END := fun h => hopens (h ▸ opensBlock_blocksEnd)
      have hnext := ih (i + 1) (by omega) (goodTo_of_not_bad hgood fun h => hopens h.1)
      rw [skipAtT, hoff', hidx'] at hnext
      rw [if_neg (show ¬ (i ≠ 0 ∧ i % FS_BLOCK_LENGTH = 0) from hopens), hoff, hidx, hnext,
        Nat.add_assoc, Nat.add_comm 1 n]

theorem all_copyAtT (hinode : inode < fs.inodes.toNat) (n o : ℕ) (ho : o ≤ BLOCKS_END)
    (hgood : fs.GoodTo inode (o - 1)) : (copyAtT fs inode n o).All (Access.InArrays fs) ↔
      o + min n ((fs.length inode).toNat - o) ≤ BLOCKS_END ∨
        ¬ fs.GoodTo inode (BLOCKS_END - 1) := by
  induction n generalizing o with
  | zero => exact iff_of_true (Trace.all_pure _) (Or.inl (by omega))
  | succ n ih =>
    have hlength : (fs.lengthT inode).All (Access.InArrays fs) := (Trace.all_access _ _).mpr hinode
    rw [copyAtT, copyLoopT, Trace.all_bind, lengthT_val, and_iff_right hlength]
    by_cases hlen : o < (fs.length inode).toNat
    · have hmin : o + min (n + 1) ((fs.length inode).toNat - o) =
          o + 1 + min n ((fs.length inode).toNat - (o + 1)) := by omega
      have hdata {block : Word} {k : ℕ} (hblock : fs.badBlock block = false)
          (hk : k < FS_BLOCK_LENGTH) : (fs.dataT block k).All (Access.InArrays fs) :=
        (Trace.all_access _ _).mpr ⟨badBlock_eq_false_lt hblock, hk⟩
      rw [if_pos hlen, hmin]
      by_cases hopens : OpensBlock o
      · obtain ⟨hoff, hidx, hoff', hidx'⟩ := lazy_of_opensBlock hopens
        have haccess : (fs.blockNumberT inode (o / FS_BLOCK_LENGTH)).All (Access.InArrays fs) ↔
            o ≠ BLOCKS_END := by
          rw [← opensBlock_lt_iff ho]
          exact (Trace.all_access _ _).trans (and_iff_right hinode)
        rw [hoff, hidx, if_pos (by decide), Trace.all_bind, blockNumberT_val, haccess]
        rcases eq_or_ne o BLOCKS_END with rfl | hne
        · exact iff_of_false (fun h => h.1 rfl) (not_or.mpr ⟨by omega, not_not.mpr hgood⟩)
        · rw [and_iff_right hne]
          by_cases hbad : fs.badBlock (fs.blockNumber inode (o / FS_BLOCK_LENGTH)) = true
          · rw [if_pos hbad]
            refine iff_of_true (Trace.all_pure _) (Or.inr fun h => ?_)
            have hnext := ((goodTo_iff o).mp (h.mono (by omega))).2 hopens
            simp [hnext] at hbad
          · have hnext := ih (o + 1) (by omega) (goodTo_of_not_bad hgood fun h => hbad h.2)
            rw [copyAtT, hoff', hidx'] at hnext
            rw [if_neg hbad, Trace.all_bind, Trace.all_bind, hnext,
              and_iff_right (hdata (by simpa using hbad) (by decide)), and_iff_left (Trace.all_pure _)]
      · obtain ⟨hoff, hidx, hoff', hidx'⟩ := lazy_of_not_opensBlock hopens
        have hne : o ≠ BLOCKS_END := fun h => hopens (h ▸ opensBlock_blocksEnd)
        have hnow := goodTo_of_not_bad hgood fun h => hopens h.1
        have hk : ¬ (o % FS_BLOCK_LENGTH ≠ 0 ∧ o % FS_BLOCK_LENGTH % FS_BLOCK_LENGTH = 0) := by
          rw [Nat.mod_mod]
          exact fun h => h.1 h.2
        have hnext := ih (o + 1) (by omega) hnow
        rw [copyAtT, hoff', hidx'] at hnext
        rw [hoff, hidx, if_neg hk, Trace.all_bind, Trace.all_bind, hnext,
          and_iff_right (hdata (hnow _ le_rfl) (Nat.mod_lt _ (by decide))),
          and_iff_left (Trace.all_pure _)]
    · rw [if_neg hlen]
      exact iff_of_true (Trace.all_pure _) (Or.inl (by omega))

end Loops

section Calls

/-- The calls of the filesystem that read the image. -/
inductive FsCall
  | byName (fname : ℕ → UInt8)
  | byIndex (index : Word)
  | data (inode offset length : Word)

namespace FsCall

variable (fs : Fs)

def log : FsCall → List Access
  | .byName fname => (readDentryByNameT fs fname).log
  | .byIndex index => (readDentryByIndexT fs index).log
  | .data inode offset length => (readDataT fs inode offset length).log

def Fails : FsCall → Prop
  | .byName fname => Id.run (readDentryByName fs (fun j => (fname j : Id UInt8))) = none
  | .byIndex index => readDentryByIndex fs index = none
  | .data inode offset length => (readData fs inode offset length).ret = FAILURE

def Named (fname : ℕ → UInt8) (e : ℕ) : Prop :=
  Id.run (strncmp (fun j => (fname j : Id UInt8)) (fs.files e).filename FILE_NAME_SIZE 0) = 0

/-- The call asks for something outside of the arrays: a search that the declared
entries do not end, an index past them, an inode or a block that does not exist. -/
def Leaves : FsCall → Prop
  | .byName fname =>
    (NUM_FILES_CAP : ℤ) < fs.direntries.toInt ∧ ∀ e < NUM_FILES_CAP, ¬ Named fs fname e
  | .byIndex index => NUM_FILES_CAP ≤ index.toNat
  | .data inode offset length => fs.inodes.toNat ≤ inode.toNat ∨
    ∃ b, (b = 0 ∨ offset.toNat < (fs.length inode.toNat).toNat ∧
        b * FS_BLOCK_LENGTH < offset.toNat + fs.available inode offset length) ∧
      (MAX_BLOCKS ≤ b ∨ fs.badBlock (fs.blockNumber inode.toNat b) = true)

/-- Every access is inside the arrays, and a call that would leave them fails. -/
def Contained (c : FsCall) : Prop := (∀ a ∈ c.log fs, a.InArrays fs) ∧ (c.Leaves fs → c.Fails fs)

/-- The counts of the image that the call goes by fit the arrays, as far as it gets. -/
def Bounded : FsCall → Prop
  | .byName fname =>
    fs.direntries.toInt ≤ NUM_FILES_CAP ∨ ∃ e < NUM_FILES_CAP, Named fs fname e
  | .byIndex index => index.toNat < NUM_FILES_CAP ∨ fs.direntries.toNat ≤ index.toNat
  | .data inode offset length =>
    fs.inodes.toNat ≤ inode.toNat ∨ (fs.length inode.toNat).toNat ≤ offset.toNat ∨
      offset.toNat + fs.available inode offset length ≤ BLOCKS_END ∨
      ∃ b < MAX_BLOCKS, fs.badBlock (fs.blockNumber inode.toNat b) = true

end FsCall

variable {fs : Fs}

theorem contained_byIndex (index : Word) :
    (FsCall.byIndex index).Contained fs ↔ (FsCall.byIndex index).Bounded fs := by
  change (readDentryByIndexT fs index).All (Access.InArrays fs) ∧
    (NUM_FILES_CAP ≤ index.toNat → readDentryByIndex fs index = none) ↔
    index.toNat < NUM_FILES_CAP ∨ fs.direntries.toNat ≤ index.toNat
  rw [readDentryByIndexT, readDentryByIndex]
  by_cases h : fs.direntries.toNat ≤ index.toNat
  · rw [if_pos h, if_pos h]
    exact iff_of_true ⟨Trace.all_pure _, fun _ => rfl⟩ (Or.inr h)
  · rw [if_neg h, if_neg h, or_iff_left h, Trace.all_bind, and_iff_left (Trace.all_pure _)]
    have haccess : (fs.filesT index.toNat).All (Access.InArrays fs) ↔ index.toNat < NUM_FILES_CAP :=
      Trace.all_access _ _
    rw [haccess]
    exact and_iff_left_of_imp fun hlt hge => absurd hge (not_le.mpr hlt)

theorem all_readDentryLoopT (fname : ℕ → UInt8) (n i : ℕ) (hi : i ≤ NUM_FILES_CAP) :
    (readDentryLoopT fs fname n i).All (Access.InArrays fs) ↔
      i + n ≤ NUM_FILES_CAP ∨ ∃ e, i ≤ e ∧ e < NUM_FILES_CAP ∧ FsCall.Named fs fname e := by
  induction n generalizing i with
  | zero => exact iff_of_true (Trace.all_pure _) (Or.inl hi)
  | succ n ih =>
    have haccess : (fs.filesT i).All (Access.InArrays fs) ↔ i < NUM_FILES_CAP := Trace.all_access _ _
    rw [readDentryLoopT, Trace.all_bind, haccess, filesT_val]
    by_cases hlt : i < NUM_FILES_CAP
    · rw [and_iff_right hlt]
      by_cases hnamed : Id.run (strncmp (fun j => (fname j : Id UInt8)) (fs.files i).filename
          FILE_NAME_SIZE 0) = 0
      · rw [if_pos hnamed, Trace.all_bind, haccess]
        exact iff_of_true ⟨hlt, Trace.all_pure _⟩ (Or.inr ⟨i, le_rfl, hlt, hnamed⟩)
      · rw [if_neg hnamed, ih (i + 1) hlt, Nat.add_assoc, Nat.add_comm 1 n]
        refine or_congr_right ⟨?_, ?_⟩
        · rintro ⟨e, he, hrest⟩
          exact ⟨e, by omega, hrest⟩
        · rintro ⟨e, he, hrest⟩
          rcases he.eq_or_lt with rfl | he
          · exact absurd hrest.2 hnamed
          · exact ⟨e, he, hrest⟩
    · refine iff_of_false (fun h => hlt h.1) (not_or.mpr ⟨by omega, ?_⟩)
      rintro ⟨e, h1, h2, -⟩
      omega

theorem contained_byName (fname : ℕ → UInt8) :
    (FsCall.byName fname).Contained fs ↔ (FsCall.byName fname).Bounded fs := by
  have hall : (readDentryByNameT fs fname).All (Access.InArrays fs) ↔
      fs.direntries.toInt ≤ NUM_FILES_CAP ∨ ∃ e < NUM_FILES_CAP, FsCall.Named fs fname e := by
    rw [readDentryByNameT, all_readDentryLoopT _ _ _ (Nat.zero_le _)]
    refine or_congr (by omega) ?_
    simp only [Nat.zero_le, true_and]
  refine (and_congr_left' hall).trans (and_iff_left_of_imp ?_)
  rintro (hle | ⟨e, he, hnamed⟩) ⟨hmany, hnone⟩
  · exact absurd hmany (not_lt.mpr hle)
  · exact absurd hnamed (hnone e he)

theorem all_readDataT (inode offset length : Word) :
    (readDataT fs inode offset length).All (Access.InArrays fs) ↔
      (FsCall.data inode offset length).Bounded fs := by
  change _ ↔ fs.inodes.toNat ≤ inode.toNat ∨ (fs.length inode.toNat).toNat ≤ offset.toNat ∨
    offset.toNat + fs.available inode offset length ≤ BLOCKS_END ∨
    ∃ b < MAX_BLOCKS, fs.badBlock (fs.blockNumber inode.toNat b) = true
  have hbadBlock : (∃ b < MAX_BLOCKS, fs.badBlock (fs.blockNumber inode.toNat b) = true) ↔
      ¬ fs.GoodTo inode.toNat (BLOCKS_END - 1) := by
    have hindex (b : ℕ) : b ≤ (BLOCKS_END - 1) / FS_BLOCK_LENGTH ↔ b < MAX_BLOCKS := by
      rw [show (BLOCKS_END - 1) / FS_BLOCK_LENGTH = 1022 from rfl, MAX_BLOCKS]
      omega
    simp only [GoodTo, not_forall, exists_prop, hindex, Bool.not_eq_false]
  rw [hbadBlock, readDataT]
  by_cases hinode : fs.inodes.toNat ≤ inode.toNat
  · rw [if_pos hinode]
    exact iff_of_true (Trace.all_pure _) (Or.inl hinode)
  have hlt : inode.toNat < fs.inodes.toNat := not_le.mp hinode
  have hfirst : (fs.blockNumberT inode.toNat 0).All (Access.InArrays fs) :=
    (Trace.all_access _ _).mpr ⟨hlt, by decide⟩
  rw [if_neg hinode, Trace.all_bind, and_iff_right hfirst, blockNumberT_val, or_iff_right hinode]
  by_cases hbad : fs.badBlock (fs.blockNumber inode.toNat 0) = true
  · rw [if_pos hbad]
    refine iff_of_true (Trace.all_pure _) (Or.inr (Or.inr fun h => ?_))
    simp [h 0 (Nat.zero_le _)] at hbad
  have h0 : fs.GoodTo inode.toNat 0 := goodTo_zero_iff.mpr (by simpa using hbad)
  have hlength : (fs.lengthT inode.toNat).All (Access.InArrays fs) := (Trace.all_access _ _).mpr hlt
  rw [if_neg hbad, Trace.all_bind, and_iff_right hlength, lengthT_val]
  by_cases hlen : (fs.length inode.toNat).toNat ≤ offset.toNat
  · rw [if_pos hlen]
    exact iff_of_true (Trace.all_pure _) (Or.inl hlen)
  have hskip : (skipLoopT fs inode.toNat offset.toNat 0 0 0 (fs.blockNumber inode.toNat 0)).All
      (Access.InArrays fs) ↔ offset.toNat ≤ BLOCKS_END ∨ ¬ fs.GoodTo inode.toNat (BLOCKS_END - 1) := by
    have h := all_skipAtT hlt offset.toNat 0 (Nat.zero_le _) h0
    simpa [skipAtT, lazyOff, lazyIdx] using h
  have havail : fs.available inode offset length =
      min length.toNat ((fs.length inode.toNat).toNat - offset.toNat) := if_neg hlen
  rw [if_neg hlen, or_iff_right hlen, Trace.all_bind, hskip, skipLoopT_val, havail]
  by_cases hgood : fs.GoodTo inode.toNat (offset.toNat - 1)
  · rw [skipLoop_of_goodTo hgood]
    by_cases hend : offset.toNat ≤ BLOCKS_END
    · have hcopy := all_copyAtT hlt length.toNat offset.toNat hend hgood
      rw [copyAtT] at hcopy
      rw [and_iff_right (Or.inl hend), Trace.all_bind, hcopy, and_iff_left (Trace.all_pure _)]
    · have hlast : fs.GoodTo inode.toNat (BLOCKS_END - 1) := hgood.mono (by omega)
      refine iff_of_false (fun h => ?_) (not_or.mpr ⟨by omega, not_not.mpr hlast⟩)
      exact h.1.elim hend fun hnot => hnot hlast
  · rw [skipLoop_of_not_goodTo h0 hgood, and_iff_left (Trace.all_pure _)]
    by_cases hend : offset.toNat ≤ BLOCKS_END
    · have hlast : ¬ fs.GoodTo inode.toNat (BLOCKS_END - 1) := fun h => hgood (h.mono (by omega))
      exact iff_of_true (Or.inl hend) (Or.inr hlast)
    · rw [or_iff_right hend, or_iff_right (by omega)]

theorem contained_data (inode offset length : Word) :
    (FsCall.data inode offset length).Contained fs ↔
      (FsCall.data inode offset length).Bounded fs := by
  refine (and_congr_left' (all_readDataT inode offset length)).trans (and_iff_left_of_imp ?_)
  intro hbounded hleaves
  change (readData fs inode offset length).ret = FAILURE
  by_cases hinode : fs.inodes.toNat ≤ inode.toNat
  · rw [readData, if_pos hinode]
  · refine readData_of_not_reachable (not_le.mp hinode) fun hreachable => ?_
    obtain ⟨h0, hgood⟩ := hreachable
    obtain ⟨b, hneeded, hout⟩ := hleaves.resolve_left hinode
    rcases hneeded with rfl | ⟨hlen, hb⟩
    · rcases hout with hout | hbad
      · exact absurd hout (by decide)
      · simp [h0 0 (Nat.zero_le _)] at hbad
    · have hlast := hgood hlen
      have hread (c : ℕ) (hc : c ≤ b) : fs.badBlock (fs.blockNumber inode.toNat c) = false := by
        refine hlast c ?_
        rw [Nat.le_div_iff_mul_le (by decide)]
        have := Nat.mul_le_mul_right FS_BLOCK_LENGTH hc
        omega
      rcases hout with hout | hbad
      · have hfar : BLOCKS_END ≤ b * FS_BLOCK_LENGTH := Nat.mul_le_mul_right _ hout
        rcases hbounded with h | h | h | ⟨c, hc, hbad⟩
        · exact hinode h
        · omega
        · omega
        · simp [hread c (by omega)] at hbad
      · simp [hread b le_rfl] at hbad

end Calls

/-- A call of the filesystem stays inside the arrays of the image, and fails where
it would leave them, exactly when the counts it goes by fit the arrays. -/
theorem image_bounds (fs : Fs) (c : FsCall) : c.Contained fs ↔ c.Bounded fs := by
  cases c with
  | byName fname => exact contained_byName fname
  | byIndex index => exact contained_byIndex index
  | data inode offset length => exact contained_data inode offset length

/-- A boot block that declares one entry more than the array has. -/
def crowdedFs : Fs where
  image a := if a = 0 then 64 else 0
  inodesAddr := 0#32

/-- The entry past the array is read, and the call succeeds. -/
theorem entry_past_array : ¬ (FsCall.byIndex 63#32).Contained crowdedFs := by
  intro h
  have hfile : (Access.file 63).InArrays crowdedFs := h.1 _ (List.mem_singleton.mpr rfl)
  exact absurd hfile (lt_irrefl 63)

end SnoopDos
