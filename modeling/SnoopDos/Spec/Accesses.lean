import SnoopDos.Lib.Trace
import SnoopDos.Spec.Filesystem

/-! `filesystem.c` once more, with every access to the arrays of the image logged. -/

namespace SnoopDos

/-- An access to an element of an array of the image. -/
inductive Access
  | file (i : ℕ)
  | inode (inode : ℕ)
  | blockNumber (inode idx : ℕ)
  | data (block : Word) (k : ℕ)

abbrev Traced := Trace Access

namespace Fs

variable (fs : Fs)

def filesT (i : ℕ) : Traced Dentry := .access (.file i) (fs.files i)

def lengthT (inode : ℕ) : Traced Word := .access (.inode inode) (fs.length inode)

def blockNumberT (inode idx : ℕ) : Traced Word :=
  .access (.blockNumber inode idx) (fs.blockNumber inode idx)

def dataT (block : Word) (k : ℕ) : Traced UInt8 := .access (.data block k) (fs.data block k)

end Fs

/-- `readDentryLoop` on a kernel string; the entry found is accessed again by the `memcpy`. -/
def readDentryLoopT (fs : Fs) (fname : ℕ → UInt8) : ℕ → ℕ → Traced (Option Dentry)
  | 0, _ => pure none
  | n + 1, i => do
    let entry ← fs.filesT i
    if Id.run (strncmp (fun j => (fname j : Id UInt8)) entry.filename FILE_NAME_SIZE 0) = 0 then do
      let entry ← fs.filesT i
      pure (some entry)
    else readDentryLoopT fs fname n (i + 1)

def readDentryByNameT (fs : Fs) (fname : ℕ → UInt8) : Traced (Option Dentry) :=
  readDentryLoopT fs fname fs.direntries.toInt.toNat 0

def readDentryByIndexT (fs : Fs) (index : Word) : Traced (Option Dentry) :=
  if fs.direntries.toNat ≤ index.toNat then pure none
  else do
    let entry ← fs.filesT index.toNat
    pure (some entry)

def skipLoopT (fs : Fs) (inode : ℕ) : ℕ → ℕ → ℕ → ℕ → Word → Traced (Option (ℕ × ℕ × Word))
  | 0, _, j, idx, block => pure (some (j, idx, block))
  | n + 1, i, j, idx, block =>
    if i ≠ 0 ∧ i % FS_BLOCK_LENGTH = 0 then do
      let block' ← fs.blockNumberT inode (idx + 1)
      if fs.badBlock block' then pure none
      else skipLoopT fs inode n (i + 1) 1 (idx + 1) block'
    else skipLoopT fs inode n (i + 1) (j + 1) idx block

def copyLoopT (fs : Fs) (inode : ℕ) : ℕ → ℕ → ℕ → ℕ → Word → Traced (Bool × List UInt8)
  | 0, _, _, _, _ => pure (true, [])
  | n + 1, k, idx, overall, block => do
    let len ← fs.lengthT inode
    if overall < len.toNat then
      if k ≠ 0 ∧ k % FS_BLOCK_LENGTH = 0 then do
        let block' ← fs.blockNumberT inode (idx + 1)
        if fs.badBlock block' then pure (false, [])
        else do
          let c ← fs.dataT block' 0
          let r ← copyLoopT fs inode n 1 (idx + 1) (overall + 1) block'
          pure (r.1, c :: r.2)
      else do
        let c ← fs.dataT block k
        let r ← copyLoopT fs inode n (k + 1) idx (overall + 1) block
        pure (r.1, c :: r.2)
    else pure (true, [])

def readDataT (fs : Fs) (inode offset length : Word) : Traced ReadData :=
  if fs.inodes.toNat ≤ inode.toNat then pure ⟨FAILURE, []⟩
  else do
    let block ← fs.blockNumberT inode.toNat 0
    if fs.badBlock block then pure ⟨FAILURE, []⟩
    else do
      let len ← fs.lengthT inode.toNat
      if len.toNat ≤ offset.toNat then pure ⟨0#32, []⟩
      else do
        let skipped ← skipLoopT fs inode.toNat offset.toNat 0 0 0 block
        match skipped with
        | none => pure ⟨FAILURE, []⟩
        | some (j, idx, block) => do
          let r ← copyLoopT fs inode.toNat length.toNat j idx offset.toNat block
          pure ⟨if r.1 then BitVec.ofNat 32 r.2.length else FAILURE, r.2⟩

section Erasure

variable (fs : Fs)

@[simp] theorem filesT_val (i : ℕ) : (fs.filesT i).val = fs.files i := rfl

@[simp] theorem lengthT_val (inode : ℕ) : (fs.lengthT inode).val = fs.length inode := rfl

@[simp] theorem blockNumberT_val (inode idx : ℕ) :
    (fs.blockNumberT inode idx).val = fs.blockNumber inode idx := rfl

@[simp] theorem dataT_val (block : Word) (k : ℕ) : (fs.dataT block k).val = fs.data block k := rfl

theorem readDentryLoopT_val (fname : ℕ → UInt8) (n i : ℕ) :
    (readDentryLoopT fs fname n i).val =
      Id.run (readDentryLoop fs (fun j => (fname j : Id UInt8)) n i) := by
  induction n generalizing i with
  | zero => rfl
  | succ n ih =>
    rw [readDentryLoopT, readDentryLoop, Trace.val_bind, Id.run_bind]
    by_cases h : Id.run (strncmp (fun j => (fname j : Id UInt8)) (fs.files i).filename
        FILE_NAME_SIZE 0) = 0
    · rw [if_pos h]
      exact congrArg Trace.val (if_pos h)
    · rw [if_neg h]
      exact (congrArg Trace.val (if_neg h)).trans (ih (i + 1))

theorem readDentryByNameT_val (fname : ℕ → UInt8) :
    (readDentryByNameT fs fname).val =
      Id.run (readDentryByName fs (fun j => (fname j : Id UInt8))) :=
  readDentryLoopT_val fs fname _ 0

theorem readDentryByIndexT_val (index : Word) :
    (readDentryByIndexT fs index).val = readDentryByIndex fs index := by
  rw [readDentryByIndexT, readDentryByIndex]
  by_cases h : fs.direntries.toNat ≤ index.toNat
  · rw [if_pos h, if_pos h]
    rfl
  · rw [if_neg h, if_neg h]
    rfl

theorem skipLoopT_val (inode n i j idx : ℕ) (block : Word) :
    (skipLoopT fs inode n i j idx block).val = skipLoop fs inode n i j idx block := by
  induction n generalizing i j idx block with
  | zero => rfl
  | succ n ih =>
    rw [skipLoopT, skipLoop]
    by_cases hopens : i ≠ 0 ∧ i % FS_BLOCK_LENGTH = 0
    · rw [if_pos hopens, if_pos hopens]
      by_cases hbad : fs.badBlock (fs.blockNumber inode (idx + 1)) = true
      · exact (congrArg Trace.val (if_pos hbad)).trans (if_pos hbad).symm
      · exact (congrArg Trace.val (if_neg hbad)).trans ((ih _ _ _ _).trans (if_neg hbad).symm)
    · rw [if_neg hopens, if_neg hopens]
      exact ih _ _ _ _

theorem copyLoopT_val (inode n k idx overall : ℕ) (block : Word) :
    (copyLoopT fs inode n k idx overall block).val = copyLoop fs inode n k idx overall block := by
  induction n generalizing k idx overall block with
  | zero => rfl
  | succ n ih =>
    rw [copyLoopT, copyLoop, Trace.val_bind, lengthT_val]
    by_cases hlen : overall < (fs.length inode).toNat
    · rw [if_pos hlen, if_pos hlen]
      by_cases hopens : k ≠ 0 ∧ k % FS_BLOCK_LENGTH = 0
      · rw [if_pos hopens, if_pos hopens]
        by_cases hbad : fs.badBlock (fs.blockNumber inode (idx + 1)) = true
        · exact (congrArg Trace.val (if_pos hbad)).trans (if_pos hbad).symm
        · refine (congrArg Trace.val (if_neg hbad)).trans (Eq.trans ?_ (if_neg hbad).symm)
          rw [Trace.val_bind, Trace.val_bind, ih]
          rfl
      · rw [if_neg hopens, if_neg hopens, Trace.val_bind, Trace.val_bind, ih]
        rfl
    · rw [if_neg hlen, if_neg hlen]
      rfl

theorem readDataT_val (inode offset length : Word) :
    (readDataT fs inode offset length).val = readData fs inode offset length := by
  rw [readDataT, readData]
  by_cases hinode : fs.inodes.toNat ≤ inode.toNat
  · rw [if_pos hinode, if_pos hinode]
    rfl
  · rw [if_neg hinode, if_neg hinode]
    by_cases hbad : fs.badBlock (fs.blockNumber inode.toNat 0) = true
    · exact (congrArg Trace.val (if_pos hbad)).trans (if_pos hbad).symm
    · refine (congrArg Trace.val (if_neg hbad)).trans (Eq.trans ?_ (if_neg hbad).symm)
      rw [Trace.val_bind, lengthT_val]
      by_cases hlen : (fs.length inode.toNat).toNat ≤ offset.toNat
      · rw [if_pos hlen, if_pos hlen]
        rfl
      · rw [if_neg hlen, if_neg hlen, Trace.val_bind, skipLoopT_val, blockNumberT_val]
        cases skipLoop fs inode.toNat offset.toNat 0 0 0 (fs.blockNumber inode.toNat 0) with
        | none => rfl
        | some cursor =>
          simp only [Trace.val_bind, Trace.val_pure, copyLoopT_val]

end Erasure

end SnoopDos
