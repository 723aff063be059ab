import SnoopDos.Spec.Strings

/-! `filesystem.c`: the boot block, the inodes and the data blocks, read straight
from the bytes of the image. Block 0 is the boot block, then come the inodes, one
block each, then the data blocks. -/

namespace SnoopDos

def FS_BLOCK_LENGTH : ℕ := 4096
def FILE_NAME_SIZE : ℕ := 32
def FILE_NAME_LST_IDX : ℕ := 31
def MAX_BLOCKS : ℕ := 1023
def NUM_FILES_CAP : ℕ := 63

def FILETYPE_DEVICE : Word := 0#32
def FILETYPE_DIRECTORY : Word := 1#32
def FILETYPE_REGULAR : Word := 2#32

/-- The little-endian word at offset `o`. -/
def le32 (f : ℕ → UInt8) (o : ℕ) : Word :=
  BitVec.ofNat 32 ((f o).toNat + 2 ^ 8 * (f (o + 1)).toNat + 2 ^ 16 * (f (o + 2)).toNat +
    2 ^ 24 * (f (o + 3)).toNat)

/-- A filesystem image: its bytes from `start_addr` on, and the address of the
inode array, which file descriptors point into. -/
structure Fs where
  image : ℕ → UInt8
  inodesAddr : Addr

/-- `dentry_t`. The name is what lies in memory from `filename` on. -/
structure Dentry where
  filename : ℕ → UInt8
  filetype : Word
  inode : Word
  reserved : ℕ → UInt8

namespace Fs

variable (fs : Fs)

/-- `bootblock->direntries`. -/
def direntries : Word := le32 fs.image 0

/-- `bootblock->inodes`. -/
def inodes : Word := le32 fs.image 4

/-- `bootblock->datablocks`. -/
def datablocks : Word := le32 fs.image 8

/-- `bootblock->files[i]`. -/
def files (i : ℕ) : Dentry where
  filename j := fs.image (64 + 64 * i + j)
  filetype := le32 fs.image (64 + 64 * i + 32)
  inode := le32 fs.image (64 + 64 * i + 36)
  reserved j := fs.image (64 + 64 * i + 40 + j)

/-- `inodes[inode].length`. -/
def length (inode : ℕ) : Word := le32 fs.image (FS_BLOCK_LENGTH + FS_BLOCK_LENGTH * inode)

/-- `inodes[inode].block_numbers[idx]`. -/
def blockNumber (inode idx : ℕ) : Word :=
  le32 fs.image (FS_BLOCK_LENGTH + FS_BLOCK_LENGTH * inode + 4 + 4 * idx)

/-- `datablocks[block].data[k]`. -/
def data (block : Word) (k : ℕ) : UInt8 :=
  fs.image (FS_BLOCK_LENGTH + FS_BLOCK_LENGTH * fs.inodes.toNat + FS_BLOCK_LENGTH * block.toNat + k)

/-- The check `block_num < 0 || block_num >= bootblock->datablocks`. -/
def badBlock (block : Word) : Bool := block.toInt < 0 || fs.datablocks.toNat ≤ block.toNat

end Fs

section ReadDentry

variable {m : Type → Type} [Monad m]

/-- Loop of `read_dentry_by_name`, `n` entries to go from entry `i`. -/
def readDentryLoop (fs : Fs) (fname : ℕ → m UInt8) : ℕ → ℕ → m (Option Dentry)
  | 0, _ => pure none
  | n + 1, i => do
    let c ← strncmp fname (fs.files i).filename FILE_NAME_SIZE 0
    if c = 0 then pure (some (fs.files i)) else readDentryLoop fs fname n (i + 1)

/-- `read_dentry_by_name`: `none` is `FAILURE`. The count is the signed
`int num_files`. -/
def readDentryByName (fs : Fs) (fname : ℕ → m UInt8) : m (Option Dentry) :=
  readDentryLoop fs fname fs.direntries.toInt.toNat 0

/-- The same loop with the output parameter: what it returns and leaves in `*dentry`. -/
def readDentryIntoLoop (fs : Fs) (fname : ℕ → m UInt8) (dentry : Dentry) :
    ℕ → ℕ → m (Word × Dentry)
  | 0, _ => pure (FAILURE, dentry)
  | n + 1, i => do
    let c ← strncmp fname (fs.files i).filename FILE_NAME_SIZE 0
    if c = 0 then
      let dentry := fs.files i
      pure (SUCCESS, dentry)
    else readDentryIntoLoop fs fname dentry n (i + 1)

/-- `read_dentry_by_name` with its output parameter. -/
def readDentryByNameInto (fs : Fs) (fname : ℕ → m UInt8) (dentry : Dentry) : m (Word × Dentry) :=
  readDentryIntoLoop fs fname dentry fs.direntries.toInt.toNat 0

end ReadDentry

def readDentryByIndex (fs : Fs) (index : Word) : Option Dentry :=
  if fs.direntries.toNat ≤ index.toNat then none else some (fs.files index.toNat)

/-- What `read_data` did: its return value and the bytes it stored to `buf[0]`,
`buf[1]`, and so on. -/
structure ReadData where
  ret : Word
  bytes : List UInt8

/-- First loop of `read_data`: `n = offset - i` rounds to go. Returns the index in
the data block, the block index and the block number reached. -/
def skipLoop (fs : Fs) (inode : ℕ) : ℕ → ℕ → ℕ → ℕ → Word → Option (ℕ × ℕ × Word)
  | 0, _, j, idx, block => some (j, idx, block)
  | n + 1, i, j, idx, block =>
    if i ≠ 0 ∧ i % FS_BLOCK_LENGTH = 0 then
      let block' := fs.blockNumber inode (idx + 1)
      if fs.badBlock block' then none
      else skipLoop fs inode n (i + 1) 1 (idx + 1) block'
    else skipLoop fs inode n (i + 1) (j + 1) idx block

/-- Second loop of `read_data`: `n = length - i` rounds to go. Returns whether it
ended without an error, and the bytes copied. -/
def copyLoop (fs : Fs) (inode : ℕ) : ℕ → ℕ → ℕ → ℕ → Word → Bool × List UInt8
  | 0, _, _, _, _ => (true, [])
  | n + 1, k, idx, overall, block =>
    if overall < (fs.length inode).toNat then
      if k ≠ 0 ∧ k % FS_BLOCK_LENGTH = 0 then
        let block' := fs.blockNumber inode (idx + 1)
        if fs.badBlock block' then (false, [])
        else
          let r := copyLoop fs inode n 1 (idx + 1) (overall + 1) block'
          (r.1, fs.data block' 0 :: r.2)
      else
        let r := copyLoop fs inode n (k + 1) idx (overall + 1) block
        (r.1, fs.data block k :: r.2)
    else (true, [])

def readData (fs : Fs) (inode offset length : Word) : ReadData :=
  if fs.inodes.toNat ≤ inode.toNat then ⟨FAILURE, []⟩
  else
    let block := fs.blockNumber inode.toNat 0
    if fs.badBlock block then ⟨FAILURE, []⟩
    else if (fs.length inode.toNat).toNat ≤ offset.toNat then ⟨0#32, []⟩
    else
      match skipLoop fs inode.toNat offset.toNat 0 0 0 block with
      | none => ⟨FAILURE, []⟩
      | some (j, idx, block) =>
        let r := copyLoop fs inode.toNat length.toNat j idx offset.toNat block
        ⟨if r.1 then BitVec.ofNat 32 r.2.length else FAILURE, r.2⟩

/-- `get_inode_ptr`: the index is scaled by the block length and then again by
the pointer arithmetic; all of it wraps at 32 bits. -/
def getInodePtr (fs : Fs) (inodeIdx : Word) : Addr :=
  if inodeIdx.toNat < fs.inodes.toNat then
    fs.inodesAddr + inodeIdx * BitVec.ofNat 32 FS_BLOCK_LENGTH * BitVec.ofNat 32 FS_BLOCK_LENGTH
  else 0#32

/-- `get_inode_num`: the pointer difference is the signed byte difference over
the inode size, the division by `sizeof(inode_t)` is unsigned. -/
def getInodeNum (fs : Fs) (inodePtr : Addr) : Word :=
  (inodePtr - fs.inodesAddr).sshiftRight 12 / BitVec.ofNat 32 FS_BLOCK_LENGTH

end SnoopDos
