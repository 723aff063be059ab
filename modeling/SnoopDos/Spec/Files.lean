import SnoopDos.Spec.Terminal

/-! The system calls on file descriptors and user buffers. They run in `User`, so
that every byte they read or write through a user pointer is on record. A result
`none` means that the call faults on a `NULL` pointer before it returns. -/

namespace SnoopDos

/-- Loop of `open` that allocates a descriptor, `n` rounds to go. -/
def allocLoop (fdArray : ℕ → FileInfo) : ℕ → ℕ → ℕ
  | 0, i => i
  | n + 1, i => if (fdArray i).flags &&& 1#32 = 0#32 then i else allocLoop fdArray n (i + 1)

/-- The `switch` of `open`: another filetype leaves the old table. -/
def jumpTableFor (filetype : Word) (old : FopsTable) : FopsTable :=
  if filetype = FILETYPE_DEVICE then .rtc
  else if filetype = FILETYPE_DIRECTORY then .directory
  else if filetype = FILETYPE_REGULAR then .regularFile
  else old

/-- The descriptor that `open` leaves in the slot it allocated. -/
def openedFd (fs : Fs) (entry : Dentry) (old : FileInfo) : FileInfo where
  fopsJmpTable := jumpTableFor entry.filetype old.fopsJmpTable
  inode := if entry.filetype ≠ FILETYPE_REGULAR then 0#32 else getInodePtr fs entry.inode
  position := 0#32
  flags := 1#32

/-- `fd >= MAX_FD_PER_PROCESS || fd < 0`. -/
def badFd (fd : Word) : Bool := MAX_FD_PER_PROCESS ≤ fd.toInt || fd.toInt < 0

namespace Kernel

variable (k : Kernel)

def setFd (fd : ℕ) (f : FileInfo → FileInfo) : Kernel :=
  k.setPcb k.pcbCurr fun p => { p with fdArray := Function.update p.fdArray fd (f (p.fdArray fd)) }

def readFile (fs : Fs) (fd : ℕ) (buf : Addr) (nbytes : Word) : User (Word × Kernel) := do
  let info := k.currentPcb.fdArray fd
  let r := readData fs (getInodeNum fs info.inode) info.position nbytes
  UserMem.storeBytes buf r.bytes
  if 0 < r.ret.toInt then
    pure (r.ret, k.setFd fd fun f => { f with position := f.position + r.ret })
  else pure (r.ret, k)

def readDirectory (fs : Fs) (fd : ℕ) (buf : Addr) (nbytes : Word) : User (Word × Kernel) := do
  let lsCount := (k.currentPcb.fdArray fd).position
  if fs.direntries.toInt ≤ lsCount.toInt then pure (0#32, k)
  else
    strncpy buf (fs.files lsCount.toNat).filename nbytes.toNat
    let k := k.setFd fd fun f => { f with position := f.position + 1#32 }
    let last ← UserMem.load (buf + BitVec.ofNat 32 FILE_NAME_LST_IDX)
    if last ≠ NULL_CHAR then pure (BitVec.ofNat 32 FILE_NAME_SIZE, k)
    else
      let n ← strlen (UserMem.stringAt buf) FILE_NAME_SIZE 0
      pure (BitVec.ofNat 32 (n.getD 0), k)

/-- `read`. `stdin` is what the terminal's buffer holds if the call waits for a line. -/
def read (fs : Fs) (stdin : ℕ → UInt8) (fd : Word) (buf : Addr) (numBytes : Word) :
    User (Option (Word × Kernel)) :=
  if ¬ inWindow buf then pure (some (FAILURE, k))
  else if badFd fd then pure (some (FAILURE, k))
  else
    let info := k.currentPcb.fdArray fd.toNat
    if info.flags &&& 1#32 = 0#32 then pure (some (FAILURE, k))
    else
      match info.fopsJmpTable with
      | .null => pure none
      | .rtc => pure (some k.readRtc)
      | .terminal => some <$> k.readTerminal stdin fd buf numBytes
      | .regularFile => some <$> k.readFile fs fd.toNat buf numBytes
      | .directory => some <$> k.readDirectory fs fd.toNat buf numBytes

/-- `write`. `write_file` and `write_directory` return `FAILURE`. -/
def write (fd : Word) (buf : Addr) (numBytes : Word) : User (Option (Word × Kernel)) :=
  if ¬ inWindow buf then pure (some (FAILURE, k))
  else if badFd fd then pure (some (FAILURE, k))
  else
    let info := k.currentPcb.fdArray fd.toNat
    if info.flags &&& 1#32 = 0#32 then pure (some (FAILURE, k))
    else
      match info.fopsJmpTable with
      | .null => pure none
      | .rtc => some <$> k.writeRtc buf
      | .terminal => some <$> k.writeTerminal fd (UserMem.stringAt buf) numBytes
      | .regularFile => pure (some (FAILURE, k))
      | .directory => pure (some (FAILURE, k))

/-- `open`. Of the `o_func`s only `open_rtc` does anything. -/
def «open» (fs : Fs) (filename : Addr) : User (Option (Word × Kernel)) :=
  if ¬ inWindow filename then pure (some (FAILURE, k))
  else do
    let found ← readDentryByName fs (UserMem.stringAt filename)
    match found with
    | none => pure (some (FAILURE, k))
    | some entry =>
      let i := allocLoop k.currentPcb.fdArray (MAX_FD_PER_PROCESS - MIN_FD_PER_PROCESS)
        MIN_FD_PER_PROCESS
      if i = MAX_FD_PER_PROCESS then pure (some (FAILURE, k))
      else
        let k := k.setFd i (openedFd fs entry)
        match (k.currentPcb.fdArray i).fopsJmpTable with
        | .null => pure none
        | .rtc => pure (some (BitVec.ofNat 32 i, k.openRtc))
        | _ => pure (some (BitVec.ofNat 32 i, k))

/-- `close`. No `c_func` does anything. -/
def close (fd : Word) : Option (Word × Kernel) :=
  if fd.toInt < MIN_FD_PER_PROCESS ∨ MAX_FD_PER_PROCESS ≤ fd.toInt then some (FAILURE, k)
  else
    let info := k.currentPcb.fdArray fd.toNat
    if info.flags = 0#32 then some (FAILURE, k)
    else
      match info.fopsJmpTable with
      | .null => none
      | _ => some (0#32, k.setFd fd.toNat fun f => { f with flags := 0#32 })

def getargs (buf : Addr) (numBytes : Word) : User (Option Word) :=
  if numBytes.toInt < 0 then pure (some FAILURE)
  else if ¬ inWindow buf then pure (some FAILURE)
  else
    match k.currentPcb.args with
    | none => pure none
    | some arguments =>
      let len := (Id.run (strlen (ofList arguments) (arguments.length + 1) 0)).getD 0
      if numBytes.toNat < len then pure (some FAILURE)
      else do
        strncpy buf (fun i => ofList arguments i) numBytes.toNat
        pure (some SUCCESS)

def vidmap (screenStart : Addr) : User (Word × Kernel) :=
  if ¬ inWindow screenStart then pure (FAILURE, k)
  else do
    UserMem.storeBytes screenStart [0x00, 0x80, 0x0B, 0x00]
    pure (SUCCESS,
      { k with
        paging := k.paging.grantUserAccess k.currentPcb.pid (BitVec.ofNat 32 VIDEO) })

def execute (fs : Fs) (residue : Residue) (command : Addr) : User (Option ExecResult) :=
  k.internalExecute fs residue (UserMem.stringAt command) USER_EXECUTE

end Kernel

end SnoopDos
