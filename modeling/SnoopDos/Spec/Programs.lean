import SnoopDos.Lib.Commands
import SnoopDos.Spec.Files

/-! The user programs of `syscalls/` that go through files and directories: `cat`, `ls`
and `grep`, with the parts of `ece391support.c` that they use. A program runs between
system calls; whatever the rest of the system does meanwhile happens before its next
call. -/

namespace SnoopDos

/-- What surrounds a program: the filesystem image, where its own image holds its string
constants, what the rest of the system does before each call, and what the terminal's
buffer holds when a call waits for a line. -/
structure World where
  fs : Fs
  constant : List UInt8 → Addr
  before : ℕ → Kernel → Kernel
  stdin : ℕ → ℕ → UInt8

/-- A program between two calls. -/
structure Process where
  kernel : Kernel
  user : UserMem
  /-- Calls made so far. -/
  calls : ℕ
  /-- Ghost: the text that the program's calls have sent to its terminal. -/
  shown : List UInt8

/-- `"could not read arguments\n"`. -/
def COULD_NOT_READ_ARGUMENTS : List UInt8 :=
  [99, 111, 117, 108, 100, 32, 110, 111, 116, 32, 114, 101, 97, 100, 32, 97, 114, 103, 117, 109,
   101, 110, 116, 115, 10]

/-- `"could not read argument\n"`. -/
def COULD_NOT_READ_ARGUMENT : List UInt8 :=
  [99, 111, 117, 108, 100, 32, 110, 111, 116, 32, 114, 101, 97, 100, 32, 97, 114, 103, 117, 109,
   101, 110, 116, 10]

/-- `"file not found\n"`. -/
def FILE_NOT_FOUND : List UInt8 :=
  [102, 105, 108, 101, 32, 110, 111, 116, 32, 102, 111, 117, 110, 100, 10]

/-- `"file open failed\n"`. -/
def FILE_OPEN_FAILED : List UInt8 :=
  [102, 105, 108, 101, 32, 111, 112, 101, 110, 32, 102, 97, 105, 108, 101, 100, 10]

/-- `"file read failed\n"`. -/
def FILE_READ_FAILED : List UInt8 :=
  [102, 105, 108, 101, 32, 114, 101, 97, 100, 32, 102, 97, 105, 108, 101, 100, 10]

/-- `"file close failed\n"`. -/
def FILE_CLOSE_FAILED : List UInt8 :=
  [102, 105, 108, 101, 32, 99, 108, 111, 115, 101, 32, 102, 97, 105, 108, 101, 100, 10]

/-- `"directory open failed\n"`. -/
def DIRECTORY_OPEN_FAILED : List UInt8 :=
  [100, 105, 114, 101, 99, 116, 111, 114, 121, 32, 111, 112, 101, 110, 32, 102, 97, 105, 108,
   101, 100, 10]

/-- `"directory entry read failed\n"`. -/
def DIRECTORY_ENTRY_READ_FAILED : List UInt8 :=
  [100, 105, 114, 101, 99, 116, 111, 114, 121, 32, 101, 110, 116, 114, 121, 32, 114, 101, 97,
   100, 32, 102, 97, 105, 108, 101, 100, 10]

/-- `"."`. -/
def DOT : List UInt8 := [46]

/-- `":"`. -/
def COLON : List UInt8 := [58]

/-- `"\n"`. -/
def LINE_BREAK : List UInt8 := [10]

def inMemory {α : Type} (x : User α) : Command Process α := fun p =>
  some ((x p.user).1, { p with user := (x p.user).2 })

def inMemory? {α : Type} (x : User (Option α)) : Command Process α := fun p =>
  (x p.user).1.map fun a => (a, { p with user := (x p.user).2 })

/-- The text that a call of `write` sends to the terminal. -/
def Kernel.sentToTerminal (k : Kernel) (fd : Word) (buf : Addr) (nbytes : Word) (u : UserMem) :
    List UInt8 :=
  let info := k.currentPcb.fdArray fd.toNat
  if inWindow buf ∧ fd = STDOUT ∧ info.flags &&& 1#32 ≠ 0#32 ∧ info.fopsJmpTable = .terminal ∧
      0 ≤ nbytes.toInt then
    fieldString (fun i => u.bytes (buf + BitVec.ofNat 32 i)) nbytes.toNat
  else []

namespace Process

variable {α : Type} (p : Process)

def after (k : Kernel) (u : UserMem) : Process :=
  { p with kernel := k, user := u, calls := p.calls + 1 }

def resume (r : Option (α × Kernel) × UserMem) : Option (α × Process) :=
  r.1.map fun x => (x.1, p.after x.2 r.2)

end Process

namespace World

variable (w : World)

def entered (p : Process) : Kernel := w.before p.calls p.kernel

def ece391Read (fd : Word) (buf : Addr) (nbytes : Word) : Command Process Word := fun p =>
  p.resume ((w.entered p).read w.fs (w.stdin p.calls) fd buf nbytes p.user)

def ece391Write (fd : Word) (buf : Addr) (nbytes : Word) : Command Process Word := fun p =>
  let text := (w.entered p).sentToTerminal fd buf nbytes p.user
  { p with shown := p.shown ++ text }.resume ((w.entered p).write fd buf nbytes p.user)

def ece391Open (filename : Addr) : Command Process Word := fun p =>
  p.resume ((w.entered p).open w.fs filename p.user)

def ece391Close (fd : Word) : Command Process Word := fun p =>
  p.resume ((w.entered p).close fd, p.user)

def ece391Getargs (buf : Addr) (nbytes : Word) : Command Process Word := fun p =>
  let r := (w.entered p).getargs buf nbytes p.user
  p.resume (r.1.map fun ret => (ret, w.entered p), r.2)

end World

/-- `ece391_strlen`, over the whole address space at most. -/
def ece391Strlen (s : Addr) : Command Process ℕ :=
  inMemory? (strlen (UserMem.stringAt s) (2 ^ 32) 0)

/-- The loop of `ece391_strcpy`, `fuel` rounds at most. -/
def ece391StrcpyLoop : ℕ → Addr → Addr → User (Option Unit)
  | 0, _, _ => pure none
  | fuel + 1, dst, src => do
    let c ← UserMem.load src
    UserMem.store dst c
    if NULL_CHAR ≠ c then ece391StrcpyLoop fuel (dst + 1#32) (src + 1#32) else pure (some ())

def ece391Strcpy (dst src : Addr) : Command Process Unit :=
  inMemory? (ece391StrcpyLoop (2 ^ 32) dst src)

/-- `ece391_strncmp`, with `n` bytes to go. -/
def ece391Strncmp : Addr → Addr → ℕ → User ℤ
  | _, _, 0 => pure 0
  | s1, s2, n + 1 => do
    let c1 ← UserMem.load s1
    let c2 ← UserMem.load s2
    if c1 ≠ c2 then pure ((c1.toNat : ℤ) - c2.toNat)
    else if c1 = NULL_CHAR then pure 0
    else ece391Strncmp (s1 + 1#32) (s2 + 1#32) n

namespace World

variable (w : World)

def ece391Fdputs (fd : Word) (s : Addr) : Command Process Unit := do
  let len ← ece391Strlen s
  let _ ← w.ece391Write fd s (BitVec.ofNat 32 len)
  pure ()

/-- `ece391_fdputs` of a string constant to the terminal, and the value to go on with. -/
def complain {α : Type} (text : List UInt8) (a : α) : Command Process α := do
  w.ece391Fdputs 1#32 (w.constant text)
  pure a

/-- Round of the loop of `cat`. -/
def catRound (fd : Word) (buf : Addr) : Command Process (Word ⊕ Unit) := do
  let cnt ← w.ece391Read fd buf 1024#32
  if cnt = 0#32 then pure (.inl 0#32)
  else if cnt = -1#32 then w.complain FILE_READ_FAILED (.inl 3#32)
  else do
    let r ← w.ece391Write 1#32 buf cnt
    if r = -1#32 then pure (.inl 3#32) else pure (.inr ())

/-- `main` of `ece391cat.c`, with its local array at `buf`. -/
def catMain (buf : Addr) (fuel : ℕ) : Command Process Word := do
  let r ← w.ece391Getargs buf 1024#32
  if r ≠ 0#32 then w.complain COULD_NOT_READ_ARGUMENTS 3#32
  else do
    let fd ← w.ece391Open buf
    if fd = -1#32 then w.complain FILE_NOT_FOUND 2#32
    else Command.loop (fun _ => w.catRound fd buf) fuel ()

/-- Round of the loop of `ls`. -/
def lsRound (fd : Word) (buf : Addr) : Command Process (Word ⊕ Unit) := do
  let cnt ← w.ece391Read fd buf 32#32
  if cnt = 0#32 then pure (.inl 0#32)
  else if cnt = -1#32 then w.complain DIRECTORY_ENTRY_READ_FAILED (.inl 3#32)
  else do
    inMemory (UserMem.store (buf + cnt) NEW_LINE)
    let r ← w.ece391Write 1#32 buf (cnt + 1#32)
    if r = -1#32 then pure (.inl 3#32) else pure (.inr ())

/-- `main` of `ece391ls.c`, with its local array at `buf`. -/
def lsMain (buf : Addr) (fuel : ℕ) : Command Process Word := do
  let fd ← w.ece391Open (w.constant DOT)
  if fd = -1#32 then w.complain DIRECTORY_OPEN_FAILED 2#32
  else Command.loop (fun _ => w.lsRound fd buf) fuel ()

end World

/-- The scan of `do_one_file` for the end of a line, `n = last - line_end` rounds to go. -/
def lineEndLoop (data : Addr) : ℕ → ℕ → User ℕ
  | 0, lineEnd => pure lineEnd
  | n + 1, lineEnd => do
    let c ← UserMem.load (data + BitVec.ofNat 32 lineEnd)
    if NEW_LINE ≠ c then lineEndLoop data n (lineEnd + 1) else pure lineEnd

/-- The search of `do_one_file` through a line, `n = line_end - check` rounds to go:
whether a round has found `s`. -/
def searchLoop (s data : Addr) (sLen : ℕ) : ℕ → ℕ → User Bool
  | 0, _ => pure false
  | n + 1, check => do
    let first ← UserMem.load s
    let c ← UserMem.load (data + BitVec.ofNat 32 check)
    if first = c then do
      let diff ← ece391Strncmp (data + BitVec.ofNat 32 check) s sLen
      if diff = 0 then pure true else searchLoop s data sLen n (check + 1)
    else searchLoop s data sLen n (check + 1)

namespace World

variable (w : World)

/-- What `do_one_file` prints of a line in which it has found its string. -/
def putMatch (fname line : Addr) : Command Process Unit := do
  w.ece391Fdputs 1#32 fname
  w.ece391Fdputs 1#32 (w.constant COLON)
  w.ece391Fdputs 1#32 line
  w.ece391Fdputs 1#32 (w.constant LINE_BREAK)

/-- The search of `do_one_file` through the line from `lineStart` to `lineEnd`. -/
def searchLine (s fname data : Addr) (sLen lineStart lineEnd : ℕ) : Command Process Unit := do
  let found ← inMemory (searchLoop s data sLen (lineEnd - lineStart) lineStart)
  if found then w.putMatch fname (data + BitVec.ofNat 32 lineStart) else pure ()

/-- Round of the inner loop of `do_one_file`: it breaks with the new `last` or goes on
with the next `line_start`. -/
def grepLine (s fname data : Addr) (sLen : ℕ) (cnt : Word) (last lineStart : ℕ) :
    Command Process (ℕ ⊕ ℕ) := do
  let lineEnd ← inMemory (lineEndLoop data (last - lineStart) lineStart)
  let c ← inMemory (UserMem.load (data + BitVec.ofNat 32 lineEnd))
  if NEW_LINE ≠ c ∧ cnt ≠ 0#32 ∧ lineStart ≠ 0 then do
    inMemory (UserMem.store (data + BitVec.ofNat 32 lineEnd) NULL_CHAR)
    ece391Strcpy data (data + BitVec.ofNat 32 lineStart)
    pure (.inl (last - lineStart))
  else do
    inMemory (UserMem.store (data + BitVec.ofNat 32 lineEnd) NULL_CHAR)
    w.searchLine s fname data sLen lineStart lineEnd
    if last ≤ lineEnd + 1 then pure (.inl 0) else pure (.inr (lineEnd + 1))

/-- Round of the outer loop of `do_one_file`, with `last` bytes in the buffer. -/
def grepRound (s fname data : Addr) (sLen : ℕ) (fd : Word) (fuel last : ℕ) :
    Command Process (Word ⊕ ℕ) := do
  let cnt ← w.ece391Read fd (data + BitVec.ofNat 32 last) (BitVec.ofNat 32 (1024 - last))
  if cnt = -1#32 then w.complain FILE_READ_FAILED (.inl (-1#32))
  else do
    let last ← Command.loop (w.grepLine s fname data sLen cnt (last + cnt.toNat)) fuel 0
    if cnt = 0#32 then pure (.inl 0#32) else pure (.inr last)

/-- `do_one_file` of `ece391grep.c`, with its local array at `data`. -/
def doOneFile (s fname data : Addr) (fuel : ℕ) : Command Process Word := do
  let sLen ← ece391Strlen s
  let fd ← w.ece391Open fname
  if fd = -1#32 then w.complain FILE_OPEN_FAILED (-1#32)
  else do
    let r ← Command.loop (w.grepRound s fname data sLen fd fuel) fuel 0
    if r ≠ 0#32 then pure r
    else do
      let r ← w.ece391Close fd
      if r = -1#32 then w.complain FILE_CLOSE_FAILED (-1#32) else pure 0#32

/-- Round of the loop of `grep`. -/
def grepEntry (fd : Word) (buf search data : Addr) (fuel : ℕ) : Command Process (Word ⊕ Unit) := do
  let cnt ← w.ece391Read fd buf 32#32
  if cnt = 0#32 then pure (.inl 0#32)
  else if cnt = -1#32 then w.complain DIRECTORY_ENTRY_READ_FAILED (.inl 3#32)
  else do
    let c ← inMemory (UserMem.load buf)
    if c = 46 then pure (.inr ())
    else do
      inMemory (UserMem.store (buf + cnt) NULL_CHAR)
      let r ← w.doOneFile search buf data fuel
      if r ≠ 0#32 then pure (.inl 3#32) else pure (.inr ())

/-- `main` of `ece391grep.c`, with its local arrays at `buf` and `search`. -/
def grepMain (buf search data : Addr) (fuel : ℕ) : Command Process Word := do
  let r ← w.ece391Getargs search 1024#32
  if r ≠ 0#32 then w.complain COULD_NOT_READ_ARGUMENT 3#32
  else do
    let fd ← w.ece391Open (w.constant DOT)
    if fd = -1#32 then w.complain DIRECTORY_OPEN_FAILED 2#32
    else Command.loop (fun _ => w.grepEntry fd buf search data fuel) fuel ()

end World

end SnoopDos
