import SnoopDos.Spec.Keyboard
import SnoopDos.Spec.Programs

/-! The shell of `syscalls/`. -/

namespace SnoopDos

/-- `"Starting 391 Shell\n"`. -/
def STARTING_SHELL : List UInt8 :=
  [83, 116, 97, 114, 116, 105, 110, 103, 32, 51, 57, 49, 32, 83, 104, 101, 108, 108, 10]

/-- `"read from keyboard failed\n"`. -/
def READ_FROM_KEYBOARD_FAILED : List UInt8 :=
  [114, 101, 97, 100, 32, 102, 114, 111, 109, 32, 107, 101, 121, 98, 111, 97, 114, 100, 32, 102,
   97, 105, 108, 101, 100, 10]

/-- `"no such command\n"`. -/
def NO_SUCH_COMMAND : List UInt8 :=
  [110, 111, 32, 115, 117, 99, 104, 32, 99, 111, 109, 109, 97, 110, 100, 10]

/-- `"program terminated by exception\n"`. -/
def TERMINATED_BY_EXCEPTION : List UInt8 :=
  [112, 114, 111, 103, 114, 97, 109, 32, 116, 101, 114, 109, 105, 110, 97, 116, 101, 100, 32, 98,
   121, 32, 101, 120, 99, 101, 112, 116, 105, 111, 110, 10]

/-- `"program terminated abnormally\n"`. -/
def TERMINATED_ABNORMALLY : List UInt8 :=
  [112, 114, 111, 103, 114, 97, 109, 32, 116, 101, 114, 109, 105, 110, 97, 116, 101, 100, 32, 97,
   98, 110, 111, 114, 109, 97, 108, 108, 121, 10]

/-- `"exit"`. -/
def EXIT : List UInt8 := [101, 120, 105, 116]

/-- `ece391_strcmp`, `fuel` rounds at most. -/
def ece391Strcmp : ℕ → Addr → Addr → User (Option ℤ)
  | 0, _, _ => pure none
  | fuel + 1, s1, s2 => do
    let c1 ← UserMem.load s1
    let c2 ← UserMem.load s2
    if c1 = c2 then
      if c1 = NULL_CHAR then pure (some 0) else ece391Strcmp fuel (s1 + 1#32) (s2 + 1#32)
    else pure (some ((c1.toNat : ℤ) - c2.toNat))

/-- What surrounds a shell: for each round of its loop what its terminal's buffer holds
when its call of `read` waits for a line, what its call of `execute` finds on the stack,
and what the program that it starts leads to. -/
structure ShellSession extends World where
  typed : ℕ → ℕ → UInt8
  residue : ℕ → Residue
  child : ℕ → Kernel → Option HaltResult

namespace ShellSession

variable (s : ShellSession)

/-- The surroundings of round `n`. -/
def round (n : ℕ) : World := { s.toWorld with stdin := fun _ => s.typed n }

/-- `execute` comes back when the program that it started ends. -/
def ece391Execute (n : ℕ) (command : Addr) : Command Process Word := fun p =>
  let r := (s.entered p).execute s.fs (s.residue n) command p.user
  match r.1 with
  | none => none
  | some (.failed k) => some (FAILURE, p.after k.iret r.2)
  | some (.started k _) =>
    match s.child n k with
    | some (.resumed k status) => some (status, p.after k.iret r.2)
    | _ => none

/-- The end of a round, with what `execute` returned. -/
def shellReport (n : ℕ) (rval : Word) : Command Process (Word ⊕ ℕ) :=
  if rval = -1#32 then s.complain NO_SUCH_COMMAND (.inr (n + 1))
  else if rval = 256#32 then s.complain TERMINATED_BY_EXCEPTION (.inr (n + 1))
  else if rval ≠ 0#32 then s.complain TERMINATED_ABNORMALLY (.inr (n + 1))
  else pure (.inr (n + 1))

/-- A round from the end of its line on: `cnt` bytes have been read. -/
def shellCommand (buf : Addr) (n : ℕ) (cnt : Word) : Command Process (Word ⊕ ℕ) := do
  inMemory (UserMem.store (buf + cnt) NULL_CHAR)
  let differ ← inMemory? (ece391Strcmp (2 ^ 32) buf (s.constant EXIT))
  if differ = 0 then pure (.inl 0#32)
  else do
    let c ← inMemory (UserMem.load buf)
    if c = NULL_CHAR then pure (.inr (n + 1))
    else do
      let rval ← s.ece391Execute n buf
      s.shellReport n rval

/-- Round `n` of the loop of the shell. -/
def shellRound (buf : Addr) (n : ℕ) : Command Process (Word ⊕ ℕ) := do
  s.complain PROMPT ()
  let cnt ← (s.round n).ece391Read 0#32 buf 1023#32
  if cnt = -1#32 then s.complain READ_FROM_KEYBOARD_FAILED (.inl 3#32)
  else if 0 < cnt.toInt then do
    let c ← inMemory (UserMem.load (buf + (cnt - 1#32)))
    s.shellCommand buf n (if c = NEW_LINE then cnt - 1#32 else cnt)
  else s.shellCommand buf n cnt

/-- `main` of `ece391shell.c`, with its local array at `buf`. -/
def shellMain (buf : Addr) (fuel : ℕ) : Command Process Word := do
  s.complain STARTING_SHELL ()
  Command.loop (s.shellRound buf) fuel 0

end ShellSession

end SnoopDos
