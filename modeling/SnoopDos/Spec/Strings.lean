import SnoopDos.Lib.UserMem
import SnoopDos.Spec.Types

/-! The string functions of `lib.c`. A string is read through `s : ℕ → m UInt8`,
so that one definition serves kernel strings (`m = Id`) and strings behind a user
pointer (`m = User`, which records the bytes examined). -/

namespace SnoopDos

section Reading

variable {m : Type → Type} [Monad m]

/-- `strlen`: the index of the first NUL at or after `len`, or `none` if the next
`fuel` bytes hold none (over the whole address space the call does not return). -/
def strlen (s : ℕ → m UInt8) : ℕ → ℕ → m (Option ℕ)
  | 0, _ => pure none
  | fuel + 1, len => do
    let c ← s len
    if c = NULL_CHAR then pure (some len) else strlen s fuel (len + 1)

/-- `strcpy`: the characters copied before the terminator. -/
def strcpy (src : ℕ → m UInt8) : ℕ → ℕ → m (List UInt8)
  | 0, _ => pure []
  | fuel + 1, i => do
    let c ← src i
    if c = NULL_CHAR then pure [] else do
      let rest ← strcpy src fuel (i + 1)
      pure (c :: rest)

/-- `strncmp(s1, s2, n)` from index `i` on, `n` characters to go. -/
def strncmp (s1 : ℕ → m UInt8) (s2 : ℕ → UInt8) : ℕ → ℕ → m Int
  | 0, _ => pure 0
  | n + 1, i => do
    let c ← s1 i
    if c ≠ s2 i ∨ c = NULL_CHAR then pure (c.toInt8.toInt - (s2 i).toInt8.toInt)
    else strncmp s1 s2 n (i + 1)

end Reading

/-- First loop of `strncpy`: copies up to the terminator or `n` characters, and
returns the index it stopped at. -/
def strncpyCopy (dest : Addr) (src : ℕ → UInt8) : ℕ → ℕ → User ℕ
  | 0, i => pure i
  | n + 1, i =>
    if src i ≠ NULL_CHAR then do
      UserMem.store (dest + BitVec.ofNat 32 i) (src i)
      strncpyCopy dest src n (i + 1)
    else pure i

/-- Second loop of `strncpy`: pads with NUL. -/
def strncpyPad (dest : Addr) : ℕ → ℕ → User Unit
  | 0, _ => pure ()
  | n + 1, i => do
    UserMem.store (dest + BitVec.ofNat 32 i) NULL_CHAR
    strncpyPad dest n (i + 1)

def strncpy (dest : Addr) (src : ℕ → UInt8) (n : ℕ) : User Unit := do
  let i ← strncpyCopy dest src n 0
  strncpyPad dest (n - i) i

/-- The string in a field of `n` bytes: the bytes up to the first NUL, or all of them. -/
def fieldString (t : ℕ → UInt8) (n : ℕ) : List UInt8 :=
  ((List.range n).map t).takeWhile (· ≠ NULL_CHAR)

def ofList (l : List UInt8) (i : ℕ) : Id UInt8 := l.getD i NULL_CHAR

end SnoopDos
