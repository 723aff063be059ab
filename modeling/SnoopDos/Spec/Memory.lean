import SnoopDos.Lib.StringOps
import SnoopDos.Spec.Types

/-! The memory functions of `lib.c`: `memset`, `memset_word`, `memset_dword`, `memcpy` and
`memmove`, instruction by instruction. `r` holds what the registers and the memory were
before. The segment registers are left out: all segments are flat. -/

namespace SnoopDos

open StringOps

/-- `.memset_top` and `.memcpy_top`, `n` rounds at most: byte after byte up to the end or
to an aligned `%edi`. -/
def alignLoop (step : Machine → Machine) : ℕ → Machine → Machine
  | 0, m => m
  | n + 1, m =>
    if m.ecx = 0#32 ∨ m.edi &&& 3#32 = 0#32 then m
    else alignLoop step n { step m with ecx := m.ecx - 1#32 }

/-- `.memset_bottom` and `.memcpy_bottom`, `n` rounds at most. -/
def restLoop (step : Machine → Machine) : ℕ → Machine → Machine
  | 0, m => m
  | n + 1, m => if m.edx = 0#32 then m else restLoop step n { step m with edx := m.edx - 1#32 }

/-- The body of `memset` and of `memcpy`: `step` for one byte, `op` for a word. -/
def inWords (step op : Machine → Machine) (m : Machine) : Machine :=
  let m := alignLoop step m.ecx.toNat m
  if m.ecx = 0#32 then m
  else
    let m := { m with edx := m.ecx &&& 3#32, ecx := m.ecx >>> 2, df := false }.rep op
    restLoop step m.edx.toNat m

/-- `movb %al, (%edi)`, `addl $1, %edi`. -/
def setByte (m : Machine) : Machine :=
  { m with mem := write m.mem m.edi 1 (byteOf m.eax), edi := m.edi + 1#32 }

def memset (r : Machine) (s : Addr) (c n : Word) : Addr × Machine :=
  let c := c &&& 0xFF#32
  (s, inWords setByte (Machine.stos 4)
    { r with eax := c <<< 24 ||| c <<< 16 ||| c <<< 8 ||| c, edi := s, ecx := n })

def memsetWord (r : Machine) (s : Addr) (c n : Word) : Addr × Machine :=
  (s, { r with eax := c, edi := s, ecx := n, df := false }.rep (Machine.stos 2))

def memsetDword (r : Machine) (s : Addr) (c n : Word) : Addr × Machine :=
  (s, { r with eax := c, edi := s, ecx := n, df := false }.rep (Machine.stos 4))

/-- `movb (%esi), %al`, `movb %al, (%edi)`, `addl $1, %edi`, `addl $1, %esi`. -/
def copyByte (m : Machine) : Machine :=
  let c := m.mem m.esi
  { m with
    eax := m.eax &&& 0xFFFFFF00#32 ||| c.toBitVec.setWidth 32
    mem := write m.mem m.edi 1 fun _ => c
    edi := m.edi + 1#32
    esi := m.esi + 1#32 }

def memcpy (r : Machine) (dest src : Addr) (n : Word) : Addr × Machine :=
  (dest, inWords copyByte (Machine.movs 4) { r with esi := src, edi := dest, ecx := n })

def memmove (r : Machine) (dest src : Addr) (n : Word) : Addr × Machine :=
  let m := { r with edi := dest, esi := src, ecx := n, df := false }
  let m := if m.edi.toNat ≤ m.esi.toNat then m
    else { m with esi := m.esi + m.ecx - 1#32, edi := m.edi + m.ecx - 1#32, df := true }
  (dest, m.rep (Machine.movs 1))

end SnoopDos
