import SnoopDos.Spec.Fish
import SnoopDos.Spec.Format
import SnoopDos.Spec.Programs

/-! `add_frames` of `fish/fish.c`: two files, read side by side, become blinkers. -/

namespace SnoopDos

def SPACE : UInt8 := 32

/-- The program `fish` between two calls. -/
structure FishProcess where
  process : Process
  fish : Fish

namespace FishProcess

variable {α : Type}

def apart (c : Command Process α) : Command FishProcess α := fun s =>
  (c s.process).map fun r => (r.1, { s with process := r.2 })

def mp1Ioctl (fuel : ℕ) (c : BlinkCall) : Command FishProcess BlinkReply := fun s =>
  (s.fish.call fuel c).map fun r => (r.1, { s with fish := r.2 })

end FishProcess

open FishProcess

namespace World

variable (w : World) (fuel : ℕ) (blinkStruct : Blinker) (fd0 fd1 : Word) (c0 c1 : Addr)

/-- The `if` of `add_frames` that reads on in one of the files, with `c` of the file. The
result is its `eof`. -/
def frameRead (fd : Word) (c : Addr) (eof : Bool) : Command Process Bool := do
  let char ← inMemory (UserMem.load c)
  if char ≠ NEW_LINE then do
    let numBytes ← w.ece391Read fd c 1#32
    if numBytes = 0#32 then do
      inMemory (UserMem.store c NEW_LINE)
      pure true
    else pure eof
  else pure eof

/-- The `else` of `add_frames`, for a cell that one of the frames fills. -/
def frameCell (row col : ℕ) (char0 char1 : UInt8) : Command FishProcess Unit :=
  if char0 ≠ SPACE ∧ char0 ≠ NEW_LINE ∨ char1 ≠ SPACE ∧ char1 ≠ NEW_LINE then do
    let _ ← mp1Ioctl fuel (.add { blinkStruct with
      location := BitVec.ofNat 16 (row * 80 + col + 40)
      onChar := if char0 = NEW_LINE then SPACE else char0
      offChar := if char1 = NEW_LINE then SPACE else char1 })
    pure ()
  else pure ()

/-- Round of the inner loop of `add_frames`, with its `col`, `eof0` and `eof1`. -/
def frameColumn (row : ℕ) (st : ℕ × Bool × Bool) :
    Command FishProcess ((Bool × Bool) ⊕ (ℕ × Bool × Bool)) := do
  let eof0 ← apart (w.frameRead fd0 c0 st.2.1)
  let eof1 ← apart (w.frameRead fd1 c1 st.2.2)
  let char0 ← apart (inMemory (UserMem.load c0))
  let char1 ← apart (inMemory (UserMem.load c1))
  if char0 = NEW_LINE ∧ char1 = NEW_LINE then pure (.inl (eof0, eof1))
  else do
    frameCell fuel blinkStruct row st.1 char0 char1
    pure (.inr (st.1 + 1, eof0, eof1))

/-- The end of a row of `add_frames` for one of the files. -/
def frameRowEnd (fd : Word) (c : Addr) (eof : Bool) : Command Process Unit :=
  if eof then do
    inMemory (UserMem.store c NEW_LINE)
    let _ ← w.ece391Close fd
    pure ()
  else inMemory (UserMem.store c DIGIT_ZERO)

/-- Round of the outer loop of `add_frames`, with its `row`, `eof0` and `eof1`. -/
def frameRow (st : ℕ × Bool × Bool) : Command FishProcess (Unit ⊕ (ℕ × Bool × Bool)) :=
  if st.2.1 = false ∨ st.2.2 = false then do
    let eofs ← Command.loop (w.frameColumn fuel blinkStruct fd0 fd1 c0 c1 st.1) fuel
      (0, st.2.1, st.2.2)
    apart (w.frameRowEnd fd0 c0 eofs.1)
    apart (w.frameRowEnd fd1 c1 eofs.2)
    pure (.inr (st.1 + 1, eofs.1, eofs.2))
  else pure (.inl ())

/-- `add_frames` of the files whose names are at `f0` and `f1`, with its variables `c0` and
`c1` at these addresses, and `garbage` in the structure that it fills in. Whether it
returns: without one of the files the program halts. -/
def addFrames (garbage : Blinker) (f0 f1 : Addr) : Command FishProcess Bool := do
  apart (inMemory (UserMem.store c0 DIGIT_ZERO))
  apart (inMemory (UserMem.store c1 DIGIT_ZERO))
  let fd0 ← apart (w.ece391Open f0)
  if fd0.toInt < 0 then pure false
  else do
    let fd1 ← apart (w.ece391Open f1)
    if fd1.toInt < 0 then pure false
    else do
      let blinkStruct := { garbage with onLength := 15, offLength := 15 }
      Command.loop (w.frameRow fuel blinkStruct fd0 fd1 c0 c1) fuel (0, false, false)
      pure true

end World

end SnoopDos
