import SnoopDos.Lib.Loops
import SnoopDos.Spec.Types

/-! The screen half of `lib.c`. The code reaches the 80x25 text page through the
byte pointer `video_mem`; a `VideoBus` says what a load or a store through it does
to the memory behind it, so that the same code runs on a page of its own and on
physical memory behind the page tables. -/

namespace SnoopDos

open Loops

def NUM_COLS : ℤ := 80
def NUM_ROWS : ℤ := 25

/-- Loads and stores at `video_mem + i`. -/
structure VideoBus (σ : Type*) where
  load : σ → ℤ → UInt8
  store : σ → ℤ → UInt8 → σ

/-- The memory behind `video_mem` and the cursor `screen_x`, `screen_y`. -/
structure Screen (σ : Type*) where
  mem : σ
  screenX : ℤ
  screenY : ℤ

variable {σ : Type*} (bus : VideoBus σ) (currAttribute : UInt8)

/-- Character and attribute byte of cell `i`. -/
def putCell (mem : σ) (i : ℤ) (c : UInt8) : σ :=
  bus.store (bus.store mem (2 * i) c) (2 * i + 1) currAttribute

def clear (mem : σ) : σ :=
  forRange 0 2000 (fun i mem => putCell bus currAttribute mem i EMPTY_SPACE) mem

def clearVideoAndBackingStores (mem : σ) : σ :=
  forRange 0 (2000 * (NUM_TERMINALS + 1))
    (fun i mem => putCell bus currAttribute mem i EMPTY_SPACE) mem

def shiftScreenUp (s : Screen σ) : Screen σ :=
  let mem := forRange 0 1920 (fun i mem =>
    let mem := bus.store mem (2 * i) (bus.load mem (2 * (i + NUM_COLS)))
    bus.store mem (2 * i + 1) (bus.load mem (2 * (i + NUM_COLS) + 1))) s.mem
  let mem := forRange 0 80 (fun i mem =>
    putCell bus currAttribute mem (i + (NUM_ROWS - 1) * NUM_COLS) EMPTY_SPACE) mem
  { s with mem := mem, screenY := s.screenY - 1 }

/-- `putc_screen`, and `putc_kbd` up to the hardware cursor it also moves. -/
def putcScreen (s : Screen σ) (c : UInt8) : Screen σ :=
  let s :=
    if c = NEW_LINE ∨ c = CARRIAGE_RETURN then
      { s with screenY := s.screenY + 1, screenX := 0 }
    else if c = BKSP_CHAR then
      let s := { s with screenX := s.screenX - 1 }
      let s :=
        if s.screenX < 0 then
          let s := { s with screenX := NUM_COLS - 1, screenY := s.screenY - 1 }
          if s.screenY < 0 then { s with screenY := 0 } else s
        else s
      { s with mem := putCell bus currAttribute s.mem (NUM_COLS * s.screenY + s.screenX) EMPTY_SPACE }
    else
      let s := { s with mem := putCell bus currAttribute s.mem (NUM_COLS * s.screenY + s.screenX) c }
      let s := { s with screenX := s.screenX + 1 }
      let s := { s with screenY := s.screenY + s.screenX.tdiv NUM_COLS }
      { s with screenX := s.screenX.tmod NUM_COLS }
  if s.screenY ≥ NUM_ROWS then shiftScreenUp bus currAttribute s else s

/-- `putc`, which prints while booting. Only a character is followed by the test for a
scroll, a new line is not. -/
def putc (s : Screen σ) (c : UInt8) : Screen σ :=
  if c = NEW_LINE ∨ c = CARRIAGE_RETURN then
    { s with screenY := s.screenY + 1, screenX := 0 }
  else
    let s := { s with mem := putCell bus currAttribute s.mem (NUM_COLS * s.screenY + s.screenX) c }
    let s := { s with screenX := s.screenX + 1 }
    let s := { s with screenY := s.screenY + s.screenX.tdiv NUM_COLS }
    let s := { s with screenX := s.screenX.tmod NUM_COLS }
    if s.screenY ≥ NUM_ROWS then shiftScreenUp bus currAttribute s else s

/-- `put_t`: `size - index` rounds to go. The byte is examined before the index
is compared with `size`. Returns the final index. -/
def putT {m : Type → Type} [Monad m] {σ : Type} (bus : VideoBus σ) (currAttribute : UInt8)
    (s : ℕ → m UInt8) : ℕ → ℕ → Screen σ → m (ℕ × Screen σ)
  | 0, index, scr => do
    let _ ← s index
    pure (index, scr)
  | n + 1, index, scr => do
    let c ← s index
    if c ≠ NULL_CHAR then putT bus currAttribute s n (index + 1) (putcScreen bus currAttribute scr c)
    else pure (index, scr)

end SnoopDos
