import SnoopDos.Spec.Execute

/-! The device drivers behind file descriptors: `write_terminal`, `read_terminal`,
`change_terminal_state` and `putc_kbd` of `keyboard.c`, `printf_t` of `lib.c`, and
`rtc.c`. -/

namespace SnoopDos

open Loops

def RTC_FREQ_MIN : ℤ := 2
def RTC_FREQ_MAX : ℤ := 1024
def FREQ_FORMULA_VAL : ℕ := 32768
def MAINTAIN_SIG_BYTE : UInt8 := 0xF0
def DESIRED_PIE_RATE : UInt8 := 0x0F

/-- First loop of the drain in `read_terminal`, `n` rounds to go: the characters
up to the first NUL. -/
def drainLoop (stdin : ℕ → UInt8) : ℕ → ℕ → List UInt8
  | 0, _ => []
  | n + 1, i => if stdin i ≠ NULL_CHAR then stdin i :: drainLoop stdin n (i + 1) else []

/-- The loop of `write_rtc` that finds the rate, `fuel` rounds at most. -/
def rateLoop : ℕ → ℕ → ℕ → ℕ
  | 0, _, rate => rate
  | fuel + 1, i, rate => if i ≠ 1 then rateLoop fuel (i / 2) (rate + 1) else rate

/-- `rtc_cond` of `write_rtc`. -/
def rtcCond (freq : Word) : Bool :=
  RTC_FREQ_MIN ≤ freq.toInt && freq.toInt ≤ RTC_FREQ_MAX && freq &&& (freq - 1#32) = 0#32

namespace Kernel

variable (k : Kernel)

/-- `memcpy` through the loaded directory. -/
def memcpy (dest src : Addr) (n : ℕ) : Kernel :=
  { k with
    mem := forRange 0 n (fun i mem =>
      k.storeByte mem (dest + BitVec.ofNat 32 i) (k.loadByte mem (src + BitVec.ofNat 32 i))) k.mem }

def setScreenXY (x y : ℤ) : Kernel := { k with screenX := x, screenY := y }

/-- `terminals[t].screen_x = get_screen_x()`, and the same for y. -/
def saveScreenXY (t : ℕ) : Kernel :=
  k.setTerminal t fun u => { u with screenX := k.screenX, screenY := k.screenY }

def putcKbd (c : UInt8) : Kernel := k.setScreen (putcScreen k.videoBus k.currAttribute k.screen c)

def writeTerminal {m : Type → Type} [Monad m] (fd : Word) (buf : ℕ → m UInt8) (nbytes : Word) :
    m (Word × Kernel) :=
  if fd ≠ STDOUT then pure (FAILURE, k)
  else if nbytes.toInt < 0 then pure (FAILURE, k)
  else do
    let k := k.saveScreenXY k.terminalState
    let cur := k.terminals k.terminalBeingServiced
    let k := k.setScreenXY cur.screenX cur.screenY
    let r ← putT k.videoBus k.currAttribute buf nbytes.toNat 0 k.screen
    let k := k.setScreen r.2
    let k := k.saveScreenXY k.terminalBeingServiced
    let vis := k.terminals k.terminalState
    pure (nbytes, k.setScreenXY vis.screenX vis.screenY)

/-- `printf_t` on a format without conversions: each character is a
`write_terminal` of its own. -/
def printfT (format : List UInt8) : Kernel :=
  format.foldl (fun k c => (Id.run (k.writeTerminal STDOUT (ofList [c]) 1#32)).2) k

/-- `read_terminal` up to the wait. -/
def readTerminalStart (t : ℕ) : Kernel := k.setTerminal t fun u => { u with readWaiting := true }

/-- The critical section of `read_terminal`: the bytes copied out, and the buffer
flushed. -/
def readTerminalDrain (t : ℕ) : List UInt8 × Kernel :=
  let line := drainLoop (k.terminals t).stdin KEYBOARD_BUFF_SIZE 0
  (line, k.setTerminal t fun u =>
    { u with
      stdin := fun i => if i < KEYBOARD_BUFF_SIZE then NULL_CHAR else u.stdin i
      stdinIndex := 0
      allowedToRead := false
      readWaiting := false })

/-- `read_terminal`, with `stdin` the contents of the buffer when the wait ends. -/
def readTerminal (stdin : ℕ → UInt8) (fd : Word) (buf : Addr) (nbytes : Word) :
    User (Word × Kernel) :=
  if fd ≠ STDIN then pure (FAILURE, k)
  else if nbytes.toInt < 0 then pure (FAILURE, k)
  else do
    let t := k.terminalBeingServiced
    let k := k.readTerminalStart t
    let k := k.setTerminal t fun u => { u with stdin := stdin, allowedToRead := true }
    let r := k.readTerminalDrain t
    UserMem.storeBytes buf r.1
    pure (BitVec.ofNat 32 r.1.length, r.2)

/-- The loop of `change_terminal_state` over the processes. -/
def remapVideo (fromT toT : ℕ) : Kernel :=
  forRange 0 MAX_NUM_PROCS (fun i k =>
    if ¬ k.isPidUsed i then k
    else
      let curPcb := k.pcbs (pcbAddr i)
      let k :=
        if curPcb.ownedByTerminal = fromT then
          { k with
            paging := k.paging.changeMapping i (BitVec.ofNat 32 VIDEO)
              (BitVec.ofNat 32 (VIDEO + (fromT + 1) * LITERAL_4KB)) }
        else k
      if curPcb.ownedByTerminal = toT then
        { k with
          paging := k.paging.changeMapping i (BitVec.ofNat 32 VIDEO) (BitVec.ofNat 32 VIDEO) }
      else k) k

def changeTerminalState (fromT toT : ℕ) : Kernel :=
  let k := k.memcpy (BitVec.ofNat 32 (VIDEO + (fromT + 1) * LITERAL_4KB)) (BitVec.ofNat 32 VIDEO)
    LITERAL_4KB
  let k := k.memcpy (BitVec.ofNat 32 VIDEO) (BitVec.ofNat 32 (VIDEO + (toT + 1) * LITERAL_4KB))
    LITERAL_4KB
  let k := k.saveScreenXY fromT
  let k := k.setScreenXY (k.terminals toT).screenX (k.terminals toT).screenY
  let k := k.remapVideo fromT toT
  { k with terminalState := toT }

/-- `read_rtc`, once the interrupt has cleared `rtc_flag`. -/
def readRtc : Word × Kernel := (0#32, { k with rtcFlag := false })

/-- The first step of `read_rtc`. -/
def readRtcSet : Kernel := { k with rtcFlag := true }

/-- The test of the loop of `read_rtc`: it ends the loop. -/
def readRtcTest : Bool := !k.rtcFlag

/-- `IRQ8_handler_sub`. -/
def irq8Handler : Kernel :=
  let pcbCurr := k.pcbCurr
  let flags := (k.pcbs pcbCurr).flags
  let k := k.setPcb pcbCurr fun p => { p with flags := p.flags ||| IN_INTERRUPT_FLAG }
  let k := { k.setInterruptFlag true with rtcFlag := false }
  k.setPcb pcbCurr fun p => { p with flags := flags }

def writeRtc (buf : Addr) : User (Word × Kernel) := do
  let b0 ← UserMem.load buf
  let b1 ← UserMem.load (buf + 1#32)
  let b2 ← UserMem.load (buf + 2#32)
  let b3 ← UserMem.load (buf + 3#32)
  let freq := le32 (fun i => [b0, b1, b2, b3].getD i 0) 0
  if ¬ rtcCond freq then pure (FAILURE, k)
  else
    let rate := rateLoop 32 (FREQ_FORMULA_VAL / freq.toNat) 1
    pure (1#32,
      { k with rtcRegisterA := k.rtcRegisterA &&& MAINTAIN_SIG_BYTE ||| UInt8.ofNat rate })

def openRtc : Kernel :=
  if ¬ k.rtcBeenInited then
    { k with
      rtcRegisterA := k.rtcRegisterA &&& MAINTAIN_SIG_BYTE ||| DESIRED_PIE_RATE
      rtcBeenInited := true }
  else k

end Kernel

end SnoopDos
