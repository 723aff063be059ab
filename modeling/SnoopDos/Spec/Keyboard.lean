import SnoopDos.Spec.Terminal

/-! `scancodes.c`, the key handler of `keyboard.c`, and the keyboard interrupt that
runs it. -/

namespace SnoopDos

open Loops

def SCANCODE_MAKE : UInt8 := 0
def SCANCODE_BREAK : UInt8 := 1
def SCANCODE_PRINTABLE : UInt8 := 2
def SCANCODE_LETTER : UInt8 := 4
def SCANCODE_NUMBER : UInt8 := 8
def SCANCODE_MODIFIER : UInt8 := 16

/-- `scancode_t`. -/
structure Scancode where
  result : UInt8
  flags : UInt8
  deriving DecidableEq, Repr

/-- `IS_MAKE_SC`. -/
def Scancode.isMake (s : Scancode) : Bool := s.flags &&& SCANCODE_BREAK = 0
/-- `IS_PRINTABLE_SC`. -/
def Scancode.isPrintable (s : Scancode) : Bool := s.flags &&& SCANCODE_PRINTABLE ≠ 0
/-- `IS_LETTER_SC`. -/
def Scancode.isLetter (s : Scancode) : Bool := s.flags &&& SCANCODE_LETTER ≠ 0

/-- Scancode and result of the make codes, by their flags besides `SCANCODE_MAKE`. -/
def makeCodes : List (UInt8 × List (UInt8 × UInt8)) :=
  [(0,
    [(0x01, 12), (0x0E, 0), (0x0F, 9), (0x37, 7), (0x3A, 1), (0x3B, 14), (0x3C, 16), (0x3D, 18),
     (0x3E, 20), (0x3F, 22), (0x40, 24), (0x41, 26), (0x42, 28), (0x43, 30), (0x44, 31),
     (0x45, 4), (0x46, 34), (0x47, 25), (0x48, 27), (0x49, 29), (0x4A, 8), (0x4B, 19),
     (0x4C, 21), (0x4D, 23), (0x4E, 9), (0x4F, 13), (0x50, 15), (0x51, 17), (0x52, 11),
     (0x53, 10), (0x57, 32), (0x58, 33)]),
   (SCANCODE_MODIFIER, [(0x1D, 3), (0x2A, 2), (0x36, 6), (0x38, 5)]),
   (SCANCODE_NUMBER ||| SCANCODE_PRINTABLE,
    [(0x02, 49), (0x03, 50), (0x04, 51), (0x05, 52), (0x06, 53), (0x07, 54), (0x08, 55),
     (0x09, 56), (0x0A, 57), (0x0B, 48)]),
   (SCANCODE_PRINTABLE,
    [(0x0C, 45), (0x0D, 61), (0x1A, 91), (0x1B, 93), (0x1C, 10), (0x27, 59), (0x28, 39),
     (0x29, 96), (0x2B, 92), (0x33, 44), (0x34, 46), (0x35, 47), (0x39, 32)]),
   (SCANCODE_LETTER ||| SCANCODE_PRINTABLE,
    [(0x10, 113), (0x11, 119), (0x12, 101), (0x13, 114), (0x14, 116), (0x15, 121), (0x16, 117),
     (0x17, 105), (0x18, 111), (0x19, 112), (0x1E, 97), (0x1F, 115), (0x20, 100), (0x21, 102),
     (0x22, 103), (0x23, 104), (0x24, 106), (0x25, 107), (0x26, 108), (0x2C, 122), (0x2D, 120),
     (0x2E, 99), (0x2F, 118), (0x30, 98), (0x31, 110), (0x32, 109)])]

/-- The break codes, by their flags besides `SCANCODE_BREAK`. `0x89` is assigned
twice, for the backquote and for `8`; the second assignment stays. `0xA9` is not
assigned at all. -/
def breakCodes : List (UInt8 × List (UInt8 × UInt8)) :=
  [(0,
    [(0x81, 12), (0x8E, 0), (0xB7, 7), (0xBA, 1), (0xBB, 14), (0xBC, 16), (0xBD, 18),
     (0xBE, 20), (0xBF, 22), (0xC0, 24), (0xC1, 26), (0xC2, 28), (0xC3, 30), (0xC4, 31),
     (0xC5, 4), (0xC6, 34), (0xC7, 25), (0xC8, 27), (0xC9, 29), (0xCA, 8), (0xCB, 19),
     (0xCC, 21), (0xCD, 23), (0xCE, 9), (0xCF, 13), (0xD0, 15), (0xD1, 17), (0xD2, 11),
     (0xD3, 10), (0xD7, 32), (0xD8, 33)]),
   (SCANCODE_MODIFIER, [(0x9D, 3), (0xAA, 2), (0xB6, 6), (0xB8, 5)]),
   (SCANCODE_NUMBER ||| SCANCODE_PRINTABLE,
    [(0x82, 49), (0x83, 50), (0x84, 51), (0x85, 52), (0x86, 53), (0x87, 54), (0x88, 55),
     (0x89, 56), (0x8A, 57), (0x8B, 48)]),
   (SCANCODE_PRINTABLE,
    [(0x8C, 45), (0x8D, 61), (0x8F, 9), (0x9A, 91), (0x9B, 93), (0x9C, 10), (0xA7, 59),
     (0xA8, 39), (0xAB, 92), (0xB3, 44), (0xB4, 46), (0xB5, 47), (0xB9, 32)]),
   (SCANCODE_LETTER ||| SCANCODE_PRINTABLE,
    [(0x90, 113), (0x91, 119), (0x92, 101), (0x93, 114), (0x94, 116), (0x95, 121), (0x96, 117),
     (0x97, 105), (0x98, 111), (0x99, 112), (0x9E, 97), (0x9F, 115), (0xA0, 100), (0xA1, 102),
     (0xA2, 103), (0xA3, 104), (0xA4, 106), (0xA5, 107), (0xA6, 108), (0xAC, 122), (0xAD, 120),
     (0xAE, 99), (0xAF, 118), (0xB0, 98), (0xB1, 110), (0xB2, 109)])]

/-- The entry for a scancode in a list of rows. -/
def lookupCode (base : UInt8) (rows : List (UInt8 × List (UInt8 × UInt8))) (raw : UInt8) :
    Option Scancode :=
  rows.findSome? fun row => (row.2.lookup raw).map fun result => ⟨result, base ||| row.1⟩

/-- `scancode_table` after `init_scancode_table`; entries not assigned are zero. -/
def scancodeTable (raw : UInt8) : Scancode :=
  match lookupCode SCANCODE_MAKE makeCodes raw with
  | some s => s
  | none => (lookupCode SCANCODE_BREAK breakCodes raw).getD ⟨0, 0⟩

def nonAlphaShiftTable (c : UInt8) : UInt8 :=
  (List.lookup c
    [(49, 33), (50, 64), (51, 35), (52, 36), (53, 37), (54, 94), (55, 38), (56, 42), (57, 40),
     (48, 41), (45, 95), (61, 43), (91, 123), (93, 125), (92, 124), (39, 34), (59, 58), (44, 60),
     (46, 62), (47, 63), (96, 126)]).getD 0

def SHIFT_MASK : Word := 0x1#32
def CONTROL_MASK : Word := 0x2#32
def CAPS_LOCK_MASK : Word := 0x4#32
def BACKSPACE_MASK : Word := 0x8#32
def R_SHIFT_MASK : Word := 0x20#32
def ALT_MASK : Word := 0x40#32

def DELETE_SCAN_CODE : UInt8 := 0x53
def BACKSPACE_PRESS : UInt8 := 0x0E
def ENTER_PRESS : UInt8 := 0x1C
def ALT_PRESS : UInt8 := 0x38

def F1_MAKE : UInt8 := 14
def F2_MAKE : UInt8 := 16
def F3_MAKE : UInt8 := 18
def CLEAR_SCREEN_SHORTCUT : UInt8 := 108
def ASCII_SIX : UInt8 := 54
def ASCII_SEVEN : UInt8 := 55
def ASCII_SHIFT_VAL : UInt8 := 32
def NULL_NL_PADDING : ℕ := 2

def STATE_ONE : ℕ := 0
def STATE_TWO : ℕ := 1
def STATE_THREE : ℕ := 2
def TERMINAL_TWO_MASK : Word := 2#32
def TERMINAL_THREE_MASK : Word := 4#32

def MAX_ATTRIB : ℕ := 0x0F
def MIN_ATTRIB : ℕ := 0x01
def MAX_BACKGROUD_ATTRIB : ℕ := 0x0F
def MIN_BACKGROUD_ATTRIB : ℕ := 0x00

/-- `"\nCould not start new terminal: max processes running\n"`. -/
def MAX_PROCESSES_MESSAGE : List UInt8 :=
  [10, 67, 111, 117, 108, 100, 32, 110, 111, 116, 32, 115, 116, 97, 114, 116, 32, 110, 101, 119, 32,
   116, 101, 114, 109, 105, 110, 97, 108, 58, 32, 109, 97, 120, 32, 112, 114, 111, 99, 101, 115,
   115, 101, 115, 32, 114, 117, 110, 110, 105, 110, 103, 10]

/-- `"391OS> "`. -/
def PROMPT : List UInt8 := [51, 57, 49, 79, 83, 62, 32]

/-- The `switch` of `process_sent_scancode` on the modifier keys. -/
def updateKeyboardState (state : Word) (raw : UInt8) : Word :=
  match raw with
  | 0x0E => state ||| BACKSPACE_MASK
  | 0x8E => state &&& ~~~BACKSPACE_MASK
  | 0x3A => state ^^^ CAPS_LOCK_MASK
  | 0x2A => state ||| SHIFT_MASK
  | 0xAA => state &&& ~~~SHIFT_MASK
  | 0x36 => state ||| R_SHIFT_MASK
  | 0xB6 => state &&& ~~~R_SHIFT_MASK
  | 0x1D => state ||| CONTROL_MASK
  | 0x9D => state &&& ~~~CONTROL_MASK
  | 0x38 => state ||| ALT_MASK
  | 0xB8 => state &&& ~~~ALT_MASK
  | _ => state

/-- A bit of `keyboard_state`, as `ALT_ON` and the like test it. -/
def isOn (state mask : Word) : Bool := state &&& mask ≠ 0#32

/-- The character that the last part of `process_sent_scancode` prints and
appends, if any. -/
def mappedChar (state : Word) (mapped : Scancode) : Option UInt8 :=
  if isOn state CAPS_LOCK_MASK && !isOn state SHIFT_MASK && !isOn state R_SHIFT_MASK then
    if mapped.isLetter then some (mapped.result - ASCII_SHIFT_VAL)
    else if mapped.isPrintable then some mapped.result
    else none
  else if isOn state SHIFT_MASK || isOn state R_SHIFT_MASK then
    if mapped.isLetter && !isOn state CAPS_LOCK_MASK then some (mapped.result - ASCII_SHIFT_VAL)
    else if mapped.isPrintable then
      if nonAlphaShiftTable mapped.result ≠ 0 then some (nonAlphaShiftTable mapped.result)
      else some mapped.result
    else none
  else if mapped.isPrintable then some mapped.result
  else none

/-- How the key handler ends: it returns, or it starts a shell. -/
inductive KeyResult
  | returned (k : Kernel)
  | switched (k : Kernel) (entryPointAddress : Word)

namespace Kernel

variable (k : Kernel)

/-- `set_new_page_directory` of the process that terminal `t` runs. -/
def loadTerminalDirectory (t : ℕ) : Kernel :=
  k.setNewPageDirectory (getPageDirectoryForPid (k.terminals t).pid)

/-- `CAN_SWITCH_TWO` and `CAN_SWITCH_THREE`. -/
def canSwitch (mask : Word) (state : ℕ) : Bool :=
  ((k.terminalsLaunched &&& mask = 0#32 && k.getAvailablePid.isSome) ||
    k.terminalsLaunched &&& mask ≠ 0#32) && k.terminalState ≠ state

/-- End of the branch for ALT, at `SWITCH_TERMINAL_CONTEXT`. -/
def switchTerminalContext : Kernel := k.loadTerminalDirectory k.terminalBeingServiced

/-- The cases `F2_MAKE` and `F3_MAKE`. -/
def switchOrLaunch (fs : Fs) (residue : Residue) (irqFlags mask : Word) (state : ℕ) : KeyResult :=
  if k.canSwitch mask state then
    let k := k.changeTerminalState k.terminalState state
    if k.terminalsLaunched &&& mask = 0#32 then
      let k := { k with terminalBeingServiced := k.terminalState }
      let k := k.saveProcessContext .switchTerminalContext (.processSentScancode irqFlags)
      let k := { k with terminalsLaunched := k.terminalsLaunched ||| mask }
      match k.executeShell fs residue with
      | .started k entryPointAddress => .switched k entryPointAddress
      | .failed k => .returned k.switchTerminalContext
    else .returned k.switchTerminalContext
  else if k.terminalState ≠ state then
    .returned ((k.printfT MAX_PROCESSES_MESSAGE).printfT PROMPT).switchTerminalContext
  else .returned k.switchTerminalContext

def altKey (fs : Fs) (residue : Residue) (irqFlags : Word) (mapped : Scancode) : KeyResult :=
  let k := k.setInterruptFlag false
  if mapped.result = F1_MAKE then
    .returned (if k.terminalState ≠ STATE_ONE then k.changeTerminalState k.terminalState STATE_ONE
      else k).switchTerminalContext
  else if mapped.result = F2_MAKE then
    k.switchOrLaunch fs residue irqFlags TERMINAL_TWO_MASK STATE_TWO
  else if mapped.result = F3_MAKE then
    k.switchOrLaunch fs residue irqFlags TERMINAL_THREE_MASK STATE_THREE
  else .returned k.switchTerminalContext

def changeAtribute (attrib : UInt8) : Kernel :=
  { k with
    mem := forRange 0 2000 (fun i mem => k.videoBus.store mem (2 * i + 1) attrib) k.mem
    currAttribute := attrib }

/-- `change_atribute((curr_back_attribute << COLOR_SHIFT) | curr_attribute)`. -/
def applyAttributes : Kernel :=
  k.changeAtribute (UInt8.ofNat (k.kbdBackAttribute * 16 ||| k.kbdAttribute))

def clearAndReset : Kernel :=
  { k with mem := clear k.videoBus k.currAttribute k.mem }.setScreenXY 0 0

def initializeVideoMemory : Kernel :=
  { k with mem := clearVideoAndBackingStores k.videoBus k.currAttribute k.mem }.setScreenXY 0 0

/-- The branch for CTRL. -/
def ctrlKey (mapped : Scancode) : Kernel :=
  let k :=
    if mapped.result = CLEAR_SCREEN_SHORTCUT then
      let currentProcessTerminal := k.terminalBeingServiced
      let k := k.clearAndReset
      let k := k.saveScreenXY k.terminalState
      let k := { k with terminalBeingServiced := k.terminalState }
      let k := k.printfT PROMPT
      let stdin := (k.terminals k.terminalState).stdin
      let n := (Id.run (strlen (fun i => (stdin i : Id UInt8)) KEYBOARD_BUFF_SIZE 0)).getD 0
      let k := (Id.run (k.writeTerminal STDOUT (fun i => (stdin i : Id UInt8)) (BitVec.ofNat 32 n))).2
      { k with terminalBeingServiced := currentProcessTerminal }
    else if mapped.result = ASCII_SIX then
      let a := if MAX_ATTRIB < k.kbdAttribute + 1 then MIN_ATTRIB else k.kbdAttribute + 1
      { k with kbdAttribute := a }.applyAttributes
    else if mapped.result = ASCII_SEVEN then
      let a :=
        if MAX_BACKGROUD_ATTRIB < k.kbdBackAttribute + 1 then MIN_BACKGROUD_ATTRIB
        else k.kbdBackAttribute + 1
      { k with kbdBackAttribute := a }.applyAttributes
    else k
  k.switchTerminalContext

/-- `stdin[stdin_index++] = c; stdin[stdin_index] = NULL_CHAR`. -/
def appendStdin (c : UInt8) : Kernel :=
  k.setTerminal k.terminalState fun t =>
    { t with
      stdin := Function.update (Function.update t.stdin t.stdinIndex c) (t.stdinIndex + 1) NULL_CHAR
      stdinIndex := t.stdinIndex + 1 }

/-- The branch for BACKSPACE. -/
def backspaceKey : Kernel :=
  if 0 < (k.terminals k.terminalState).stdinIndex then
    (k.putcKbd BKSP_CHAR).setTerminal k.terminalState fun t =>
      { t with
        stdin := Function.update t.stdin (t.stdinIndex - 1) NULL_CHAR
        stdinIndex := t.stdinIndex - 1 }
  else k

/-- The branch for NEW_LINE. -/
def enterKey : Kernel :=
  let k := (k.putcKbd NEW_LINE).appendStdin NEW_LINE
  k.setTerminal k.terminalState fun t =>
    if t.readWaiting then
      { t with
        stdin := if t.stdin 0 = NEW_LINE then Function.update t.stdin 1 NULL_CHAR else t.stdin
        allowedToRead := true }
    else
      { t with
        stdin := fun i => if i < KEYBOARD_BUFF_SIZE then NULL_CHAR else t.stdin i
        stdinIndex := 0
        allowedToRead := false }

/-- From the limit on keyboard inputs to the end. -/
def typeKey (mapped : Scancode) : Kernel :=
  if KEYBOARD_BUFF_SIZE - NULL_NL_PADDING ≤ (k.terminals k.terminalState).stdinIndex then k
  else
    match mappedChar k.keyboardState mapped with
    | some c => (k.putcKbd c).appendStdin c
    | none => k

/-- `process_sent_scancode` on the scancode that `get_char` delivered. `irqFlags`
is the local of `IRQ1_handler_sub`, on whose frame it runs. -/
def processSentScancode (fs : Fs) (residue : Residue) (irqFlags : Word) (raw : UInt8) : KeyResult :=
  if raw = DELETE_SCAN_CODE then .returned k
  else
    let k := { k with keyboardState := updateKeyboardState k.keyboardState raw }
    let mapped := scancodeTable raw
    if ¬ mapped.isMake then .returned k
    else
      let k := k.loadTerminalDirectory k.terminalState
      if isOn k.keyboardState ALT_MASK then k.altKey fs residue irqFlags mapped
      else if isOn k.keyboardState CONTROL_MASK then .returned (k.ctrlKey mapped)
      else if isOn k.keyboardState BACKSPACE_MASK then
        .returned (k.backspaceKey.typeKey mapped).switchTerminalContext
      else if mapped.result = NEW_LINE ∧
          (k.terminals k.terminalState).stdinIndex < KEYBOARD_BUFF_SIZE - 1 then
        .returned k.enterKey.switchTerminalContext
      else .returned (k.typeKey mapped).switchTerminalContext

/-- The `iret` that ends an interrupt or a system call: the code it returns to had
interrupts enabled. -/
def iret : Kernel := k.setInterruptFlag true

/-- `IRQ1_handler_sub`. -/
def irq1Handler (fs : Fs) (residue : Residue) (raw : UInt8) : KeyResult :=
  let pcbCurr := k.pcbCurr
  let flags := (k.pcbs pcbCurr).flags
  let k := k.setPcb pcbCurr fun p => { p with flags := p.flags ||| IN_INTERRUPT_FLAG }
  match (k.setInterruptFlag true).processSentScancode fs residue flags raw with
  | .returned k => .returned (k.setPcb pcbCurr fun p => { p with flags := flags })
  | .switched k entryPointAddress => .switched k entryPointAddress

end Kernel

end SnoopDos
