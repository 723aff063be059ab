import SnoopDos.Lib.Trace
import SnoopDos.Spec.Terminal

/-! `itoa`, `printf` and `printf_t` of `lib.c`. Formats and strings lie outside of video
memory, so that what a call does depends on nothing that it prints: it is the sequence of
its events, the bytes of the format that it examines and the output functions that it
calls. -/

namespace SnoopDos

open Loops

def PERCENT : UInt8 := 0x25
def HASH : UInt8 := 0x23
def MINUS : UInt8 := 0x2d
def DIGIT_ZERO : UInt8 := 0x30

/-- `"0123456789ABCDEFGHIJKLMNOPQRSTUVWXYZ"`. -/
def lookup : List UInt8 :=
  [0x30, 0x31, 0x32, 0x33, 0x34, 0x35, 0x36, 0x37, 0x38, 0x39, 0x41, 0x42, 0x43, 0x44, 0x45, 0x46,
   0x47, 0x48, 0x49, 0x4a, 0x4b, 0x4c, 0x4d, 0x4e, 0x4f, 0x50, 0x51, 0x52, 0x53, 0x54, 0x55, 0x56,
   0x57, 0x58, 0x59, 0x5a]

/-- `lookup[i]`. -/
def lookupDigit (i : ℕ) : UInt8 := lookup.getD i NULL_CHAR

/-- The length of the string at `s` in a buffer. -/
def bufStrlen (buf : ℕ → UInt8) (s : ℕ) : Option ℕ :=
  Id.run (strlen (fun i => (buf (s + i) : Id UInt8)) (2 ^ 32) 0)

/-- The loop of `strrev` on the string at `s`, `fuel` rounds at most. -/
def strrevLoop (s : ℕ) : ℕ → ℕ → ℕ → (ℕ → UInt8) → ℕ → UInt8
  | 0, _, _, buf => buf
  | fuel + 1, first, last, buf =>
    if first < last then
      let tmp := buf (s + last)
      let buf := Function.update buf (s + last) (buf (s + first))
      let buf := Function.update buf (s + first) tmp
      strrevLoop s fuel (first + 1) (last - 1) buf
    else buf

def strrev (buf : ℕ → UInt8) (s : ℕ) : ℕ → UInt8 :=
  let n := (bufStrlen buf s).getD 0
  strrevLoop s n 0 (n - 1) buf

/-- The loop of `itoa`, `fuel` rounds at most: the buffer and `newbuf` after it. -/
def itoaLoop (radix : ℕ) : ℕ → ℕ → (ℕ → UInt8) → ℕ → (ℕ → UInt8) × ℕ
  | 0, _, buf, newbuf => (buf, newbuf)
  | fuel + 1, newval, buf, newbuf =>
    if 0 < newval then
      itoaLoop radix fuel (newval / radix)
        (Function.update buf newbuf (lookupDigit (newval % radix))) (newbuf + 1)
    else (buf, newbuf)

/-- `itoa` into the buffer from `s` on. -/
def itoa (value : Word) (buf : ℕ → UInt8) (s radix : ℕ) : ℕ → UInt8 :=
  if value = 0#32 then Function.update (Function.update buf s DIGIT_ZERO) (s + 1) NULL_CHAR
  else
    let r := itoaLoop radix 32 value.toNat buf s
    strrev (Function.update r.1 r.2 NULL_CHAR) s

/-- What a formatting function does: `*buf` at an offset of the format,
`write_terminal(STDOUT, buf, 1)` with `buf` in the format, the same with a buffer of its
own, `putc`. -/
inductive FormatEvent
  | examine (off : ℕ)
  | writeFormat (off : ℕ)
  | write (buf : ℕ → UInt8) (nbytes : Word)
  | putc (c : UInt8)

abbrev Formatting := Trace FormatEvent

/-- The output that `printf` and `printf_t` make in their different ways: of `%%`, of an
ordinary character, of a converted number, of `%c` and of `%s`. -/
structure Printer where
  literal : Formatting Unit
  ordinary (c : UInt8) (off : ℕ) : Formatting Unit
  number (buf : ℕ → UInt8) (start size : ℕ) : Formatting (Option Unit)
  char (arg : Word) : Formatting Unit
  string (s : ℕ → UInt8) : Formatting (Option Unit)

/-- `puts` from index `i` on, `none` if the next `fuel` bytes hold no terminator. -/
def puts (s : ℕ → UInt8) : ℕ → ℕ → Formatting (Option Unit)
  | 0, _ => pure none
  | fuel + 1, i =>
    if s i ≠ NULL_CHAR then do
      Trace.access (.putc (s i)) ()
      puts s fuel (i + 1)
    else pure (some ())

def printfPrinter : Printer where
  literal := Trace.access (.putc PERCENT) ()
  ordinary c _ := Trace.access (.putc c) ()
  number buf start _ := puts (fun i => buf (start + i)) (2 ^ 32) 0
  char arg := Trace.access (.putc (UInt8.ofNat arg.toNat)) ()
  string s := puts s (2 ^ 32) 0

def printfTPrinter : Printer where
  literal := Trace.access (.write (fun i => ofList [PERCENT] i) 1#32) ()
  ordinary _ off := Trace.access (.writeFormat off) ()
  number buf start size :=
    Trace.access (.write (fun i => buf (start + i)) (BitVec.ofNat 32 (size - start))) (some ())
  char arg := Trace.access (.write (fun i => UInt8.ofNat (arg.toNat / 256 ^ i)) 1#32) ()
  string s :=
    match bufStrlen s 0 with
    | none => pure none
    | some n => Trace.access (.write s (BitVec.ofNat 32 n)) (some ())

section Conversions

variable (out : Printer) (mem : Addr → UInt8)

/-- `%x`; `residue` is what the stack held where `conv_buf` is. -/
def convertHex (residue : ℕ → UInt8) (alternate : Bool) (arg : Word) : Formatting (Option Unit) :=
  if ¬ alternate then out.number (itoa arg residue 0 16) 0 64
  else
    let convBuf := itoa arg residue 8 16
    let startingIndex := (bufStrlen convBuf 8).getD 0
    let convBuf := forRange startingIndex (8 - startingIndex)
      (fun i buf => Function.update buf i DIGIT_ZERO) convBuf
    out.number convBuf startingIndex 64

/-- `%u`. -/
def convertUnsigned (residue : ℕ → UInt8) (arg : Word) : Formatting (Option Unit) :=
  out.number (itoa arg residue 0 10) 0 36

/-- `%d`. -/
def convertSigned (residue : ℕ → UInt8) (value : Word) : Formatting (Option Unit) :=
  if value.toInt < 0 then out.number (itoa (-value) (Function.update residue 0 MINUS) 1 10) 0 36
  else out.number (itoa value residue 0 10) 0 36

/-- The inner `switch` on a character that is not `#`: where `esp` points after it. The
words from `esp` on are `args`. -/
def convert (residue : ℕ → ℕ → UInt8) (args : ℕ → Word) (c : UInt8) (alternate : Bool) (esp : ℕ) :
    Formatting (Option ℕ) :=
  if c = PERCENT then do
    out.literal
    pure (some esp)
  else if c = 0x78 then do
    let r ← convertHex out (residue esp) alternate (args esp)
    pure (r.map fun _ => esp + 1)
  else if c = 0x75 then do
    let r ← convertUnsigned out (residue esp) (args esp)
    pure (r.map fun _ => esp + 1)
  else if c = 0x64 then do
    let r ← convertSigned out (residue esp) (args esp)
    pure (r.map fun _ => esp + 1)
  else if c = 0x63 then do
    out.char (args esp)
    pure (some (esp + 1))
  else if c = 0x73 then do
    let r ← out.string fun i => mem (args esp + BitVec.ofNat 32 i)
    pure (r.map fun _ => esp + 1)
  else pure (some esp)

variable (format : Addr) (residue : ℕ → ℕ → UInt8) (args : ℕ → Word)

/-- `*buf` at an offset of the format. -/
def formatByte (off : ℕ) : Formatting UInt8 :=
  Trace.access (.examine off) (mem (format + BitVec.ofNat 32 off))

/-- `format_char_switch`, `fuel` rounds at most: the offset of the character that ends the
directive, and where `esp` points. -/
def formatCharSwitch : ℕ → ℕ → Bool → ℕ → Formatting (Option (ℕ × ℕ))
  | 0, _, _, _ => pure none
  | fuel + 1, off, alternate, esp => do
    let c ← formatByte mem format off
    if c = HASH then formatCharSwitch fuel (off + 1) true esp
    else do
      let r ← convert out mem residue args c alternate esp
      pure (r.map fun esp => (off, esp))

/-- The outer loop, `fuel` rounds at most: the offset where it stops. -/
def formatLoop : ℕ → ℕ → ℕ → Formatting (Option ℕ)
  | 0, _, _ => pure none
  | fuel + 1, off, esp => do
    let c ← formatByte mem format off
    if c = NULL_CHAR then pure (some off)
    else if c = PERCENT then do
      let r ← formatCharSwitch out mem format residue args fuel (off + 1) false esp
      match r with
      | none => pure none
      | some (off, esp) => formatLoop fuel (off + 1) esp
    else do
      out.ordinary c off
      formatLoop fuel (off + 1) esp

/-- A call on the format at `format` in memory, with `fuel` rounds at most in each loop:
`buf - format`, or `none` if it has not ended. -/
def formatCall (fuel : ℕ) : Formatting (Option Word) := do
  let r ← formatLoop out mem format residue args fuel 0 0
  pure (r.map fun off => BitVec.ofNat 32 off)

def printf (fuel : ℕ) : Formatting (Option Word) :=
  formatCall printfPrinter mem format residue args fuel

/-- `printf_t`. -/
def printfTCall (fuel : ℕ) : Formatting (Option Word) :=
  formatCall printfTPrinter mem format residue args fuel

end Conversions

section Effects

/-- What an event of `printf_t` does to the kernel; `putc` is the output of `printf`. -/
def FormatEvent.run (mem : Addr → UInt8) (format : Addr) (k : Kernel) : FormatEvent → Kernel
  | .examine _ => k
  | .writeFormat off => (Id.run (k.writeTerminal STDOUT
      (fun i => (mem (format + BitVec.ofNat 32 (off + i)) : Id UInt8)) 1#32)).2
  | .write buf nbytes => (Id.run (k.writeTerminal STDOUT (fun i => (buf i : Id UInt8)) nbytes)).2
  | .putc c => k.setScreen (SnoopDos.putc k.videoBus k.currAttribute k.screen c)

end Effects

end SnoopDos
