import SnoopDos.Lib.Links
import SnoopDos.Spec.Types

/-! `fish/blink.S` and the functions of `fish/fish.c` that it calls: characters of the
screen that blink, in a list through an array of cells. A cell whose location is zero
is taken to be unused. -/

namespace SnoopDos

/-- `struct mp1_blink_struct` without its `next`. -/
structure Blinker where
  location : BitVec 16
  onChar : UInt8
  offChar : UInt8
  onLength : BitVec 16
  offLength : BitVec 16
  countdown : BitVec 16
  status : BitVec 16
  deriving DecidableEq, Repr

/-- `struct mp1_blink_struct`. -/
structure BlinkStruct extends Blinker where
  next : Option ℕ

/-- Cells of `blink_array`, and of the text screen. -/
def BLINK_CELLS : ℕ := 80 * 25

/-- A cell after `ece391_memset(memory, 0, sizeof(struct mp1_blink_struct))`. -/
def zeroBlink : BlinkStruct := ⟨⟨0, 0, 0, 0, 0, 0, 0⟩, none⟩

/-- The memory of `fish`: a pointer is an index of `blink_array`, and `vmem` is what
lies behind `vmem_base_addr`. -/
structure Fish where
  blinkArray : ℕ → BlinkStruct
  mp1ListHead : Option ℕ
  vmem : ℕ → UInt8

namespace Fish

variable (s : Fish)

def links : Links ℕ := ⟨s.mp1ListHead, fun i => (s.blinkArray i).next⟩

def setLinks (L : Links ℕ) : Fish :=
  { s with
    blinkArray := fun i => { s.blinkArray i with next := L.next i }
    mp1ListHead := L.head }

def setCell (i : ℕ) (b : BlinkStruct) : Fish :=
  { s with blinkArray := Function.update s.blinkArray i b }

def mp1Poke (cl : UInt8) (eax : ℕ) : Fish := { s with vmem := Function.update s.vmem eax cl }

/-- Loop of `mp1_malloc`, `n` rounds to go. -/
def mallocLoop : ℕ → ℕ → Option ℕ
  | 0, _ => none
  | n + 1, i => if (s.blinkArray i).location = 0 then some i else mallocLoop n (i + 1)

def mp1Malloc : Option ℕ := s.mallocLoop BLINK_CELLS 0

def mp1Free (i : ℕ) : Fish := s.setCell i zeroBlink

/-- `mp1_find_helper`, `fuel` rounds at most. -/
def mp1FindHelper (fuel : ℕ) (location : BitVec 16) : Option (Option ℕ) :=
  Links.search s.links.next (fun i => (s.blinkArray i).location = location) fuel s.mp1ListHead

/-- Round of `tasklet_loop`. The comparison of the countdown is signed. -/
def taskletRound (i : ℕ) (s : Fish) : Fish :=
  let b := s.blinkArray i
  let b := { b with countdown := b.countdown - 1 }
  if 0 < b.countdown.toInt then s.setCell i b
  else if b.status &&& 1 = 0 then
    (s.mp1Poke b.onChar (b.location.toNat <<< 1)).setCell i
      { b with countdown := b.onLength, status := b.status ^^^ 1 }
  else
    (s.mp1Poke b.offChar (b.location.toNat <<< 1)).setCell i
      { b with countdown := b.offLength, status := b.status ^^^ 1 }

/-- `mp1_rtc_tasklet`, `fuel` rounds at most. -/
def mp1RtcTasklet (fuel : ℕ) : Option Fish :=
  Links.walk (fun s i => (s.blinkArray i).next) taskletRound fuel s.mp1ListHead s

/-- `mp1_ioctl_add` of the structure that user code has filled in. -/
def mp1IoctlAdd (user : Blinker) : Word × Fish :=
  if BLINK_CELLS ≤ user.location.toNat then (-1, s)
  else
    let temp := { user with status := 1, countdown := user.onLength }
    match s.mp1Malloc with
    | none => (-1, s)
    | some edx =>
      let s := s.setCell edx ⟨temp, s.mp1ListHead⟩
      let s := { s with mp1ListHead := some edx }
      (0, s.mp1Poke temp.onChar (temp.location.toNat <<< 1))

/-- `mp1_ioctl_remove`; `none` is a walk past the end of the list. -/
def mp1IoctlRemove (fuel : ℕ) (arg : Word) : Option (Word × Fish) := do
  let found ← s.mp1FindHelper fuel (arg.setWidth 16)
  match found with
  | none => some (-1, s)
  | some eax => do
    let edx ← s.links.findSlot eax fuel none
    let s := s.setLinks (s.links.point edx (s.blinkArray eax).next)
    some (0, s.mp1Free eax)

/-- `mp1_ioctl_find`, with the structure it copies to user code. -/
def mp1IoctlFind (fuel : ℕ) (location : BitVec 16) : Option (Word × Option Blinker) := do
  let found ← s.mp1FindHelper fuel location
  match found with
  | none => some (-1, none)
  | some eax => some (0, some (s.blinkArray eax).toBlinker)

/-- `mp1_ioctl_sync`. After `testb` neither sign nor overflow is set, so that `cmovl`
never takes the other character. -/
def mp1IoctlSync (fuel : ℕ) (arg : Word) : Option (Word × Fish) := do
  let found ← s.mp1FindHelper fuel ((arg >>> 16).setWidth 16)
  match found with
  | none => some (-1, s)
  | some esi => do
    let found ← s.mp1FindHelper fuel (arg.setWidth 16)
    match found with
    | none => some (-1, s)
    | some edi =>
      let b := s.blinkArray esi
      let s := s.setCell edi { s.blinkArray edi with
        onLength := b.onLength, offLength := b.offLength, countdown := b.countdown
        status := b.status }
      let b := s.blinkArray edi
      some (0, s.mp1Poke b.offChar (b.location.toNat <<< 1))

end Fish

/-- The calls of `mp1_ioctl` with their four commands, and of `mp1_rtc_tasklet`. -/
inductive BlinkCall
  | add (user : Blinker)
  | remove (arg : Word)
  | find (location : BitVec 16)
  | sync (arg : Word)
  | tasklet
  deriving DecidableEq, Repr

/-- What a call returns: the value in `eax`, and the structure copied to user code. -/
abbrev BlinkReply := Word × Option Blinker

/-- `mp1_ioctl` through its table, and `mp1_rtc_tasklet`. -/
def Fish.call (fuel : ℕ) (s : Fish) : BlinkCall → Option (BlinkReply × Fish)
  | .add user => let r := s.mp1IoctlAdd user; some ((r.1, none), r.2)
  | .remove arg => (s.mp1IoctlRemove fuel arg).map fun r => ((r.1, none), r.2)
  | .find location => (s.mp1IoctlFind fuel location).map fun r => (r, s)
  | .sync arg => (s.mp1IoctlSync fuel arg).map fun r => ((r.1, none), r.2)
  | .tasklet => (s.mp1RtcTasklet fuel).map fun s => ((0, none), s)

def Fish.calls (fuel : ℕ) : Fish → List BlinkCall → Option (List BlinkReply × Fish)
  | s, [] => some ([], s)
  | s, c :: cs => do
    let (r, s) ← s.call fuel c
    let (rs, s) ← Fish.calls fuel s cs
    some (r :: rs, s)

end SnoopDos
