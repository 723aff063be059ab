import SnoopDos.Spec.Fish

/-! What `blink.S` is for: a list of blinkers, newest first, and the screen that they
are drawn on. Nothing here is translated from the source. -/

namespace SnoopDos

namespace Blinker

/-- The byte of the screen that a blinker is shown in. -/
def cell (b : Blinker) : ℕ := b.location.toNat <<< 1

def started (b : Blinker) : Blinker := { b with status := 1, countdown := b.onLength }

def Stays (b : Blinker) : Prop := 0 < (b.countdown - 1).toInt

instance (b : Blinker) : Decidable b.Stays := inferInstanceAs (Decidable (_ < _))

def ticked (b : Blinker) : Blinker :=
  if b.Stays then { b with countdown := b.countdown - 1 }
  else if b.status &&& 1 = 0 then { b with countdown := b.onLength, status := b.status ^^^ 1 }
  else { b with countdown := b.offLength, status := b.status ^^^ 1 }

def draw (b : Blinker) (vmem : ℕ → UInt8) : ℕ → UInt8 :=
  if b.Stays then vmem
  else if b.status &&& 1 = 0 then Function.update vmem b.cell b.onChar
  else Function.update vmem b.cell b.offChar

/-- A blinker in step with `b`. -/
def synced (b c : Blinker) : Blinker :=
  { c with
    onLength := b.onLength
    offLength := b.offLength
    countdown := b.countdown
    status := b.status }

/-- The test of `mp1_find_helper`. -/
def isAt (location : BitVec 16) (b : Blinker) : Bool := b.location = location

end Blinker

/-- The blinkers, newest first, and the screen. -/
structure Board where
  blinkers : List Blinker
  vmem : ℕ → UInt8

namespace Board

variable (B : Board)

def add (b : Blinker) : Word × Board :=
  if BLINK_CELLS ≤ b.location.toNat ∨ BLINK_CELLS ≤ B.blinkers.length then (-1, B)
  else (0, ⟨b.started :: B.blinkers, Function.update B.vmem b.cell b.onChar⟩)

def find (location : BitVec 16) : BlinkReply :=
  match B.blinkers.find? (Blinker.isAt location) with
  | none => (-1, none)
  | some b => (0, some b)

def remove (location : BitVec 16) : Word × Board :=
  match B.blinkers.find? (Blinker.isAt location) with
  | none => (-1, B)
  | some _ => (0, { B with blinkers := B.blinkers.eraseP (Blinker.isAt location) })

/-- The newest blinker at `dst` takes the lengths and the phase of the newest at `src`,
and shows its off character. -/
def sync (src dst : BitVec 16) : Word × Board :=
  match B.blinkers.find? (Blinker.isAt src), B.blinkers.find? (Blinker.isAt dst) with
  | some b, some c =>
    (0, ⟨B.blinkers.replaceF fun c => if c.isAt dst then some (b.synced c) else none,
      Function.update B.vmem c.cell c.offChar⟩)
  | _, _ => (-1, B)

def tick : Board :=
  ⟨B.blinkers.map Blinker.ticked, B.blinkers.foldl (fun vmem b => b.draw vmem) B.vmem⟩

def call : BlinkCall → BlinkReply × Board
  | .add b => (((B.add b).1, none), (B.add b).2)
  | .remove arg => (((B.remove (arg.setWidth 16)).1, none), (B.remove (arg.setWidth 16)).2)
  | .find location => (B.find location, B)
  | .sync arg =>
    let r := B.sync ((arg >>> 16).setWidth 16) (arg.setWidth 16)
    ((r.1, none), r.2)
  | .tasklet => ((0, none), B.tick)

def calls (B : Board) : List BlinkCall → List BlinkReply × Board
  | [] => ([], B)
  | c :: cs => ((B.call c).1 :: ((B.call c).2.calls cs).1, ((B.call c).2.calls cs).2)

end Board

/-- The call adds no blinker at location zero. -/
def BlinkCall.Located : BlinkCall → Prop
  | .add b => b.location ≠ 0
  | _ => True

instance (c : BlinkCall) : Decidable c.Located :=
  match c with
  | .add b => inferInstanceAs (Decidable (b.location ≠ 0))
  | .remove _ | .find _ | .sync _ | .tasklet => isTrue trivial

/-- The call neither adds a blinker nor removes one. -/
def BlinkCall.Looks : BlinkCall → Prop
  | .add _ => False
  | .remove _ => False
  | _ => True

end SnoopDos
