import Mathlib.Data.Finset.Basic
import SnoopDos.Spec.Types

/-! `i8259.c` and the two interrupt controllers that it programs. Of a controller the
model has the mask register, the levels in service and the initialization words that it
still waits for. -/

namespace SnoopDos

def NUM_INTERRUPTS_PER_PIC : Word := 8#32
def MASTER_8259_PORT : ℕ := 0x20
def SLAVE_8259_PORT : ℕ := 0xA0
def MASTER_8259_PORT_DATA : ℕ := 0x20 + 1
def SLAVE_8259_PORT_DATA : ℕ := 0xA0 + 1
def DEFAULT_MASTER_MASK : UInt8 := 0xFB
def DEFAULT_SLAVE_MASK : UInt8 := 0xFF
def SLAVE_IRQ : Word := 2#32
def ICW1 : UInt8 := 0x11
def ICW2_MASTER : UInt8 := 0x20
def ICW2_SLAVE : UInt8 := 0x28
def ICW3_MASTER : UInt8 := 0x04
def ICW3_SLAVE : UInt8 := 0x02
def ICW4 : UInt8 := 0x01
def EOI : Word := 0x60#32

/-- One controller. -/
structure I8259 where
  imr : UInt8
  inService : Finset ℕ
  awaited : ℕ

/-- What is left open about a controller: its in-service bits after the first
initialization word, and the operation commands that are not a specific EOI. -/
structure I8259Commands where
  initInService : Finset ℕ → Finset ℕ
  otherCommand : UInt8 → I8259 → I8259

namespace I8259

variable (c : I8259)

/-- A write to the command port. Bit 4 marks the first initialization word, which clears
the mask register; its bits 1 and 0 say which words follow. -/
def writeCommand (cmds : I8259Commands) (b : UInt8) : I8259 :=
  if b &&& 0x10 ≠ 0 then
    { imr := 0
      inService := cmds.initInService c.inService
      awaited := 1 + (if b &&& 0x02 = 0 then 1 else 0) + if b &&& 0x01 ≠ 0 then 1 else 0 }
  else if b &&& 0xF8 = 0x60 then { c with inService := c.inService.erase (b &&& 0x07).toNat }
  else cmds.otherCommand b c

/-- A write to the data port: the next initialization word, or else the mask. -/
def writeData (b : UInt8) : I8259 :=
  if c.awaited = 0 then { c with imr := b } else { c with awaited := c.awaited - 1 }

end I8259

/-- The controllers, and the masks that the kernel keeps. -/
structure Pic where
  masterMask : UInt8
  slaveMask : UInt8
  master : I8259
  slave : I8259

/-- The byte that an `out` instruction takes from its operand, or that is assigned to a
`uint8_t`. -/
def lowByte (x : Word) : UInt8 := ⟨x.setWidth 8⟩

namespace Pic

variable (cmds : I8259Commands) (p : Pic)

def outb (b : UInt8) (port : ℕ) : Pic :=
  if port = MASTER_8259_PORT then { p with master := p.master.writeCommand cmds b }
  else if port = SLAVE_8259_PORT then { p with slave := p.slave.writeCommand cmds b }
  else if port = MASTER_8259_PORT_DATA then { p with master := p.master.writeData b }
  else if port = SLAVE_8259_PORT_DATA then { p with slave := p.slave.writeData b }
  else p

/-- The data ports read back the mask registers. -/
def inb (port : ℕ) : Word :=
  if port = SLAVE_8259_PORT_DATA then p.slave.imr.toBitVec.setWidth 32
  else if port = MASTER_8259_PORT_DATA then p.master.imr.toBitVec.setWidth 32
  else 0#32

def i8259Init : Pic :=
  let p := { p with slaveMask := DEFAULT_SLAVE_MASK, masterMask := DEFAULT_MASTER_MASK }
  let p := p.outb cmds ICW1 MASTER_8259_PORT
  let p := p.outb cmds ICW1 SLAVE_8259_PORT
  let p := p.outb cmds ICW2_MASTER MASTER_8259_PORT_DATA
  let p := p.outb cmds ICW2_SLAVE SLAVE_8259_PORT_DATA
  let p := p.outb cmds ICW3_MASTER MASTER_8259_PORT_DATA
  let p := p.outb cmds ICW3_SLAVE SLAVE_8259_PORT_DATA
  let p := p.outb cmds ICW4 MASTER_8259_PORT_DATA
  let p := p.outb cmds ICW4 SLAVE_8259_PORT_DATA
  let p := p.outb cmds p.masterMask MASTER_8259_PORT_DATA
  p.outb cmds p.slaveMask SLAVE_8259_PORT_DATA

/-- The data port of the controller that `irq_num` is on. -/
def dataPort (irqNum : Word) : ℕ :=
  if NUM_INTERRUPTS_PER_PIC.toNat ≤ irqNum.toNat then SLAVE_8259_PORT_DATA
  else MASTER_8259_PORT_DATA

/-- `enable_irq` and `disable_irq`, which differ in the new mask: it is made from the old
mask and `1 << irq_num`. -/
def switchIrq (newMask : Word → Word → Word) (irqNum : Word) : Pic :=
  let portNumber := dataPort irqNum
  let irqNum :=
    if portNumber = SLAVE_8259_PORT_DATA then irqNum - NUM_INTERRUPTS_PER_PIC else irqNum
  let mask := lowByte (newMask (p.inb portNumber) (1#32 <<< irqNum.toNat))
  let p :=
    if portNumber = SLAVE_8259_PORT_DATA then { p with slaveMask := mask }
    else { p with masterMask := mask }
  p.outb cmds mask portNumber

def enableIrq (irqNum : Word) : Pic := p.switchIrq cmds (fun mask bit => mask &&& ~~~bit) irqNum

def disableIrq (irqNum : Word) : Pic := p.switchIrq cmds (fun mask bit => mask ||| bit) irqNum

def sendEoi (irqNum : Word) : Pic :=
  if NUM_INTERRUPTS_PER_PIC.toNat ≤ irqNum.toNat then
    let p := p.outb cmds (lowByte (EOI ||| (NUM_INTERRUPTS_PER_PIC - irqNum))) SLAVE_8259_PORT
    p.outb cmds (lowByte (EOI ||| SLAVE_IRQ)) MASTER_8259_PORT
  else p.outb cmds (lowByte (EOI ||| irqNum)) MASTER_8259_PORT

end Pic

end SnoopDos
