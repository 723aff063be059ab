import SnoopDos.Lib.WordStack
import SnoopDos.Spec.Types

/-! The gates of the kernel: the table that `init_idt` fills, the wrappers of
`interrupt_handler_asm.S`, and the stubs of `ece391syscall.S` that programs call. A C
function is a step of the processor from its first instruction to its return. -/

namespace SnoopDos

open WordStack

def KERNEL_CS : Word := 0x0010#32
def KERNEL_DS : Word := 0x0018#32
def USER_CS : Word := 0x0023#32
def USER_DS : Word := 0x002B#32
def NUM_VEC : ℕ := 256
def VALID_EXCEPTION_RANGE : ℕ := 20
def RESERVED_EXCEP_1 : ℕ := 1
def RESERVED_EXCEP_15 : ℕ := 15
def IRQ_LOW_BOUND : ℕ := 32
def IRQ_HIGH_BOUND : ℕ := 48
def SYSTEM_CALL_VECTOR : ℕ := 0x80
def SYSTEM_CALL_HANDLER : ℕ := 48
def USER_LEVEL_DESCRIPTOR : ℕ := 3
def KERNEL_LEVEL_DESCRIPTOR : ℕ := 0

/-- The wrappers that interrupts and traps lead to. -/
inductive Handler
  | exceptionHandler (n : ℕ)
  | ignoreInt
  | irqHandler (n : ℕ)
  | systemCallHandler
  deriving DecidableEq, Repr

open Handler in
def idtJmpTable : List Handler :=
  [exceptionHandler 0, ignoreInt, exceptionHandler 2, exceptionHandler 3,
   exceptionHandler 4, exceptionHandler 5, exceptionHandler 6, exceptionHandler 7,
   exceptionHandler 8, exceptionHandler 9, exceptionHandler 10, exceptionHandler 11,
   exceptionHandler 12, exceptionHandler 13, exceptionHandler 14, ignoreInt,
   exceptionHandler 16, exceptionHandler 17, exceptionHandler 18, exceptionHandler 19,
   ignoreInt, ignoreInt, ignoreInt, ignoreInt, ignoreInt, ignoreInt, ignoreInt,
   ignoreInt, ignoreInt, ignoreInt, ignoreInt, ignoreInt,
   irqHandler 0, irqHandler 1, ignoreInt, irqHandler 3, irqHandler 4, irqHandler 5,
   irqHandler 6, irqHandler 7, irqHandler 8, irqHandler 9, irqHandler 10, irqHandler 11,
   irqHandler 12, irqHandler 13, irqHandler 14, irqHandler 15,
   systemCallHandler]

/-- What an entry of the IDT says; the halves of its offset are one handler. -/
structure IdtDesc where
  handler : Handler
  /-- `reserved3`: a trap gate, or an interrupt gate. -/
  trapGate : Bool
  dpl : ℕ
  present : Bool

def initIdt (idt : ℕ → IdtDesc) (i : ℕ) : IdtDesc :=
  if NUM_VEC ≤ i then idt i
  else if i < VALID_EXCEPTION_RANGE ∧ i ≠ RESERVED_EXCEP_1 ∧ i ≠ RESERVED_EXCEP_15 then
    ⟨idtJmpTable.getD i .ignoreInt, false, KERNEL_LEVEL_DESCRIPTOR, true⟩
  else if IRQ_LOW_BOUND ≤ i ∧ i < IRQ_HIGH_BOUND then
    ⟨idtJmpTable.getD i .ignoreInt, false, KERNEL_LEVEL_DESCRIPTOR, true⟩
  else if i = SYSTEM_CALL_VECTOR then
    ⟨idtJmpTable.getD SYSTEM_CALL_HANDLER .ignoreInt, true, USER_LEVEL_DESCRIPTOR, true⟩
  else { idt i with present := false }

/-- The privilege level at which the processor runs. -/
def cpl (m : Cpu) : ℕ := (m.cs &&& 3#32).toNat

/-- From user code the processor changes to the stack at `esp0`, and saves its own there. -/
def switchStack (esp0 : Word) (m : Cpu) : Cpu :=
  if cpl m = 0 then m else (Cpu.push { m with esp := esp0, ss := KERNEL_DS } m.ss).push m.esp

def enterGate (esp0 : Word) (d : IdtDesc) (m : Cpu) : Cpu :=
  let k := (((switchStack esp0 m).push m.eflags).push m.cs).push m.eip
  { k with
    cs := KERNEL_CS
    eflags := if d.trapGate then m.eflags else m.eflags &&& 0xFFFFFDFF#32 }

def intr (idt : ℕ → IdtDesc) (esp0 : Word) (i : ℕ) (m : Cpu) : Option (Handler × Cpu) :=
  if (idt i).present then some ((idt i).handler, enterGate esp0 (idt i) m) else none

/-- `iret` from the kernel. -/
def iretCpu (m : Cpu) : Cpu :=
  let eip := m.top
  let m := m.drop
  let cs := m.top
  let m := m.drop
  let m := { m.drop with eip := eip, cs := cs, eflags := m.top }
  if cpl m = 0 then m
  else
    let esp := m.top
    let m := m.drop
    { m with esp := esp, ss := m.top }

/-- `ignore_int`, `IRQ0_handler`, ..., `IRQ15_handler` up to the function they call, in
which alone they differ. `next` is the address after the call. -/
def irqEnter (next : Word) (m : Cpu) : Cpu :=
  ((((((m.push m.eax).push m.ecx).push m.edx).push m.ebx).push m.esi).push m.edi).push next

def irqLeave (m : Cpu) : Cpu :=
  let m := { m.drop with edi := m.top }
  let m := { m.drop with esi := m.top }
  let m := { m.drop with ebx := m.top }
  let m := { m.drop with edx := m.top }
  let m := { m.drop with ecx := m.top }
  iretCpu { m.drop with eax := m.top }

/-- The system calls, by the names of the functions. -/
inductive Syscall
  | halt
  | execute
  | read
  | write
  | «open»
  | close
  | getargs
  | vidmap
  | setHandler
  | sigreturn
  deriving DecidableEq, Repr

namespace Syscall

/-- `SYS_HALT`, ..., `SYS_SIGRETURN`. -/
def number : Syscall → Word
  | halt => 1#32
  | execute => 2#32
  | read => 3#32
  | write => 4#32
  | «open» => 5#32
  | close => 6#32
  | getargs => 7#32
  | vidmap => 8#32
  | setHandler => 9#32
  | sigreturn => 10#32

end Syscall

open Syscall in
def syscallCJmpTable : List (Option Syscall) :=
  [none, some halt, some execute, some read, some write, some «open», some close, some getargs,
   some vidmap, some setHandler, some sigreturn]

/-- `system_call_handler` up to the call, which it makes unless the number is out of
range. -/
def enterSyscall (next : Word) (m : Cpu) : Option (Syscall × Cpu) :=
  let m := (m.push m.ecx).push m.edx
  if m.eax.toInt < 1 ∨ 8 < m.eax.toInt then none
  else
    let m := ((m.push m.edx).push m.ecx).push m.ebx
    match syscallCJmpTable.getD m.eax.toNat none with
    | some c => some (c, m.push next)
    | none => none

/-- `system_call_handler` after the call. -/
def leaveSyscall (m : Cpu) : Cpu :=
  let m := { m with esp := m.esp + 12#32 }
  let m := { m.drop with edx := m.top }
  iretCpu { m.drop with ecx := m.top }

/-- `error`, which finds the saved registers on the stack. -/
def errorSyscall (m : Cpu) : Cpu :=
  let m := { m.drop with edx := m.top }
  let m := { m.drop with ecx := m.top }
  iretCpu { m with eax := -1#32 }

def systemCallHandler (f : Syscall → Cpu → Cpu) (next : Word) (m : Cpu) : Cpu :=
  match enterSyscall next m with
  | some (c, m) => leaveSyscall (f c m)
  | none => errorSyscall ((m.push m.ecx).push m.edx)

end SnoopDos
