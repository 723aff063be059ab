import SnoopDos.Spec.State

/-! `scheduling.c`: the pid bitmap, saving and switching contexts, and the round
robin over the launched terminals; and the timer interrupt that runs it. -/

namespace SnoopDos

/-- `START_MEM + PID_SPACE * pid`; `FAILURE` outside the pid range. -/
def blockAddressForProcess (pid : ℤ) : Word :=
  if 0 ≤ pid ∧ pid < MAX_NUM_PROCS then BitVec.ofInt 32 (0x800000 + 0x400000 * pid) else FAILURE

/-- Loop of `get_available_pid`, `n` rounds to go. -/
def availableLoop (pidAvail : Word) : ℕ → ℕ → Word → Option ℕ
  | 0, _, _ => none
  | n + 1, i, current =>
    if pidAvail &&& current = 0#32 then some i else availableLoop pidAvail n (i + 1) (current <<< 1)

namespace Kernel

variable (k : Kernel)

def allPidsAvailable : Bool := k.pidAvail = 0#32

/-- `get_available_pid`: `none` is `FAILURE`. -/
def getAvailablePid : Option ℕ := availableLoop k.pidAvail MAX_NUM_PROCS 0 1#32

def markPidUsed (pid : ℤ) : Kernel :=
  if 0 ≤ pid ∧ pid < MAX_NUM_PROCS then
    { k with pidAvail := k.pidAvail ||| (1#32 <<< pid.toNat) }
  else k

def markPidFree (pid : ℤ) : Kernel :=
  if 0 ≤ pid ∧ pid < MAX_NUM_PROCS then
    { k with pidAvail := k.pidAvail &&& ~~~(1#32 <<< pid.toNat) }
  else k

/-- `is_pid_used`: out of range it returns `(uint8_t) FAILURE`, which is true. -/
def isPidUsed (pid : ℤ) : Bool :=
  if pid < 0 ∨ MAX_NUM_PROCS ≤ pid then true
  else ((k.pidAvail &&& (1#32 <<< pid.toNat)) >>> pid.toNat) ≠ 0#32

def inHardwareInt : Bool := k.currentPcb.flags &&& IN_INTERRUPT_FLAG ≠ 0#32

/-- `save_process_context`, with the frame that `esp` and `ebp` point into. -/
def saveProcessContext (eip : CodeLabel) (frame : Frame) : Kernel :=
  k.setPcb k.pcbCurr fun p => { p with eip := eip, frame := frame, eflags := k.interruptFlag }

/-- What runs after `goto *jmp_addr` on the saved stack of the process now
selected by `esp0`. At `SWITCH_TERMINAL_CONTEXT` the keyboard handler reloads the
directory of the serviced terminal and returns to `IRQ1_handler_sub`, which
restores the PCB flags it saved. Either label ends in `leave; ret`, so on the
frame of a suspended `internal_execute` it makes that call return to its caller.
An instruction pointer that was never saved is stack residue: no successor. -/
def resumeContext : Option Kernel :=
  let p := k.currentPcb
  let k' := { k with interruptFlag := p.eflags }.setPcb k.pcbCurr fun p => { p with frame := .gone }
  match p.eip with
  | .unsaved => none
  | .switchContext => some k'
  | .switchTerminalContext =>
    let k' := k'.setNewPageDirectory
      (getPageDirectoryForPid (k'.terminals k'.terminalBeingServiced).pid)
    match p.frame with
    | .processSentScancode irqFlags => some (k'.setPcb k'.pcbCurr fun p => { p with flags := irqFlags })
    | _ => some k'

def saveAndSwitchProcessContext (pid : ℤ) : Option Kernel :=
  let k := k.setNewPageDirectory (getPageDirectoryForPid pid)
  let k := k.saveProcessContext .switchContext .saveAndSwitch
  let k := { k with esp0 := kernelStackTop pid }
  k.resumeContext

/-- Loop of `round_robin_scheduler`, `n` rounds to go. -/
def roundRobinLoop (terminalsLaunched : Word) : ℕ → Kernel → Option Kernel
  | 0, k => some k
  | n + 1, k =>
    let k := { k with terminalBeingServiced := (k.terminalBeingServiced + 1) % NUM_TERMINALS }
    if (terminalsLaunched >>> k.terminalBeingServiced) &&& 1#32 ≠ 0#32 then
      k.saveAndSwitchProcessContext (k.terminals k.terminalBeingServiced).pid
    else roundRobinLoop terminalsLaunched n k

def roundRobinScheduler : Option Kernel :=
  if k.terminalsLaunched = 1#32 then some k
  else roundRobinLoop k.terminalsLaunched NUM_TERMINALS k

/-- `IRQ0_handler_sub`. -/
def irq0Handler : Option Kernel := if k.inHardwareInt then some k else k.roundRobinScheduler

end Kernel

end SnoopDos
