import SnoopDos.Spec.Files
import SnoopDos.Spec.Keyboard
import SnoopDos.Lib.Runs

/-! The running system. Between two events user code runs, with interrupts
enabled; an event is a system call that starts or ends a process, or an interrupt.
Before the first shell only interrupts and the final call of `entry` happen. -/

namespace SnoopDos

/-- What the running process or the hardware does next. The command is what lies
in memory behind the pointer given to `execute`. -/
inductive Event
  | execute (residue : Residue) (command : ℕ → UInt8)
  | halt (residue : Residue) (status : UInt8)
  | tick
  | key (residue : Residue) (raw : UInt8)

/-- `init_kbd` on one terminal. -/
def initTerminal (t : Terminal) : Terminal :=
  { t with
    screenX := 0
    screenY := 0
    stdin := fun i => if i < KEYBOARD_BUFF_SIZE then NULL_CHAR else t.stdin i
    stdinIndex := 0
    allowedToRead := false
    readWaiting := false }

def Kernel.initKbd (k : Kernel) : Kernel :=
  { k with
    terminals := fun t => if t < NUM_TERMINALS then initTerminal (k.terminals t) else k.terminals t }

/-- The state after `sti` in `entry`: static variables have their initial values,
and nothing has been saved in a PCB. -/
structure Booted (k : Kernel) : Prop where
  pidAvail : k.pidAvail = 0#32
  terminalBeingServiced : k.terminalBeingServiced = 0
  terminalsLaunched : k.terminalsLaunched = 1#32
  terminalState : k.terminalState = 0
  keyboardState : k.keyboardState = 0#32
  terminals : ∀ t, ∃ u, k.terminals t = { initTerminal u with pid := 0 }
  esp0 : k.esp0 = 0x800000#32
  cr3 : k.cr3 = .kernel
  interruptFlag : k.interruptFlag = true
  paging : ∃ P : Paging, k.paging = P.initKernelPages ∧
    (∀ p i, P.userLevelPageDirectories p i = 0#32) ∧ ∀ p i, P.userLevelBasePageTables p i = 0#32
  pcbs : ∀ a, (k.pcbs a).eip = .unsaved ∧ (k.pcbs a).frame = .gone
  cr3Log : k.cr3Log = []

/-- The smallest image that boots: its one file is the shell, forty bytes long. -/
def shellFs : Fs where
  image a := (List.lookup a
    [(0, 1), (4, 1), (8, 1), (64, 0x73), (65, 0x68), (66, 0x65), (67, 0x6c), (68, 0x6c), (96, 2),
     (4096, 40), (8192, 0x7f), (8193, 0x45), (8194, 0x4c), (8195, 0x46), (8216, 0x18),
     (8217, 0x80), (8218, 0x04), (8219, 0x08)]).getD 0
  inodesAddr := 0x441000#32

def zeroPaging : Paging where
  kernelPageDirectory _ := 0#32
  kernelPageTable _ := 0#32
  userLevelPageDirectories _ _ := 0#32
  userLevelBasePageTables _ _ := 0#32
  kernelPageTableAddr := 0x410000#32
  userLevelBasePageTablesAddr := 0x420000#32
  elsewhere _ _ := 0#32
  kernelAligned := by decide
  userAligned := by decide
  apart := by decide

def zeroPcb : Pcb where
  fdArray _ := ⟨.null, 0#32, 0#32, 0#32⟩
  retVal := 0#32
  args := none
  parentPCB := 0#32
  esp0 := 0#32
  eip := .unsaved
  frame := .gone
  eflags := false
  flags := 0#32
  pid := 0
  ownedByTerminal := 0

/-- The state after `sti` on a machine whose memory was zero. -/
def bootKernel : Kernel where
  pidAvail := 0#32
  terminalBeingServiced := 0
  terminalsLaunched := 1#32
  terminalState := 0
  terminals _ := ⟨0, 0, fun _ => NULL_CHAR, 0, false, false, 0⟩
  keyboardState := 0#32
  esp0 := 0x800000#32
  cr3 := .kernel
  interruptFlag := true
  pcbs _ := zeroPcb
  paging := zeroPaging.initKernelPages
  mem _ := 0
  screenX := 0
  screenY := 0
  currAttribute := 7
  kbdAttribute := 7
  kbdBackAttribute := 0
  rtcFlag := false
  rtcRegisterA := 0x2F
  rtcBeenInited := false
  cr3Log := []

theorem bootKernel_booted : Booted bootKernel where
  pidAvail := rfl
  terminalBeingServiced := rfl
  terminalsLaunched := rfl
  terminalState := rfl
  keyboardState := rfl
  terminals t := ⟨bootKernel.terminals t, by simp [bootKernel, initTerminal]⟩
  esp0 := rfl
  cr3 := rfl
  interruptFlag := rfl
  paging := ⟨zeroPaging, rfl, fun _ _ => rfl, fun _ _ => rfl⟩
  pcbs _ := ⟨rfl, rfl⟩
  cr3Log := rfl

def zeroResidue : Residue := ⟨fun _ => 0, fun _ => 0⟩

/-- The state once `entry` has started the first shell. -/
def shellKernel : Kernel :=
  match bootKernel.executeShell shellFs zeroResidue with
  | .failed k => k
  | .started k _ => k

namespace Kernel

variable (k : Kernel)

/-- The next state while user code runs; `none` when the call never returns to
code of the system. -/
def step (fs : Fs) : Event → Option Kernel
  | .execute residue command =>
    match Id.run (k.internalExecute fs residue (fun i => (command i : Id UInt8)) USER_EXECUTE) with
    | some (.started k _) => some k
    | some (.failed k) => some k.iret
    | none => none
  | .halt residue status =>
    match k.halt fs residue status with
    | .restarted k _ => some k
    | .resumed k _ => some k.iret
    | .wild => none
  | .tick => k.irq0Handler.map iret
  | .key residue raw =>
    match k.irq1Handler fs residue raw with
    | .returned k => some k.iret
    | .switched k _ => some k

/-- `"Welcome to Snoop-Diggity-dOS 0.2\n"`. -/
def WELCOME : List UInt8 :=
  [87, 101, 108, 99, 111, 109, 101, 32, 116, 111, 32, 83, 110, 111, 111, 112, 45, 68, 105, 103,
   103, 105, 116, 121, 45, 100, 79, 83, 32, 48, 46, 50, 10]

/-- The end of `entry`, from `sti` on, when no interrupt comes. -/
def entry (fs : Fs) (residue : Residue) : ExecResult :=
  (k.printfT WELCOME).executeShell fs residue

end Kernel

/-- How far `entry` has come: it is about to print the welcome or to start the first
shell, or user code runs. -/
inductive EntryPhase
  | welcome
  | execute
  | user
  deriving DecidableEq, Repr

/-- The machine from `sti` on. -/
structure System where
  phase : EntryPhase
  kernel : Kernel

/-- What the machine does next: `entry` goes on, or an event of the running system. -/
inductive SystemEvent
  | entry (residue : Residue)
  | event (e : Event)

namespace System

/-- An interrupt of `entry`. A key that starts a shell leaves `entry` suspended in the
handler; such runs are followed no further. -/
def interrupt (fs : Fs) (s : System) : Event → Option System
  | .tick => (s.kernel.irq0Handler.map Kernel.iret).map fun k => { s with kernel := k }
  | .key residue raw =>
    match s.kernel.irq1Handler fs residue raw with
    | .returned k => some { s with kernel := k.iret }
    | .switched _ _ => none
  | .execute .. => none
  | .halt .. => none

/-- The next state of the machine. When the first shell does not start, `entry` stops
with interrupts off. -/
def step (fs : Fs) (s : System) : SystemEvent → Option System
  | .entry residue =>
    match s.phase with
    | .welcome => some ⟨.execute, s.kernel.printfT Kernel.WELCOME⟩
    | .execute =>
      match s.kernel.executeShell fs residue with
      | .started k _ => some ⟨.user, k⟩
      | .failed _ => none
    | .user => none
  | .event e =>
    match s.phase with
    | .user => (s.kernel.step fs e).map (⟨.user, ·⟩)
    | _ => s.interrupt fs e

end System

end SnoopDos
