import SnoopDos.Spec.Console
import SnoopDos.Spec.Filesystem
import SnoopDos.Spec.Paging

/-! The global state of the kernel: what `scheduling.c`, `syscalls.c`,
`keyboard.c`, `paging.c` and `lib.c` keep in static variables, the task state
segment, CR3, and the process control blocks at the bottom of the kernel stacks. -/

namespace SnoopDos

def KERNEL_PID : ℤ := -1
def USER_EXECUTE : Word := 0#32
def FIRST_TERM_SHELL : Word := 1#32
def IN_INTERRUPT_FLAG : Word := 2#32
def MASK_8KB_ALIGNED : Word := 0xFFFFE000#32
def KERNEL_STACK_START : ℤ := 0x800000
def MIN_FD_PER_PROCESS : ℕ := 2
def MAX_FD_PER_PROCESS : ℕ := 8
def KEYBOARD_BUFF_SIZE : ℕ := 128

/-- The file operation tables of `syscalls.c`, or `NULL`. -/
inductive FopsTable
  | null
  | rtc
  | terminal
  | regularFile
  | directory
  deriving DecidableEq, Repr

/-- `file_info_t`. -/
structure FileInfo where
  fopsJmpTable : FopsTable
  inode : Addr
  position : Word
  flags : Word
  deriving DecidableEq

/-- A saved instruction pointer is one of two labels, or was never saved. -/
inductive CodeLabel
  | unsaved
  | switchContext
  | switchTerminalContext
  deriving DecidableEq, Repr

/-- The suspended kernel call that the saved `esp_k` and `ebp_k` point into, with
the locals that the resumed code reads: `pid` and `interrupt_flags` of
`internal_execute`, or `flags` of the `IRQ1_handler_sub` below
`process_sent_scancode`. After the call has been resumed only residue is left. -/
inductive Frame
  | gone
  | internalExecute (pid : ℕ) (interruptFlags : Bool)
  | saveAndSwitch
  | processSentScancode (irqFlags : Word)
  deriving DecidableEq, Repr

/-- `pcb_t`. `frame` stands for `esp_k` and `ebp_k`, `eflags` for the saved
interrupt flag, `args` for the string that `args` points to (`none` is `NULL`). -/
structure Pcb where
  fdArray : ℕ → FileInfo
  retVal : Word
  args : Option (List UInt8)
  parentPCB : Addr
  esp0 : Addr
  eip : CodeLabel
  frame : Frame
  eflags : Bool
  flags : Word
  pid : ℤ
  ownedByTerminal : ℕ

/-- `terminal_t`. -/
structure Terminal where
  screenX : ℤ
  screenY : ℤ
  stdin : ℕ → UInt8
  stdinIndex : ℕ
  allowedToRead : Bool
  readWaiting : Bool
  pid : ℕ

structure Kernel where
  /-- `pid_avail`: bit `p` is set when pid `p` is in use. -/
  pidAvail : Word
  terminalBeingServiced : ℕ
  terminalsLaunched : Word
  terminalState : ℕ
  terminals : ℕ → Terminal
  keyboardState : Word
  /-- `tss.esp0`. -/
  esp0 : Addr
  cr3 : DirectoryPtr
  /-- The interrupt flag of EFLAGS. -/
  interruptFlag : Bool
  /-- Process control blocks by address. -/
  pcbs : Addr → Pcb
  paging : Paging
  /-- Physical memory: the text pages and the process blocks. -/
  mem : Addr → UInt8
  screenX : ℤ
  screenY : ℤ
  /-- `curr_attribute` of `lib.c`. -/
  currAttribute : UInt8
  /-- `curr_attribute` and `curr_back_attribute` of `keyboard.c`. -/
  kbdAttribute : ℕ
  kbdBackAttribute : ℕ
  rtcFlag : Bool
  rtcRegisterA : UInt8
  rtcBeenInited : Bool
  /-- Ghost: the argument of every `set_new_page_directory` so far, with the
  entries the directory held at the time. -/
  cr3Log : List (DirectoryPtr × (ℕ → Word))

/-- `KERNEL_STACK_START - (pid + 1) * LITERAL_8KB`. -/
def pcbAddr (pid : ℤ) : Addr := BitVec.ofInt 32 (KERNEL_STACK_START - (pid + 1) * 0x2000)

/-- `KERNEL_STACK_START - pid * LITERAL_8KB`. -/
def kernelStackTop (pid : ℤ) : Addr := BitVec.ofInt 32 (KERNEL_STACK_START - pid * 0x2000)

/-- The value left by storing an `int8_t` or `int` in a `uint8_t`. -/
def toUint8 (z : ℤ) : ℕ := (z % 256).toNat

namespace Kernel

variable (k : Kernel)

/-- `(tss_base->esp0-1) & MASK_8KB_ALIGNED`: where the running process's PCB is. -/
def pcbCurr : Addr := (k.esp0 - 1#32) &&& MASK_8KB_ALIGNED

def currentPcb : Pcb := k.pcbs k.pcbCurr

def setPcb (a : Addr) (f : Pcb → Pcb) : Kernel :=
  { k with pcbs := Function.update k.pcbs a (f (k.pcbs a)) }

def setTerminal (t : ℕ) (f : Terminal → Terminal) : Kernel :=
  { k with terminals := Function.update k.terminals t (f (k.terminals t)) }

def setNewPageDirectory (d : DirectoryPtr) : Kernel :=
  { k with cr3 := d, cr3Log := k.cr3Log ++ [(d, k.paging.directory d)] }

/-- A load through the loaded directory. An address that is not mapped would
fault; the model reads 0. -/
def loadByte (mem : Addr → UInt8) (v : Addr) : UInt8 :=
  match k.paging.translate k.cr3 v with
  | some t => mem t.phys
  | none => 0

/-- A store through the loaded directory; one that would fault changes nothing. -/
def storeByte (mem : Addr → UInt8) (v : Addr) (c : UInt8) : Addr → UInt8 :=
  match k.paging.translate k.cr3 v with
  | some t => Function.update mem t.phys c
  | none => mem

/-- `video_mem` behind the loaded directory. -/
def videoBus : VideoBus (Addr → UInt8) where
  load mem i := k.loadByte mem (BitVec.ofInt 32 (VIDEO + i))
  store mem i c := k.storeByte mem (BitVec.ofInt 32 (VIDEO + i)) c

/-- Bytes stored at `v`, `v + 1`, ... through the loaded directory. -/
def storeBytes (mem : Addr → UInt8) (v : Addr) : List UInt8 → Addr → UInt8
  | [] => mem
  | c :: cs => storeBytes (k.storeByte mem v c) (v + 1#32) cs

/-- The screen as `lib.c` sees it. -/
def screen : Screen (Addr → UInt8) := ⟨k.mem, k.screenX, k.screenY⟩

def setScreen (s : Screen (Addr → UInt8)) : Kernel :=
  { k with mem := s.mem, screenX := s.screenX, screenY := s.screenY }

end Kernel

end SnoopDos
