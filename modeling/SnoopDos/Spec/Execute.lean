import SnoopDos.Spec.Scheduling

/-! `internal_execute`, `halt` and `halt_excep` of `syscalls.c`. A call of
`internal_execute` ends with `FAILURE` or by entering user code; its suspended
frame returns when `halt` jumps to `JMP_POS_HALT`. -/

namespace SnoopDos

open Loops

def MAX_EXECUTE_ARG_SIZE : ℕ := 128
def ENTRY_POINT_INDEX : Word := 24#32

/-- `EXECUTABLE_CHECK_0` to `EXECUTABLE_CHECK_3`. -/
def EXECUTABLE_CHECK : List UInt8 := [0x7f, 0x45, 0x4c, 0x46]

/-- The string `"shell"`. -/
def SHELL : List UInt8 := [0x73, 0x68, 0x65, 0x6c, 0x6c]

/-- What the stack holds where `magic` and `entry_point_address` are declared. -/
structure Residue where
  magic : ℕ → UInt8
  entryPointAddress : ℕ → UInt8

def overlay (bytes : List UInt8) (residue : ℕ → UInt8) (i : ℕ) : UInt8 := bytes.getD i (residue i)

/-- The loop of `internal_execute` that splits off the arguments: the command up
to its first space, and what `argstring` points to (`none` is `NULL`). -/
def splitCommand : List UInt8 → List UInt8 × Option (List UInt8)
  | [] => ([], none)
  | c :: rest =>
    if c = EMPTY_SPACE then ([], some rest)
    else
      let r := splitCommand rest
      (c :: r.1, some (r.2.getD []))

def clearFdArray (fdArray : ℕ → FileInfo) : ℕ → FileInfo :=
  forRange MIN_FD_PER_PROCESS (MAX_FD_PER_PROCESS - MIN_FD_PER_PROCESS)
    (fun i a => Function.update a i ⟨.null, 0#32, 0#32, 0#32⟩) fdArray

/-- The descriptor that `internal_execute` puts in slots 0 and 1. -/
def terminalFd : FileInfo := ⟨.terminal, 0#32, 0#32, 1#32⟩

/-- How `internal_execute` ends: it returns `FAILURE`, or it enters user code at
an entry point. -/
inductive ExecResult
  | failed (k : Kernel)
  | started (k : Kernel) (entryPointAddress : Word)

/-- How `halt` ends: the first shell of a terminal is started again, the parent's
`internal_execute` returns a status, or `JMP_POS_HALT` runs on a frame that is not
one of `internal_execute`. -/
inductive HaltResult
  | restarted (k : Kernel) (entryPointAddress : Word)
  | resumed (k : Kernel) (haltStatus : Word)
  | wild

namespace Kernel

variable (k : Kernel)

def setInterruptFlag (b : Bool) : Kernel := { k with interruptFlag := b }

/-- Start of `internal_execute`: `cli`, and the PCB of the caller becomes the
kernel's when no pid is in use. -/
def executePrologue : Kernel :=
  let k := k.setInterruptFlag false
  if k.allPidsAvailable then
    k.setPcb k.pcbCurr fun p =>
      { p with pid := KERNEL_PID, parentPCB := 0#32, args := none, retVal := 0#32, esp0 := 0#32 }
  else k

/-- The final `read_data` of `internal_execute`, into the process block. -/
def loadProgram (fs : Fs) (pid : ℕ) (inode : Word) : Kernel :=
  let dest := blockAddressForProcess pid + BitVec.ofNat 32 TASK_PROGRAM_IMAGE_OFFSET
  let r := readData fs inode 0#32 (BitVec.ofNat 32 (LITERAL_4MB - TASK_PROGRAM_IMAGE_OFFSET))
  { k with mem := k.storeBytes k.mem dest r.bytes }

/-- The load and `setup_task_paging` of `internal_execute`. -/
def prepareChild (fs : Fs) (pid : ℕ) (inode : Word) : Kernel :=
  let k := k.loadProgram fs pid inode
  { k with paging := k.paging.setupTaskPaging pid (blockAddressForProcess pid) }

/-- The PCB that `internal_execute` sets up for the child; the other fields keep
what the slot held before. -/
def childPcb (pid : ℕ) (args : Option (List UInt8)) (flags : Word) : Pcb :=
  let p := k.pcbs (pcbAddr pid)
  { p with
    esp0 := k.esp0
    parentPCB := k.pcbCurr
    pid := pid
    args := args
    flags := flags
    ownedByTerminal := k.terminalState
    fdArray := clearFdArray
      (Function.update (Function.update p.fdArray STDIN.toNat terminalFd) STDOUT.toNat terminalFd) }

/-- `internal_execute` from `set up child PCB` to the `iret`. -/
def startChild (pid : ℕ) (args : Option (List UInt8)) (flags : Word) (interruptFlags : Bool) :
    Kernel :=
  let pcbCurr := k.pcbCurr
  let k := k.setPcb (pcbAddr pid) fun _ => k.childPcb pid args flags
  let k := k.setTerminal k.terminalState fun t => { t with pid := pid }
  let k := { k with esp0 := kernelStackTop pid }
  let k := k.markPidUsed pid
  let k := k.setNewPageDirectory (getPageDirectoryForPid pid)
  let k :=
    if flags &&& 1#32 = 0#32 then
      k.setPcb pcbCurr fun p => { p with frame := .internalExecute pid interruptFlags }
    else k
  k.setInterruptFlag true

/-- `internal_execute` once the command has been copied. -/
def executeCommand (fs : Fs) (residue : Residue) (interruptFlags : Bool) (pid : ℕ)
    (commandstring : List UInt8) (flags : Word) : ExecResult :=
  let name := (splitCommand commandstring).1
  let argstring := (splitCommand commandstring).2
  match Id.run (readDentryByName fs (ofList name)) with
  | none => .failed k
  | some entry =>
    if entry.filetype ≠ FILETYPE_REGULAR then .failed k
    else
      let magic := overlay (readData fs entry.inode 0#32 4#32).bytes residue.magic
      if (List.range 4).map magic ≠ EXECUTABLE_CHECK then .failed k
      else
        let entryPointAddress := le32 (overlay
          (readData fs entry.inode ENTRY_POINT_INDEX 4#32).bytes residue.entryPointAddress) 0
        .started ((k.prepareChild fs pid entry.inode).startChild pid argstring flags interruptFlags)
          entryPointAddress

/-- `internal_execute`. The command is read through `command`; `none` means that
no terminator is ever found. -/
def internalExecute {m : Type → Type} [Monad m] (fs : Fs) (residue : Residue)
    (command : ℕ → m UInt8) (flags : Word) : m (Option ExecResult) := do
  let interruptFlags := k.interruptFlag
  let k := k.executePrologue
  match k.getAvailablePid with
  | none => pure (some (.failed k))
  | some pid => do
    let len ← strlen command (2 ^ 32) 0
    match len with
    | none => pure none
    | some len =>
      if MAX_EXECUTE_ARG_SIZE ≤ len then pure (some (.failed k))
      else do
        let commandstring ← strcpy command MAX_EXECUTE_ARG_SIZE 0
        pure (some (k.executeCommand fs residue interruptFlags pid commandstring flags))

/-- `internal_execute("shell", FIRST_TERM_SHELL)`. -/
def executeShell (fs : Fs) (residue : Residue) : ExecResult :=
  match Id.run (k.internalExecute fs residue (ofList SHELL) FIRST_TERM_SHELL) with
  | some r => r
  | none => .failed k

/-- The code after `JMP_POS_HALT`, on the frame saved in the PCB at `parent`. -/
def jmpPosHalt (parent : Addr) : HaltResult :=
  match (k.pcbs parent).frame with
  | .internalExecute pid interruptFlags =>
    let haltStatus := (k.pcbs (pcbAddr pid)).retVal
    let k := k.setPcb parent fun p => { p with frame := .gone }
    let k := k.markPidFree pid
    .resumed (k.setInterruptFlag interruptFlags) haltStatus
  | _ => .wild

/-- `halt` and `halt_excep` from `restore the PD of the parent` on. -/
def haltReturn (cur parent : Addr) (status : Word) : HaltResult :=
  let pid := (k.pcbs parent).pid
  let pd := if pid = KERNEL_PID then DirectoryPtr.kernel else getPageDirectoryForPid pid
  let k := k.setNewPageDirectory pd
  let k := k.setPcb cur fun p => { p with retVal := status }
  let parentPcb := k.pcbs parent
  let k := k.setTerminal parentPcb.ownedByTerminal fun t => { t with pid := toUint8 parentPcb.pid }
  k.jmpPosHalt parent

def halt (fs : Fs) (residue : Residue) (status : UInt8) : HaltResult :=
  let k := k.setInterruptFlag false
  let pcbCurr := k.pcbCurr
  let cur := k.pcbs pcbCurr
  let k := { k with esp0 := cur.esp0 }
  let status := BitVec.ofNat 32 status.toNat
  if cur.flags = FIRST_TERM_SHELL then
    match (k.markPidFree cur.pid).executeShell fs residue with
    | .started k entryPointAddress => .restarted k entryPointAddress
    | .failed k => k.haltReturn pcbCurr cur.parentPCB status
  else k.haltReturn pcbCurr cur.parentPCB status

def haltExcep (status : Word) : HaltResult :=
  let k := k.setInterruptFlag false
  let pcbCurr := k.pcbCurr
  let cur := k.pcbs pcbCurr
  let k := { k with esp0 := cur.esp0 }
  k.haltReturn pcbCurr cur.parentPCB status

end Kernel

end SnoopDos
