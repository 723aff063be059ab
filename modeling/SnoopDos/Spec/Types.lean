import Mathlib.Tactic

/-! `types.h` and the constants that the headers share. An `int32_t` or
`uint32_t` is a `BitVec 32`, read with `toInt` or `toNat` where the code compares
it as signed or unsigned; counters that stay small are natural numbers. -/

namespace SnoopDos

abbrev Addr := BitVec 32

/-- A 32-bit machine word. -/
abbrev Word := BitVec 32

def SUCCESS : Word := 0#32
/-- `FAILURE` and `ERROR` are both -1. -/
def FAILURE : Word := -1#32

def STDIN : Word := 0#32
def STDOUT : Word := 1#32

def NULL_CHAR : UInt8 := 0
def BKSP_CHAR : UInt8 := 8
def NEW_LINE : UInt8 := 10
def CARRIAGE_RETURN : UInt8 := 13
def EMPTY_SPACE : UInt8 := 32

def LITERAL_4KB : ℕ := 0x1000
def LITERAL_4MB : ℕ := 0x400000
def LITERAL_8KB : ℕ := 0x2000

/-- Physical and kernel-virtual address of the text-mode screen (`lib.h`). -/
def VIDEO : ℕ := 0xB8000

/-- `NUM_TERMINALS` (`keyboard.h`). -/
def NUM_TERMINALS : ℕ := 3

/-- `MAX_NUM_PROCS` (`scheduling.h`) and `MAX_TASKS` (`paging.h`). -/
def MAX_NUM_PROCS : ℕ := 6

/-- `TASK_VIRTUAL_BASE_ADDRESS` (`paging.h`): the user window starts here. -/
def TASK_VIRTUAL_BASE_ADDRESS : ℕ := 0x08000000

/-- `TASK_PROGRAM_IMAGE_OFFSET` (`paging.h`). -/
def TASK_PROGRAM_IMAGE_OFFSET : ℕ := 0x48000

/-- The pointer check of `read`, `write`, `open`, `getargs` and `vidmap`. -/
def inWindow (p : Addr) : Prop :=
  TASK_VIRTUAL_BASE_ADDRESS ≤ p.toNat ∧ p.toNat < TASK_VIRTUAL_BASE_ADDRESS + LITERAL_4MB

instance (p : Addr) : Decidable (inWindow p) := inferInstanceAs (Decidable (_ ∧ _))

end SnoopDos
