import SnoopDos.Lib.Loops
import SnoopDos.Lib.PageWalk
import SnoopDos.Spec.Types

/-! `paging.c`: the statically allocated directories and tables, how they are set
up, and what the processor makes of them. -/

namespace SnoopDos

open Loops PageWalk

def KERNEL_BASE_ADDRESS : Word := 0x400000#32
def PD_ENTRIES : ℕ := 1024
def PT_ENTRIES : ℕ := 1024
def KERNEL_PDE_ENTRY : ℕ := 1
def PROCESS_BLOCKS_START : ℕ := 2
def NOT_PRESENT_MEMORY_START : ℕ := 8

def PTE_ENTRY_PRESENT : Word := 0x3#32
def PTE_ENTRY_NOT_PRESENT : Word := 0x2#32
def PDE_ENTRY_PRESENT : Word := 0x3#32
def PDE_ENTRY_NOT_PRESENT : Word := 0x2#32
def PDE_ENTRY_4MB_PRESENT : Word := 0x83#32
def PDE_USER_ACCESSIBLE : Word := 0x4#32

/-- Named for twelve bits, but the mask keeps ten. -/
def ISOLATE_BTM_12BITS : Word := 0x3FF#32
def GRANT_USER_ACCESS : Word := 0x6#32

/-- `PDE_ADDRESS_ASSIGN` and `PTE_ADDRESS_ASSIGN`. -/
def addressAssign (address : Word) : Word := address &&& 0xFFFFF000#32

/-- A pointer to a page directory. A pid below zero indexes in front of the array. -/
inductive DirectoryPtr
  | null
  | kernel
  | user (pid : ℤ)
  deriving DecidableEq, Repr

/-- The paging structures in kernel memory. The linker chooses where the base
tables start; `elsewhere` is whatever else lies in memory, read as a table. -/
structure Paging where
  kernelPageDirectory : ℕ → Word
  kernelPageTable : ℕ → Word
  userLevelPageDirectories : ℤ → ℕ → Word
  userLevelBasePageTables : ℤ → ℕ → Word
  kernelPageTableAddr : Addr
  userLevelBasePageTablesAddr : Addr
  elsewhere : Addr → ℕ → Word
  kernelAligned : kernelPageTableAddr.toNat % 4096 = 0
  userAligned : userLevelBasePageTablesAddr.toNat % 4096 = 0
  apart : ∀ p < MAX_NUM_PROCS,
    userLevelBasePageTablesAddr + BitVec.ofNat 32 (4096 * p) ≠ kernelPageTableAddr

def getPageDirectoryForPid (pid : ℤ) : DirectoryPtr :=
  if MAX_NUM_PROCS ≤ pid then .null else .user pid

/-- Loop of `setup_base_page_table`: the screen and the three backing pages are
present, for supervisor only. -/
def setupBasePageTable (basePageTable : ℕ → Word) : ℕ → Word :=
  forRange 0 PT_ENTRIES (fun i t =>
    let address := BitVec.ofNat 32 (i * LITERAL_4KB)
    let t := Function.update t i (addressAssign address)
    if address = BitVec.ofNat 32 VIDEO ∨ address = BitVec.ofNat 32 (VIDEO + LITERAL_4KB) ∨
        address = BitVec.ofNat 32 (VIDEO + LITERAL_8KB) ∨
        address = BitVec.ofNat 32 (VIDEO + 3 * LITERAL_4KB) then
      Function.update t i (t i ||| PTE_ENTRY_PRESENT)
    else Function.update t i (t i ||| PTE_ENTRY_NOT_PRESENT)) basePageTable

/-- `setup_task_paging`: the directory entries that depend on the base table and
the process block. The table itself is set up by `setupBasePageTable`. -/
def setupTaskDirectory (pageDirectory : ℕ → Word) (basePageTable : Addr)
    (physProgramAddress : Word) : ℕ → Word :=
  let d := Function.update pageDirectory 0 (addressAssign basePageTable)
  let d := Function.update d 0 (d 0 ||| PDE_ENTRY_PRESENT)
  let d := Function.update d KERNEL_PDE_ENTRY (addressAssign KERNEL_BASE_ADDRESS)
  let d := Function.update d KERNEL_PDE_ENTRY (d KERNEL_PDE_ENTRY ||| PDE_ENTRY_4MB_PRESENT)
  let d := forRange PROCESS_BLOCKS_START (NOT_PRESENT_MEMORY_START - PROCESS_BLOCKS_START)
    (fun i d =>
      let d := Function.update d i (addressAssign (BitVec.ofNat 32 (i * LITERAL_4MB)))
      Function.update d i (d i ||| PDE_ENTRY_4MB_PRESENT)) d
  forRange NOT_PRESENT_MEMORY_START (PD_ENTRIES - NOT_PRESENT_MEMORY_START)
    (fun i d =>
      if BitVec.ofNat 32 (i * LITERAL_4MB) = BitVec.ofNat 32 TASK_VIRTUAL_BASE_ADDRESS then
        let d := Function.update d i (addressAssign physProgramAddress)
        Function.update d i (d i ||| (PDE_ENTRY_4MB_PRESENT ||| PDE_USER_ACCESSIBLE))
      else
        let d := Function.update d i (addressAssign (BitVec.ofNat 32 (i * LITERAL_4MB)))
        Function.update d i (d i ||| PDE_ENTRY_NOT_PRESENT)) d

/-- Index that `change_table_mapping` and `setup_user_access_pte` compute. -/
def pteIndex (address : Word) : ℕ := ((address >>> 12) &&& 0x3FF#32).toNat

def changeTableMapping (table : ℕ → Word) (addressOfEntry newValue : Word) : ℕ → Word :=
  let index := pteIndex addressOfEntry
  let entry := table index
  let table := Function.update table index (addressAssign newValue)
  Function.update table index (table index ||| (entry &&& ISOLATE_BTM_12BITS))

def setupUserAccessPte (basePageTable : ℕ → Word) (videomem : Word) : ℕ → Word :=
  let index := pteIndex videomem
  Function.update basePageTable index (basePageTable index ||| GRANT_USER_ACCESS)

def setupUserAccessPde (pageDirectory : ℕ → Word) (videomem : Word) : ℕ → Word :=
  let index := (videomem >>> 22).toNat
  Function.update pageDirectory index (pageDirectory index ||| GRANT_USER_ACCESS)

namespace Paging

variable (P : Paging)

/-- Address of `user_level_base_page_tables[p]`. -/
def baseTableAddr (p : ℕ) : Addr := P.userLevelBasePageTablesAddr + BitVec.ofNat 32 (4096 * p)

def initKernelPages : Paging :=
  let d := Function.update P.kernelPageDirectory 0 (addressAssign P.kernelPageTableAddr)
  let d := Function.update d 0 (d 0 ||| PDE_ENTRY_PRESENT)
  let d := Function.update d KERNEL_PDE_ENTRY (addressAssign KERNEL_BASE_ADDRESS)
  let d := Function.update d KERNEL_PDE_ENTRY (d KERNEL_PDE_ENTRY ||| PDE_ENTRY_4MB_PRESENT)
  let d := forRange PROCESS_BLOCKS_START (NOT_PRESENT_MEMORY_START - PROCESS_BLOCKS_START)
    (fun i d =>
      let d := Function.update d i (addressAssign (BitVec.ofNat 32 (i * LITERAL_4MB)))
      Function.update d i (d i ||| PDE_ENTRY_4MB_PRESENT)) d
  let d := forRange NOT_PRESENT_MEMORY_START (PD_ENTRIES - NOT_PRESENT_MEMORY_START)
    (fun i d =>
      let d := Function.update d i (addressAssign (BitVec.ofNat 32 (i * LITERAL_4MB)))
      Function.update d i (d i ||| PDE_ENTRY_NOT_PRESENT)) d
  { P with kernelPageDirectory := d, kernelPageTable := setupBasePageTable P.kernelPageTable }

/-- `setup_task_paging` on the directory and the base table of `pid`. -/
def setupTaskPaging (pid : ℕ) (physProgramAddress : Word) : Paging :=
  { P with
    userLevelPageDirectories := Function.update P.userLevelPageDirectories pid
      (setupTaskDirectory (P.userLevelPageDirectories pid) (P.baseTableAddr pid) physProgramAddress)
    userLevelBasePageTables := Function.update P.userLevelBasePageTables pid
      (setupBasePageTable (P.userLevelBasePageTables pid)) }

/-- `change_table_mapping` on the base table of `pid`. -/
def changeMapping (pid : ℕ) (addressOfEntry newValue : Word) : Paging :=
  { P with
    userLevelBasePageTables := Function.update P.userLevelBasePageTables pid
      (changeTableMapping (P.userLevelBasePageTables pid) addressOfEntry newValue) }

/-- The two grants of `vidmap` for `pid`. -/
def grantUserAccess (pid : ℤ) (videomem : Word) : Paging :=
  { P with
    userLevelPageDirectories := Function.update P.userLevelPageDirectories pid
      (setupUserAccessPde (P.userLevelPageDirectories pid) videomem)
    userLevelBasePageTables := Function.update P.userLevelBasePageTables pid
      (setupUserAccessPte (P.userLevelBasePageTables pid) videomem) }

/-- The 1024 entries a directory pointer denotes. -/
def directory : DirectoryPtr → ℕ → Word
  | .null => P.elsewhere 0#32
  | .kernel => P.kernelPageDirectory
  | .user pid => P.userLevelPageDirectories pid

def tableAt (a : Addr) : ℕ → Word :=
  if a = P.kernelPageTableAddr then P.kernelPageTable
  else match (List.range MAX_NUM_PROCS).find? fun p => P.baseTableAddr p = a with
    | some p => P.userLevelBasePageTables p
    | none => P.elsewhere a

/-- What the processor makes of virtual address `v` with directory `d` in CR3. -/
def translate (d : DirectoryPtr) (v : Addr) : Option Translation := walk P.tableAt (P.directory d) v

end Paging

end SnoopDos
