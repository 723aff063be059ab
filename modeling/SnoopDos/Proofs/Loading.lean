import SnoopDos.Proofs.Filesystem
import SnoopDos.Proofs.Paging
import SnoopDos.Spec.System

/-! Loading a program. The copy goes through the directory that happens to be
loaded, which maps the process blocks at their own addresses; the new directory
then shows the block at the user window. -/

namespace SnoopDos

open PageWalk

namespace Paging

/-- A directory that `init_kernel_pages` or `setup_task_paging` has set up; the
calls of `vidmap` and the switches of terminals since then do not matter. -/
def Initialised (P : Paging) : DirectoryPtr → Prop
  | .null => False
  | .kernel => ∃ P₀ : Paging, P.kernelPageDirectory = P₀.initKernelPages.kernelPageDirectory
  | .user pid => ∃ p : ℕ, p < MAX_NUM_PROCS ∧ pid = p ∧
      ∃ phys screen granted, P.TaskPaging p phys screen granted

theorem Initialised.kernelMapped {P : Paging} {d : DirectoryPtr} (h : P.Initialised d) :
    KernelMapped (P.directory d) := by
  cases d with
  | null => exact h.elim
  | kernel =>
    obtain ⟨P₀, hP⟩ := h
    rw [Paging.directory, hP]
    exact initKernelPages_kernelMapped P₀
  | user pid =>
    obtain ⟨p, -, rfl, phys, screen, granted, ht⟩ := h
    exact ht.kernelMapped

theorem Initialised.translate_above {P : Paging} {d : DirectoryPtr} (h : P.Initialised d) {v : Addr}
    (hv : 32 < directoryIndex v) : P.translate d v = none := by
  have hlt := directoryIndex_lt v
  have habsent (a : Word) : present (frame a ||| PDE_ENTRY_NOT_PRESENT) = false := by
    rw [present_frame_or]
    decide
  have hentry : present (P.directory d (directoryIndex v)) = false := by
    cases d with
    | null => exact h.elim
    | kernel =>
      obtain ⟨P₀, hP⟩ := h
      rw [Paging.directory, hP]
      simp only [initKernelPages]
      rw [identityLoop_apply, if_pos (by simp only [NOT_PRESENT_MEMORY_START, PD_ENTRIES]; omega)]
      exact habsent _
    | user pid =>
      obtain ⟨p, -, rfl, phys, screen, granted, ht⟩ := h
      rw [Paging.directory, ht.directory _ hlt (by omega), taskEntry, if_neg (by omega),
        if_neg (by omega), if_neg (by omega), if_neg (by omega)]
      exact habsent _
  rw [Paging.translate, walk, hentry]
  rfl

end Paging

/-- Bytes stored through identity-mapped pages lie where they were addressed. -/
theorem storeBytes_apply (k : Kernel) (mem : Addr → UInt8) (v : Addr) (cs : List UInt8)
    (hfit : v.toNat + cs.length ≤ 2 ^ 32)
    (hid : ∀ a : Addr, v.toNat ≤ a.toNat → a.toNat < v.toNat + cs.length →
      ∃ u, k.paging.translate k.cr3 a = some ⟨a, u⟩) (a : Addr) :
    k.storeBytes mem v cs a =
      if v.toNat ≤ a.toNat ∧ a.toNat < v.toNat + cs.length then cs.getD (a.toNat - v.toNat) 0
      else mem a := by
  induction cs generalizing mem v with
  | nil => rw [Kernel.storeBytes, if_neg (by simp)]
  | cons c cs ih =>
    obtain ⟨u, hu⟩ := hid v le_rfl (by simp)
    have hstore : k.storeByte mem v c = Function.update mem v c := by
      simp only [Kernel.storeByte, hu]
    rw [List.length_cons] at hfit hid ⊢
    have hnext : cs = [] ∨ (v + 1#32).toNat = v.toNat + 1 := by
      rcases cs with - | ⟨c', cs⟩
      · exact Or.inl rfl
      · right
        rw [List.length_cons] at hfit
        rw [BitVec.toNat_add, BitVec.toNat_ofNat]
        omega
    rw [Kernel.storeBytes, hstore]
    rcases hnext with rfl | hnext
    · rw [Kernel.storeBytes, Function.update_apply]
      by_cases ha : a = v
      · simp [ha]
      · have hne : a.toNat ≠ v.toNat := fun h => ha (BitVec.eq_of_toNat_eq h)
        rw [if_neg ha, if_neg (by simp; omega)]
    · rw [ih _ (v + 1#32) (by omega) fun b h1 h2 => hid b (by omega) (by omega), hnext]
      by_cases ha : a = v
      · subst ha
        rw [if_neg (by omega), Function.update_self, if_pos (by omega)]
        simp
      · have hne : a.toNat ≠ v.toNat := fun h => ha (BitVec.eq_of_toNat_eq h)
        rw [Function.update_of_ne ha]
        by_cases hin : v.toNat + 1 ≤ a.toNat ∧ a.toNat < v.toNat + 1 + cs.length
        · rw [if_pos hin, if_pos (by omega),
            show a.toNat - v.toNat = a.toNat - (v.toNat + 1) + 1 by omega, List.getD_cons_succ]
        · rw [if_neg hin, if_neg (by omega)]

theorem blockAddressForProcess_toNat {pid : ℕ} (hpid : pid < MAX_NUM_PROCS) :
    (blockAddressForProcess pid).toNat = 0x800000 + 0x400000 * pid := by
  have hrange : (0 : ℤ) ≤ pid ∧ (pid : ℤ) < MAX_NUM_PROCS := ⟨by omega, by exact_mod_cast hpid⟩
  simp only [MAX_NUM_PROCS] at hpid
  rw [blockAddressForProcess, if_pos hrange,
    show (0x800000 + 0x400000 * (pid : ℤ)) = ((0x800000 + 0x400000 * pid : ℕ) : ℤ) by push_cast; ring,
    BitVec.ofInt_natCast, BitVec.toNat_ofNat]
  omega

/-- After the load and `setup_task_paging`, the user window shows the file at
`0x08048000`, and nothing outside the block has changed. The file image is not
part of the memory that processes are loaded into. -/
theorem load_program (fs : Fs) (k : Kernel) (pid : ℕ) (inode : Word) (hpid : pid < MAX_NUM_PROCS)
    (hvalid : fs.ValidFile inode.toNat) (hdir : k.paging.Initialised k.cr3) :
    let k₁ := k.loadProgram fs pid inode
    let P := k₁.paging.setupTaskPaging pid (blockAddressForProcess pid)
    (∀ i (hi : i < (fs.contents inode.toNat).length), i < LITERAL_4MB - TASK_PROGRAM_IMAGE_OFFSET →
      ∃ t, P.translate (.user pid)
          (BitVec.ofNat 32 (TASK_VIRTUAL_BASE_ADDRESS + TASK_PROGRAM_IMAGE_OFFSET + i)) = some t ∧
        k₁.mem t.phys = (fs.contents inode.toNat)[i]) ∧
      ∀ a : Addr, ¬ (0x800000 + 0x400000 * pid ≤ a.toNat ∧ a.toNat < 0x800000 + 0x400000 * (pid + 1)) →
        k₁.mem a = k.mem a := by
  intro k₁ P
  have hblock := blockAddressForProcess_toNat hpid
  set dest := blockAddressForProcess pid + BitVec.ofNat 32 TASK_PROGRAM_IMAGE_OFFSET with hdest
  set bytes := (readData fs inode 0#32
    (BitVec.ofNat 32 (LITERAL_4MB - TASK_PROGRAM_IMAGE_OFFSET))).bytes with hbytes
  have hdest' : dest.toNat = 0x800000 + 0x400000 * pid + 0x48000 := by
    simp only [MAX_NUM_PROCS] at hpid
    rw [hdest, BitVec.toNat_add, hblock, BitVec.toNat_ofNat, TASK_PROGRAM_IMAGE_OFFSET]
    omega
  have hslice : bytes = (fs.contents inode.toNat).take (LITERAL_4MB - TASK_PROGRAM_IMAGE_OFFSET) := by
    rw [hbytes, readData_bytes _ _ hvalid]
    rfl
  have hlen : bytes.length ≤ 0x400000 - 0x48000 := by
    rw [hslice, List.length_take]
    exact Nat.min_le_left _ _
  have hmem : ∀ a, k₁.mem a = if dest.toNat ≤ a.toNat ∧ a.toNat < dest.toNat + bytes.length then
      bytes.getD (a.toNat - dest.toNat) 0 else k.mem a := by
    simp only [MAX_NUM_PROCS] at hpid
    refine storeBytes_apply k k.mem dest bytes (by omega) fun a h1 h2 => ⟨false, ?_⟩
    exact hdir.kernelMapped.translate (by omega) (by omega)
  refine ⟨fun i hi hfit => ?_, fun a ha => ?_⟩
  · simp only [LITERAL_4MB, TASK_PROGRAM_IMAGE_OFFSET, MAX_NUM_PROCS] at hfit hpid
    have hv : (BitVec.ofNat 32
        (TASK_VIRTUAL_BASE_ADDRESS + TASK_PROGRAM_IMAGE_OFFSET + i) : Addr).toNat =
          0x8048000 + i := by
      rw [BitVec.toNat_ofNat, TASK_VIRTUAL_BASE_ADDRESS, TASK_PROGRAM_IMAGE_OFFSET]
      omega
    obtain ⟨t, ht, -, hphys⟩ := (k₁.paging.setupTaskPaging_taskPaging pid
      (blockAddressForProcess pid)).translate_window (by rw [hblock]; omega)
      (by rw [directoryIndex, hv]; omega)
    refine ⟨t, ht, ?_⟩
    rw [hv, hblock] at hphys
    have hoff : t.phys.toNat - dest.toNat = i := by omega
    have hlt : i < bytes.length := by
      rw [hslice, List.length_take]
      simp only [LITERAL_4MB, TASK_PROGRAM_IMAGE_OFFSET]
      omega
    rw [hmem, if_pos (by omega), hoff, List.getD_eq_getElem?_getD, List.getElem?_eq_getElem hlt,
      Option.getD_some]
    simp only [hslice, List.getElem_take]
  · rw [hmem, if_neg (by omega)]

theorem shellFs_validFile : shellFs.ValidFile 0 where
  inode_lt := by decide
  length_le := by decide
  block_lt b hb := by
    have hlength : (shellFs.length 0).toNat = 40 := by decide
    obtain rfl : b = 0 := by
      rw [hlength, FS_BLOCK_LENGTH] at hb
      omega
    decide
  datablocks_le := by decide

theorem load_program_shell : ∃ t,
    ((bootKernel.loadProgram shellFs 0 0#32).paging.setupTaskPaging 0
      (blockAddressForProcess 0)).translate (.user 0) 0x08048000#32 = some t ∧
    (bootKernel.loadProgram shellFs 0 0#32).mem t.phys = 0x7f := by
  have hlength : (shellFs.contents (0#32 : Word).toNat).length = 40 :=
    shellFs_validFile.contents_length
  obtain ⟨t, ht, hmem⟩ := (load_program shellFs bootKernel 0 0#32 (by decide) shellFs_validFile
    ⟨zeroPaging, rfl⟩).1 0 (by rw [hlength]; decide) (by decide)
  refine ⟨t, ht, hmem.trans ?_⟩
  rw [Fs.contents_getElem]
  rfl

end SnoopDos
