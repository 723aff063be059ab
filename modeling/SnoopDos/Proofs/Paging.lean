import SnoopDos.Spec.Paging

/-! What `paging.c` leaves in the tables. `TaskPaging` describes the tables of one
process entry by entry; it is what `setup_task_paging` establishes and what
`vidmap` and the switch of terminals adjust. -/

namespace SnoopDos

open Loops PageWalk

theorem update_or (t : ℕ → Word) (i : ℕ) (a f : Word) :
    Function.update (Function.update t i a) i (Function.update t i a i ||| f) =
      Function.update t i (a ||| f) := by
  rw [Function.update_idem, Function.update_self]

/-- The screen and the three backing pages. -/
def isScreenPage (i : ℕ) : Prop := 0xB8 ≤ i ∧ i ≤ 0xBB

instance (i : ℕ) : Decidable (isScreenPage i) := inferInstanceAs (Decidable (_ ∧ _))

/-- Entry `i` of a base table after `setup_base_page_table`. -/
def baseEntry (i : ℕ) : Word :=
  frame (BitVec.ofNat 32 (i * LITERAL_4KB)) |||
    if isScreenPage i then PTE_ENTRY_PRESENT else PTE_ENTRY_NOT_PRESENT

theorem setupBasePageTable_apply (t : ℕ → Word) (i : ℕ) (hi : i < 1024) :
    setupBasePageTable t i = baseEntry i := by
  rw [setupBasePageTable, forRange_fill (g := baseEntry)]
  · exact if_pos ⟨Nat.zero_le _, by simpa [PT_ENTRIES] using hi⟩
  · intro j t _ hj
    have hscreen : (BitVec.ofNat 32 (j * LITERAL_4KB) = BitVec.ofNat 32 VIDEO ∨
        BitVec.ofNat 32 (j * LITERAL_4KB) = BitVec.ofNat 32 (VIDEO + LITERAL_4KB) ∨
        BitVec.ofNat 32 (j * LITERAL_4KB) = BitVec.ofNat 32 (VIDEO + LITERAL_8KB) ∨
        BitVec.ofNat 32 (j * LITERAL_4KB) = BitVec.ofNat 32 (VIDEO + 3 * LITERAL_4KB)) ↔
        isScreenPage j := by
      simp only [BitVec.toNat_eq, BitVec.toNat_ofNat, isScreenPage, LITERAL_4KB, LITERAL_8KB, VIDEO,
        PT_ENTRIES] at *
      omega
    simp only [hscreen, update_or]
    split_ifs with h <;> simp only [baseEntry, h, if_true, if_false] <;> rfl

/-- A loop that maps 4MB pages to their own addresses, with the same flags. -/
theorem identityLoop_apply (lo n : ℕ) (f : Word) (d : ℕ → Word) (i : ℕ) :
    forRange lo n (fun i d =>
        let d := Function.update d i (addressAssign (BitVec.ofNat 32 (i * LITERAL_4MB)))
        Function.update d i (d i ||| f)) d i =
      if lo ≤ i ∧ i < lo + n then frame (BitVec.ofNat 32 (i * LITERAL_4MB)) ||| f else d i :=
  forRange_fill (g := fun i => frame (BitVec.ofNat 32 (i * LITERAL_4MB)) ||| f)
    (fun i d _ _ => update_or d i _ f) d i

/-- Entry `i` of a process's directory after `setup_task_paging`. -/
def taskEntry (basePageTable : Addr) (physProgramAddress : Word) (i : ℕ) : Word :=
  if i = 0 then frame basePageTable ||| PDE_ENTRY_PRESENT
  else if i = 1 then frame KERNEL_BASE_ADDRESS ||| PDE_ENTRY_4MB_PRESENT
  else if i < 8 then frame (BitVec.ofNat 32 (i * LITERAL_4MB)) ||| PDE_ENTRY_4MB_PRESENT
  else if i = 32 then frame physProgramAddress ||| (PDE_ENTRY_4MB_PRESENT ||| PDE_USER_ACCESSIBLE)
  else frame (BitVec.ofNat 32 (i * LITERAL_4MB)) ||| PDE_ENTRY_NOT_PRESENT

theorem setupTaskDirectory_apply (d : ℕ → Word) (pt : Addr) (phys : Word) (i : ℕ) (hi : i < 1024) :
    setupTaskDirectory d pt phys i = taskEntry pt phys i := by
  rw [setupTaskDirectory, forRange_fill (g := taskEntry pt phys)]
  · by_cases h8 : 8 ≤ i
    · rw [if_pos ⟨h8, by simp only [NOT_PRESENT_MEMORY_START, PD_ENTRIES]; omega⟩]
    · rw [if_neg (by simp only [NOT_PRESENT_MEMORY_START]; omega),
        identityLoop_apply]
      by_cases h2 : 2 ≤ i
      · rw [if_pos ⟨h2, by simp only [NOT_PRESENT_MEMORY_START, PROCESS_BLOCKS_START]; omega⟩,
          taskEntry, if_neg (by omega), if_neg (by omega), if_pos (by omega)]
      · rw [if_neg (by simp only [PROCESS_BLOCKS_START]; omega)]
        simp only [update_or]
        obtain rfl | rfl : i = 0 ∨ i = 1 := by omega
        · simp [taskEntry, KERNEL_PDE_ENTRY, addressAssign, frame]
        · simp [taskEntry, KERNEL_PDE_ENTRY, addressAssign, frame]
  · intro j d h8 hj
    simp only [PD_ENTRIES, NOT_PRESENT_MEMORY_START] at h8 hj
    have hwindow : BitVec.ofNat 32 (j * LITERAL_4MB) = BitVec.ofNat 32 TASK_VIRTUAL_BASE_ADDRESS ↔
        j = 32 := by
      simp only [BitVec.toNat_eq, BitVec.toNat_ofNat, LITERAL_4MB, TASK_VIRTUAL_BASE_ADDRESS]
      omega
    simp only [hwindow, update_or, taskEntry, show j ≠ 0 by omega, show j ≠ 1 by omega,
      show ¬ j < 8 by omega, if_false]
    split_ifs <;> rfl

theorem user_baseEntry (i : ℕ) : user (baseEntry i) = false := by
  rw [baseEntry, user_frame_or]
  split_ifs <;> decide

theorem user_taskEntry (pt : Addr) (phys : Word) {i : ℕ} (hi : i ≠ 32) :
    user (taskEntry pt phys i) = false := by
  rw [taskEntry]
  split_ifs <;> rw [user_frame_or] <;> decide

/-- The attribute bits of the entries that `vidmap` grants. -/
def grantFlags (granted : Bool) : Word := if granted then 0x7#32 else 0x3#32

theorem isFlags_grantFlags (granted : Bool) : IsFlags (grantFlags granted) := by
  cases granted <;> decide

theorem present_grantFlags (granted : Bool) : present (grantFlags granted) = true := by
  cases granted <;> decide

theorem large_grantFlags (granted : Bool) : large (grantFlags granted) = false := by
  cases granted <;> decide

theorem user_grantFlags (granted : Bool) : user (grantFlags granted) = granted := by
  cases granted <;> decide

theorem grantFlags_or (granted : Bool) : grantFlags granted ||| GRANT_USER_ACCESS = grantFlags true := by
  cases granted <;> decide

/-- The page table entry that the screen goes through. -/
def VIDEO_PTE : ℕ := 0xB8

theorem pteIndex_video : pteIndex (BitVec.ofNat 32 VIDEO) = VIDEO_PTE := by decide

namespace Paging

variable (P : Paging)

theorem baseTableAddr_toNat_mod (p : ℕ) : (P.baseTableAddr p).toNat % 2 ^ 12 = 0 := by
  have := P.userAligned
  simp only [baseTableAddr, BitVec.toNat_add, BitVec.toNat_ofNat]
  omega

theorem baseTableAddr_inj {p q : ℕ} (hp : p < MAX_NUM_PROCS) (hq : q < MAX_NUM_PROCS)
    (h : P.baseTableAddr p = P.baseTableAddr q) : p = q := by
  have h' := congrArg BitVec.toNat h
  simp only [baseTableAddr, BitVec.toNat_add, BitVec.toNat_ofNat, MAX_NUM_PROCS] at *
  omega

theorem tableAt_baseTableAddr {p : ℕ} (hp : p < MAX_NUM_PROCS) :
    P.tableAt (frame (P.baseTableAddr p)) = P.userLevelBasePageTables p := by
  have hfind : (List.range MAX_NUM_PROCS).find? (fun q => P.baseTableAddr q = P.baseTableAddr p) =
      some p := by
    rw [List.find?_range_eq_some]
    refine ⟨by simp, List.mem_range.mpr hp, fun q hq => ?_⟩
    have hne : P.baseTableAddr q ≠ P.baseTableAddr p := fun h =>
      hq.ne (P.baseTableAddr_inj (hq.trans hp) hp h)
    simp [hne]
  rw [frame_eq_self (P.baseTableAddr_toNat_mod p), tableAt,
    if_neg (show P.baseTableAddr p ≠ _ from P.apart p hp), hfind]

/-- The tables of process `pid`, whose block is at `phys`: its screen page maps
`screen`, for user code too when `granted`. -/
structure TaskPaging (pid : ℕ) (phys screen : Word) (granted : Bool) : Prop where
  base : P.userLevelPageDirectories pid 0 = frame (P.baseTableAddr pid) ||| grantFlags granted
  directory : ∀ i < 1024, i ≠ 0 →
    P.userLevelPageDirectories pid i = taskEntry (P.baseTableAddr pid) phys i
  video : P.userLevelBasePageTables pid VIDEO_PTE = frame screen ||| grantFlags granted
  table : ∀ i < 1024, i ≠ VIDEO_PTE → P.userLevelBasePageTables pid i = baseEntry i

variable {P} {pid : ℕ} {phys screen : Word} {granted : Bool}

theorem setupTaskPaging_taskPaging (P : Paging) (pid : ℕ) (phys : Word) :
    (P.setupTaskPaging pid phys).TaskPaging pid phys (BitVec.ofNat 32 VIDEO) false := by
  refine ⟨?_, fun i hi _ => ?_, ?_, fun i hi _ => ?_⟩
  · simp only [setupTaskPaging, Function.update_self]
    exact setupTaskDirectory_apply _ _ _ 0 (by norm_num)
  · simp only [setupTaskPaging, Function.update_self]
    exact setupTaskDirectory_apply _ _ _ i hi
  · simp only [setupTaskPaging, Function.update_self]
    rw [setupBasePageTable_apply _ _ (by decide)]
    decide
  · simp only [setupTaskPaging, Function.update_self]
    exact setupBasePageTable_apply _ i hi

theorem TaskPaging.grantUserAccess (h : P.TaskPaging pid phys screen granted) :
    (P.grantUserAccess pid (BitVec.ofNat 32 VIDEO)).TaskPaging pid phys screen true := by
  have hpde : (BitVec.ofNat 32 VIDEO >>> 22).toNat = 0 := by decide
  refine ⟨?_, fun i hi h0 => ?_, ?_, fun i hi hv => ?_⟩
  · simp only [Paging.grantUserAccess, setupUserAccessPde, Function.update_self, hpde, h.base,
      BitVec.or_assoc, grantFlags_or]
    rfl
  · simp only [Paging.grantUserAccess, setupUserAccessPde, Function.update_self, hpde]
    rw [Function.update_of_ne h0]
    exact h.directory i hi h0
  · simp only [Paging.grantUserAccess, setupUserAccessPte, Function.update_self, pteIndex_video,
      h.video, BitVec.or_assoc, grantFlags_or]
  · simp only [Paging.grantUserAccess, setupUserAccessPte, Function.update_self, pteIndex_video]
    rw [Function.update_of_ne hv]
    exact h.table i hi hv

/-- `change_table_mapping` of the screen keeps the attribute bits. -/
theorem TaskPaging.changeMapping (h : P.TaskPaging pid phys screen granted) (screen' : Word) :
    (P.changeMapping pid (BitVec.ofNat 32 VIDEO) screen').TaskPaging pid phys screen' granted := by
  have hkeep : (frame screen ||| grantFlags granted) &&& ISOLATE_BTM_12BITS = grantFlags granted := by
    have hlow : frame screen &&& ISOLATE_BTM_12BITS = 0#32 := by
      rw [frame, BitVec.and_assoc]
      exact BitVec.and_zero
    rw [or_and_mask, hlow, BitVec.zero_or]
    cases granted <;> decide
  refine ⟨h.base, h.directory, ?_, fun i hi hv => ?_⟩
  · simp only [Paging.changeMapping, changeTableMapping, pteIndex_video, Function.update_self,
      h.video, hkeep]
    rfl
  · simp only [Paging.changeMapping, changeTableMapping, pteIndex_video, Function.update_self,
      Function.update_idem]
    rw [Function.update_of_ne hv]
    exact h.table i hi hv

theorem TaskPaging.congr {P' : Paging} (h : P.TaskPaging pid phys screen granted)
    (hd : P'.userLevelPageDirectories pid = P.userLevelPageDirectories pid)
    (ht : P'.userLevelBasePageTables pid = P.userLevelBasePageTables pid)
    (ha : P'.userLevelBasePageTablesAddr = P.userLevelBasePageTablesAddr) :
    P'.TaskPaging pid phys screen granted := by
  have hbase : P'.baseTableAddr pid = P.baseTableAddr pid := by rw [baseTableAddr, ha, baseTableAddr]
  exact ⟨by rw [hd, hbase, h.base], by rw [hd, hbase]; exact h.directory, by rw [ht, h.video],
    by rw [ht]; exact h.table⟩

theorem TaskPaging.setupTaskPaging_of_ne (h : P.TaskPaging pid phys screen granted) {pid' : ℕ}
    (hne : pid ≠ pid') (phys' : Word) :
    (P.setupTaskPaging pid' phys').TaskPaging pid phys screen granted := by
  have hne' : (pid : ℤ) ≠ pid' := by exact_mod_cast hne
  exact h.congr (Function.update_of_ne hne' _ _) (Function.update_of_ne hne' _ _) rfl

theorem TaskPaging.grantUserAccess_of_ne (h : P.TaskPaging pid phys screen granted) {pid' : ℤ}
    (hne : (pid : ℤ) ≠ pid') (v : Word) :
    (P.grantUserAccess pid' v).TaskPaging pid phys screen granted :=
  h.congr (Function.update_of_ne hne _ _) (Function.update_of_ne hne _ _) rfl

theorem TaskPaging.changeMapping_of_ne (h : P.TaskPaging pid phys screen granted) {pid' : ℕ}
    (hne : pid ≠ pid') (a v : Word) : (P.changeMapping pid' a v).TaskPaging pid phys screen granted := by
  have hne' : (pid : ℤ) ≠ pid' := by exact_mod_cast hne
  exact h.congr rfl (Function.update_of_ne hne' _ _) rfl

/-- The entries that the kernel itself relies on: its own page and the process
blocks, all at their physical addresses and for supervisor only. -/
structure KernelMapped (d : ℕ → Word) : Prop where
  kernel : d 1 = frame KERNEL_BASE_ADDRESS ||| PDE_ENTRY_4MB_PRESENT
  blocks : ∀ i, 2 ≤ i → i < 8 →
    d i = frame (BitVec.ofNat 32 (i * LITERAL_4MB)) ||| PDE_ENTRY_4MB_PRESENT

theorem kernelMapped_of_taskEntry {d : ℕ → Word} {pt : Addr}
    (h : ∀ i < 8, i ≠ 0 → d i = taskEntry pt phys i) : KernelMapped d := by
  refine ⟨h 1 (by norm_num) (by norm_num), fun i h2 h8 => ?_⟩
  rw [h i h8 (by omega), taskEntry, if_neg (by omega), if_neg (by omega), if_pos h8]

theorem TaskPaging.kernelMapped (h : P.TaskPaging pid phys screen granted) :
    KernelMapped (P.userLevelPageDirectories pid) :=
  kernelMapped_of_taskEntry fun i hi h0 => h.directory i (by omega) h0

theorem initKernelPages_kernelMapped (P : Paging) :
    KernelMapped P.initKernelPages.kernelPageDirectory := by
  constructor
  · simp only [initKernelPages]
    rw [identityLoop_apply, if_neg (by decide), identityLoop_apply, if_neg (by decide), update_or,
      KERNEL_PDE_ENTRY, Function.update_self]
    rfl
  · intro i h2 h8
    simp only [initKernelPages]
    rw [identityLoop_apply, if_neg (by simp only [NOT_PRESENT_MEMORY_START]; omega),
      identityLoop_apply, if_pos]
    simp only [PROCESS_BLOCKS_START, NOT_PRESENT_MEMORY_START]
    omega

/-- Every initialised directory maps 4MB to 32MB at their own addresses. -/
theorem KernelMapped.translate {d : DirectoryPtr} (h : KernelMapped (P.directory d)) {v : Addr}
    (hlo : 0x400000 ≤ v.toNat) (hhi : v.toNat < 0x2000000) : P.translate d v = some ⟨v, false⟩ := by
  have hidx : 1 ≤ directoryIndex v ∧ directoryIndex v < 8 := by
    simp only [directoryIndex]
    omega
  have hpde : P.directory d (directoryIndex v) =
      frame (BitVec.ofNat 32 (directoryIndex v * LITERAL_4MB)) ||| PDE_ENTRY_4MB_PRESENT := by
    by_cases h1 : directoryIndex v = 1
    · rw [h1]
      exact h.kernel
    · exact h.blocks _ (by omega) hidx.2
  have hbase : (BitVec.ofNat 32 (directoryIndex v * LITERAL_4MB)).toNat =
      directoryIndex v * LITERAL_4MB := by
    rw [BitVec.toNat_ofNat, Nat.mod_eq_of_lt]
    simp only [LITERAL_4MB]
    omega
  obtain ⟨phys, hwalk, hphys⟩ := walk_large P.tableAt hpde (by decide) (by decide)
    (by decide) (by rw [hbase]; simp only [LITERAL_4MB]; omega)
  have hv : phys = v := by
    refine BitVec.eq_of_toNat_eq ?_
    rw [hphys, hbase]
    simp only [directoryIndex, LITERAL_4MB]
    omega
  rw [Paging.translate, hwalk, hv]
  rfl

/-- The kernel's own directory maps the screen and the backing pages at their own
addresses. -/
theorem initKernelPages_translate (P : Paging) {v : Addr} (hlo : VIDEO ≤ v.toNat)
    (hhi : v.toNat < VIDEO + 4 * LITERAL_4KB) :
    ∃ u, P.initKernelPages.translate .kernel v = some ⟨v, u⟩ := by
  simp only [VIDEO, LITERAL_4KB] at hlo hhi
  have hpde : P.initKernelPages.directory .kernel (directoryIndex v) =
      frame P.kernelPageTableAddr ||| PDE_ENTRY_PRESENT := by
    rw [show directoryIndex v = 0 by simp only [directoryIndex]; omega]
    simp only [directory, initKernelPages]
    rw [identityLoop_apply, if_neg (by decide), identityLoop_apply, if_neg (by decide), update_or,
      Function.update_of_ne (by decide), update_or, Function.update_self]
    rfl
  have hscreen : isScreenPage (tableIndex v) := by
    simp only [isScreenPage, tableIndex]
    omega
  have hpte : P.initKernelPages.tableAt (frame P.kernelPageTableAddr) (tableIndex v) =
      frame (BitVec.ofNat 32 (tableIndex v * LITERAL_4KB)) ||| PTE_ENTRY_PRESENT := by
    have haddr : P.kernelPageTableAddr = P.initKernelPages.kernelPageTableAddr := by
      simp only [initKernelPages]
    rw [frame_eq_self P.kernelAligned, tableAt, if_pos haddr]
    simp only [initKernelPages]
    rw [setupBasePageTable_apply _ _ (tableIndex_lt v), baseEntry, if_pos hscreen]
  obtain ⟨phys, hwalk, hphys⟩ := walk_small hpde hpte (by decide) (by decide) (by decide)
    (by decide) (by decide)
  have hv : phys = v := by
    refine BitVec.eq_of_toNat_eq ?_
    rw [hphys, toNat_frame, BitVec.toNat_ofNat]
    simp only [tableIndex, LITERAL_4KB]
    omega
  exact ⟨_, by rw [Paging.translate, hwalk, hv]⟩

section Translate

variable (h : P.TaskPaging pid phys screen granted) (hp : pid < MAX_NUM_PROCS) {v : Addr}
include h

theorem TaskPaging.translate_window (hphys : phys.toNat % 2 ^ 22 = 0) (hv : directoryIndex v = 32) :
    ∃ t, P.translate (.user pid) v = some t ∧ t.user = true ∧
      t.phys.toNat = phys.toNat + v.toNat % 2 ^ 22 := by
  have hpde : P.directory (.user pid) (directoryIndex v) =
      frame phys ||| (PDE_ENTRY_4MB_PRESENT ||| PDE_USER_ACCESSIBLE) := by
    rw [hv]
    exact h.directory 32 (by norm_num) (by norm_num)
  obtain ⟨a, hwalk, ha⟩ := walk_large P.tableAt hpde (by decide) (by decide)
    (by decide) hphys
  exact ⟨_, hwalk, show user (PDE_ENTRY_4MB_PRESENT ||| PDE_USER_ACCESSIBLE) = true by decide, ha⟩

include hp

/-- An address in the first 4MB goes through the base table of the process. -/
theorem TaskPaging.translate_base (hv : directoryIndex v = 0) {b f : Word}
    (hpte : P.userLevelBasePageTables pid (tableIndex v) = frame b ||| f) (hf : IsFlags f)
    (hpresent : present f = true) :
    ∃ t, P.translate (.user pid) v = some t ∧ t.user = (granted && user f) ∧
      t.phys.toNat = (frame b).toNat + v.toNat % 2 ^ 12 := by
  have hpde : P.directory (.user pid) (directoryIndex v) =
      frame (P.baseTableAddr pid) ||| grantFlags granted := by
    rw [hv]
    exact h.base
  have htable : P.tableAt (frame (P.baseTableAddr pid)) (tableIndex v) = frame b ||| f := by
    rw [P.tableAt_baseTableAddr hp, hpte]
  obtain ⟨a, hwalk, ha⟩ := walk_small hpde htable (isFlags_grantFlags granted) hf
    (present_grantFlags granted) (large_grantFlags granted) hpresent
  exact ⟨_, hwalk, by rw [user_grantFlags], ha⟩

theorem TaskPaging.translate_video (hlo : VIDEO ≤ v.toNat) (hhi : v.toNat < VIDEO + LITERAL_4KB) :
    ∃ t, P.translate (.user pid) v = some t ∧ t.user = granted ∧
      t.phys.toNat = (frame screen).toNat + v.toNat % 2 ^ 12 := by
  simp only [VIDEO, LITERAL_4KB] at hlo hhi
  have hpte : tableIndex v = VIDEO_PTE := by
    simp only [tableIndex, VIDEO_PTE]
    omega
  obtain ⟨t, ht, hu, ha⟩ := h.translate_base hp (v := v) (by simp only [directoryIndex]; omega)
    (by rw [hpte]; exact h.video) (isFlags_grantFlags granted) (present_grantFlags granted)
  exact ⟨t, ht, by rw [hu, user_grantFlags, Bool.and_self], ha⟩

/-- The backing pages are mapped at their own addresses, for supervisor only. -/
theorem TaskPaging.translate_backing (hlo : VIDEO + LITERAL_4KB ≤ v.toNat)
    (hhi : v.toNat < VIDEO + 4 * LITERAL_4KB) :
    ∃ t, P.translate (.user pid) v = some t ∧ t.phys = v := by
  simp only [VIDEO, LITERAL_4KB] at hlo hhi
  have hscreen : isScreenPage (tableIndex v) := by
    simp only [isScreenPage, tableIndex]
    omega
  obtain ⟨t, ht, -, ha⟩ := h.translate_base hp (v := v)
    (b := BitVec.ofNat 32 (tableIndex v * LITERAL_4KB)) (f := PTE_ENTRY_PRESENT)
    (by simp only [directoryIndex]; omega)
    (by
      rw [h.table _ (tableIndex_lt v) (by simp only [tableIndex, VIDEO_PTE]; omega), baseEntry,
        if_pos hscreen]) (by decide) (by decide)
  refine ⟨t, ht, BitVec.eq_of_toNat_eq ?_⟩
  rw [ha, toNat_frame, BitVec.toNat_ofNat]
  simp only [tableIndex, LITERAL_4KB]
  omega

/-- What user code can reach: its block, and the screen once it was granted. -/
theorem TaskPaging.translate_user (hphys : phys.toNat % 2 ^ 22 = 0) {t : Translation}
    (ht : P.translate (.user pid) v = some t) (hu : t.user = true) :
    (directoryIndex v = 32 ∧ t.phys.toNat = phys.toNat + v.toNat % 2 ^ 22) ∨
      (granted = true ∧ VIDEO ≤ v.toNat ∧ v.toNat < VIDEO + LITERAL_4KB ∧
        t.phys.toNat = (frame screen).toNat + v.toNat % 2 ^ 12) := by
  obtain ⟨hpde, hpte⟩ := user_of_walk ht hu
  by_cases h0 : directoryIndex v = 0
  · have hbase : P.directory (.user pid) (directoryIndex v) =
        frame (P.baseTableAddr pid) ||| grantFlags granted := by
      rw [h0]
      exact h.base
    have hpte := hpte (by rw [hbase, large_frame_or, large_grantFlags])
    rw [hbase, frame_frame_or _ (isFlags_grantFlags granted), P.tableAt_baseTableAddr hp] at hpte
    have hvideo : tableIndex v = VIDEO_PTE := by
      by_contra hne
      rw [h.table _ (tableIndex_lt v) hne, user_baseEntry] at hpte
      simp at hpte
    have hpage : VIDEO ≤ v.toNat ∧ v.toNat < VIDEO + LITERAL_4KB := by
      simp only [directoryIndex, tableIndex, VIDEO_PTE, VIDEO, LITERAL_4KB] at *
      omega
    obtain ⟨t', ht', hu', ha'⟩ := h.translate_video hp hpage.1 hpage.2
    obtain rfl : t = t' := Option.some.inj (ht.symm.trans ht')
    exact Or.inr ⟨hu'.symm.trans hu, hpage.1, hpage.2, ha'⟩
  · have hentry : P.directory (.user pid) (directoryIndex v) =
        taskEntry (P.baseTableAddr pid) phys (directoryIndex v) :=
      h.directory _ (directoryIndex_lt v) h0
    have h32 : directoryIndex v = 32 := by
      by_contra hne
      rw [hentry, user_taskEntry _ _ hne] at hpde
      simp at hpde
    obtain ⟨t', ht', -, ha'⟩ := h.translate_window hphys h32
    obtain rfl : t = t' := Option.some.inj (ht.symm.trans ht')
    exact Or.inl ⟨h32, ha'⟩

end Translate

end Paging

end SnoopDos
