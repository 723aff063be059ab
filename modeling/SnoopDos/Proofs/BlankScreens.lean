import SnoopDos.Spec.System
import SnoopDos.Proofs.Rendering

/-! What `initialize_video_memory` clears. It counts 8000 cells on from `video_mem`, four
screens of 2000 cells, but the four pages of the screens are 4096 bytes apart, so that it
comes to its end before the last of them does. -/

namespace SnoopDos

open Loops PageWalk

/-- Cell `i` of the page at `base` is a space with attribute `attrib`. -/
def BlankCell (mem : Addr → UInt8) (attrib : UInt8) (base i : ℕ) : Prop :=
  mem (pageAddr base (2 * i)) = EMPTY_SPACE ∧ mem (pageAddr base (2 * i + 1)) = attrib

def BlankPage (mem : Addr → UInt8) (attrib : UInt8) (base : ℕ) : Prop :=
  ∀ i < 2000, BlankCell mem attrib base i

/-- The visible page, and the backing page of each terminal, are blank. -/
def Kernel.BlankScreens (k : Kernel) : Prop :=
  BlankPage k.mem k.currAttribute VIDEO ∧
    ∀ t < NUM_TERMINALS, BlankPage k.mem k.currAttribute (VIDEO + (t + 1) * LITERAL_4KB)

theorem switch_shows_backing {k : Kernel} {pid toT : ℕ} {phys : Word} {granted : Bool}
    (h : k.paging.TaskPaging pid phys (screenPage k.terminalState k.terminalState) granted)
    (hpid : pid < MAX_NUM_PROCS) (hcr3 : k.cr3 = .user pid)
    (hvisible : k.terminalState < NUM_TERMINALS) (hto : toT < NUM_TERMINALS)
    (hne : toT ≠ k.terminalState) (attrib : UInt8) :
    BlankPage (k.changeTerminalState k.terminalState toT).mem attrib VIDEO ↔
      BlankPage k.mem attrib (VIDEO + (toT + 1) * LITERAL_4KB) := by
  have hsame := changeTerminalState_consoles h hpid hcr3 hvisible hto hne hto
  have hbyte : ∀ i : ℤ, 0 ≤ i → i < 4096 →
      (k.changeTerminalState k.terminalState toT).mem (pageAddr VIDEO i) =
        k.mem (pageAddr (VIDEO + (toT + 1) * LITERAL_4KB) i) := by
    intro i h0 h1
    have hmem := hsame.mem i h0 h1
    have hvis : toT = (k.changeTerminalState k.terminalState toT).terminalState := rfl
    unfold Kernel.logicalConsole screenAddress at hmem
    rwa [if_pos hvis, if_neg hne] at hmem
  unfold BlankPage BlankCell
  refine forall_congr' fun i => imp_congr_right fun hi => ?_
  rw [hbyte _ (by omega) (by omega), hbyte _ (by omega) (by omega)]

def videoView (mem : Addr → UInt8) (i : ℤ) : UInt8 := mem (pageAddr VIDEO i)

theorem videoAddr_toNat {i : ℤ} (h0 : 0 ≤ i) (h1 : i < 16384) :
    (pageAddr VIDEO i).toNat = VIDEO + i.toNat := by
  obtain ⟨n, rfl⟩ := Int.eq_ofNat_of_zero_le h0
  rw [pageAddr_natCast, BitVec.toNat_ofNat, Int.toNat_natCast, VIDEO]
  omega

theorem videoView_page (mem : Addr → UInt8) (n : ℕ) (i : ℤ) :
    mem (pageAddr (VIDEO + n) i) = videoView mem (n + i) := by
  unfold videoView pageAddr
  congr 2
  push_cast
  ring

theorem videoBus_storesTo {k : Kernel} {P : Paging} (hcr3 : k.cr3 = .kernel)
    (hpaging : k.paging = P.initKernelPages) : k.videoBus.StoresTo videoView 16384 := by
  intro mem i c j hi0 hi1 hj0 hj1
  have hi := videoAddr_toNat hi0 hi1
  have hj := videoAddr_toNat hj0 hj1
  have hmapped := P.initKernelPages_translate (v := pageAddr VIDEO i) (by omega)
    (by rw [LITERAL_4KB]; omega)
  obtain ⟨u, hu⟩ := hmapped
  have hstore : k.videoBus.store mem i c = Function.update mem (pageAddr VIDEO i) c := by
    change k.storeByte mem (pageAddr VIDEO i) c = _
    rw [Kernel.storeByte, hcr3, hpaging, hu]
  rw [hstore, videoView, Function.update_apply]
  refine if_congr ⟨fun heq => ?_, fun heq => by rw [heq]⟩ rfl rfl
  rw [heq, hi] at hj
  omega

theorem initializeVideoMemory_eq (k : Kernel) :
    k.initializeVideoMemory.mem = clearVideoAndBackingStores k.videoBus k.currAttribute k.mem ∧
      k.initializeVideoMemory.currAttribute = k.currAttribute := by
  constructor <;> rw [Kernel.initializeVideoMemory, Kernel.setScreenXY]

section Cleared

variable {k : Kernel} {P : Paging} (hcr3 : k.cr3 = .kernel) (hpaging : k.paging = P.initKernelPages)
include hcr3 hpaging

theorem initializeVideoMemory_view {j : ℤ} (h0 : 0 ≤ j) (h1 : j < 16384) :
    videoView k.initializeVideoMemory.mem j =
      if j < 16000 then if j % 2 = 0 then EMPTY_SPACE else k.currAttribute
      else videoView k.mem j := by
  have hfill := fillCells_view (videoBus_storesTo hcr3 hpaging) k.currAttribute EMPTY_SPACE 0
    (2000 * (NUM_TERMINALS + 1)) (by rw [NUM_TERMINALS]; norm_num) k.mem h0 h1
  simp only [Nat.cast_zero, add_zero, zero_add] at hfill
  rw [(initializeVideoMemory_eq k).1, clearVideoAndBackingStores, hfill]
  refine if_congr ?_ rfl rfl
  rw [NUM_TERMINALS]
  push_cast
  omega

theorem initializeVideoMemory_cell {p i : ℕ} (hp : p < 4) (hi : i < 2000) :
    BlankCell k.initializeVideoMemory.mem k.currAttribute (VIDEO + p * LITERAL_4KB) i ↔
      (p = 3 → 1856 ≤ i → BlankCell k.mem k.currAttribute (VIDEO + p * LITERAL_4KB) i) := by
  unfold BlankCell
  simp only [videoView_page]
  rw [initializeVideoMemory_view hcr3 hpaging (by omega) (by rw [LITERAL_4KB]; push_cast; omega),
    initializeVideoMemory_view hcr3 hpaging (by omega) (by rw [LITERAL_4KB]; push_cast; omega)]
  rw [LITERAL_4KB]
  push_cast
  by_cases hlast : p = 3 ∧ 1856 ≤ i
  · rw [if_neg (by omega), if_neg (by omega)]
    exact ⟨fun h _ _ => h, fun h => h hlast.1 hlast.2⟩
  · rw [if_pos (by omega), if_pos (by omega), if_pos (by omega), if_neg (by omega)]
    exact ⟨fun _ h3 hge => absurd ⟨h3, hge⟩ hlast, fun _ => ⟨rfl, rfl⟩⟩

end Cleared

/-- All screens start blank exactly when the cells that the clearing does not come to,
the last 144 of the third terminal, were blank before. -/
theorem screens_start_blank (k : Kernel) (P : Paging) (hcr3 : k.cr3 = .kernel)
    (hpaging : k.paging = P.initKernelPages) :
    k.initializeVideoMemory.BlankScreens ↔
      ∀ i, 1856 ≤ i → i < 2000 →
        BlankCell k.mem k.currAttribute (VIDEO + 3 * LITERAL_4KB) i := by
  have hcell := fun p i (hp : p < 4) (hi : i < 2000) =>
    initializeVideoMemory_cell hcr3 hpaging hp hi
  rw [Kernel.BlankScreens, (initializeVideoMemory_eq k).2]
  constructor
  · intro h i hlo hi
    exact (hcell 3 i (by norm_num) hi).mp (h.2 2 (by decide) i hi) rfl hlo
  · intro h
    refine ⟨fun i hi => ?_, fun t ht i hi => ?_⟩
    · have hvisible := (hcell 0 i (by norm_num) hi).mpr fun h3 => absurd h3 (by norm_num)
      rwa [Nat.zero_mul, Nat.add_zero] at hvisible
    · rw [NUM_TERMINALS] at ht
      refine (hcell (t + 1) i (by omega) hi).mpr fun h3 hge => ?_
      rw [h3]
      exact h i hge hi

/-- The memory of the machine was blank already. -/
theorem screens_start_blank_twice :
    let k : Kernel := { bootKernel with mem := fun a => if a.toNat % 2 = 0 then EMPTY_SPACE else 7 }
    k.initializeVideoMemory.BlankScreens := by
  intro k
  refine (screens_start_blank k zeroPaging rfl rfl).mpr fun i hlo hi => ?_
  have hcell : ∀ j : ℕ, j < 4096 → (pageAddr (VIDEO + 3 * LITERAL_4KB) j).toNat % 2 = j % 2 := by
    intro j hj
    rw [pageAddr_toNat (by decide) (by omega) (by omega), Int.toNat_natCast, VIDEO, LITERAL_4KB]
    omega
  have heven := hcell (2 * i) (by omega)
  have hodd := hcell (2 * i + 1) (by omega)
  push_cast at heven hodd
  refine ⟨if_pos (by omega), if_neg (by omega)⟩

/-- On memory that was zero, the last cell of the third terminal stays zero. -/
theorem screens_start_blank_zero : ¬ bootKernel.initializeVideoMemory.BlankScreens := by
  have hlast := (initializeVideoMemory_cell (k := bootKernel) (P := zeroPaging) rfl rfl (p := 3)
    (i := 1999) (by norm_num) (by norm_num)).not
  intro h
  rw [Kernel.BlankScreens, (initializeVideoMemory_eq bootKernel).2] at h
  refine hlast.mpr (fun hcell => ?_) (h.2 2 (by decide) 1999 (by norm_num))
  exact absurd (hcell rfl (by norm_num)).1 (by decide)

end SnoopDos
