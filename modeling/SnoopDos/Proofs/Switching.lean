import SnoopDos.Proofs.Pids
import SnoopDos.Proofs.Paging
import SnoopDos.Spec.Terminal

/-! `change_terminal_state` and the tables: which processes it remaps, and that it
touches nothing of the kernel state besides the screens. -/

namespace SnoopDos

open Loops PageWalk

/-- The page that terminal `t` is shown on when terminal `visible` has the screen. -/
def screenPage (visible t : ℕ) : Word :=
  BitVec.ofNat 32 (if t = visible then VIDEO else VIDEO + (t + 1) * LITERAL_4KB)

/-- Physical address of the screen of terminal `t`. -/
def screenAddress (visible t : ℕ) : ℕ := if t = visible then VIDEO else VIDEO + (t + 1) * LITERAL_4KB

theorem frame_screenPage (visible : ℕ) {t : ℕ} (ht : t < NUM_TERMINALS) :
    (frame (screenPage visible t)).toNat = screenAddress visible t := by
  rw [toNat_frame, screenPage, screenAddress, BitVec.toNat_ofNat]
  simp only [NUM_TERMINALS, VIDEO, LITERAL_4KB] at *
  split_ifs <;> omega

namespace Kernel

variable (k : Kernel) (fromT toT : ℕ)

/-- The screen of process `p` after the loop of `change_terminal_state`. -/
def remappedScreen (p : ℕ) (screen : Word) : Word :=
  if k.isPidUsed p then
    if (k.pcbs (pcbAddr p)).ownedByTerminal = toT then BitVec.ofNat 32 VIDEO
    else if (k.pcbs (pcbAddr p)).ownedByTerminal = fromT then
      BitVec.ofNat 32 (VIDEO + (fromT + 1) * LITERAL_4KB)
    else screen
  else screen

def remapRound (i : ℕ) (k : Kernel) : Kernel :=
  if ¬ k.isPidUsed i then k
  else
    let curPcb := k.pcbs (pcbAddr i)
    let k :=
      if curPcb.ownedByTerminal = fromT then
        { k with
          paging := k.paging.changeMapping i (BitVec.ofNat 32 VIDEO)
            (BitVec.ofNat 32 (VIDEO + (fromT + 1) * LITERAL_4KB)) }
      else k
    if curPcb.ownedByTerminal = toT then
      { k with
        paging := k.paging.changeMapping i (BitVec.ofNat 32 VIDEO) (BitVec.ofNat 32 VIDEO) }
    else k

theorem remapVideo_eq : k.remapVideo fromT toT =
    forRange 0 MAX_NUM_PROCS (remapRound fromT toT) k := rfl

theorem remapRound_cases (i : ℕ) :
    ∃ P, remapRound fromT toT i k = { k with paging := P } ∧
      P.kernelPageDirectory = k.paging.kernelPageDirectory ∧
      (∀ (p : ℕ) phys screen granted, k.paging.TaskPaging p phys screen granted →
        P.TaskPaging p phys (if p = i then k.remappedScreen fromT toT i screen else screen) granted) := by
  rw [remapRound]
  by_cases hused : k.isPidUsed i = true
  · rw [if_neg (by simp [hused])]
    by_cases hfrom : (k.pcbs (pcbAddr i)).ownedByTerminal = fromT
    · by_cases hto : (k.pcbs (pcbAddr i)).ownedByTerminal = toT
      · simp only [if_pos hfrom, if_pos hto]
        refine ⟨_, rfl, rfl, fun p phys screen granted h => ?_⟩
        by_cases hp : p = i
        · subst hp
          rw [if_pos rfl, remappedScreen, if_pos hused, if_pos hto]
          exact (h.changeMapping _).changeMapping _
        · rw [if_neg hp]
          exact (h.changeMapping_of_ne hp _ _).changeMapping_of_ne hp _ _
      · simp only [if_pos hfrom, if_neg hto]
        refine ⟨_, rfl, rfl, fun p phys screen granted h => ?_⟩
        by_cases hp : p = i
        · subst hp
          rw [if_pos rfl, remappedScreen, if_pos hused, if_neg hto, if_pos hfrom]
          exact h.changeMapping _
        · rw [if_neg hp]
          exact h.changeMapping_of_ne hp _ _
    · by_cases hto : (k.pcbs (pcbAddr i)).ownedByTerminal = toT
      · simp only [if_neg hfrom, if_pos hto]
        refine ⟨_, rfl, rfl, fun p phys screen granted h => ?_⟩
        by_cases hp : p = i
        · subst hp
          rw [if_pos rfl, remappedScreen, if_pos hused, if_pos hto]
          exact h.changeMapping _
        · rw [if_neg hp]
          exact h.changeMapping_of_ne hp _ _
      · simp only [if_neg hfrom, if_neg hto]
        refine ⟨k.paging, rfl, rfl, fun p phys screen granted h => ?_⟩
        rw [remappedScreen, if_pos hused, if_neg hto, if_neg hfrom, ite_self]
        exact h
  · rw [if_pos (by simpa using hused)]
    refine ⟨k.paging, rfl, rfl, fun p phys screen granted h => ?_⟩
    rw [remappedScreen, if_neg hused, ite_self]
    exact h

/-- What holds at the start of round `i`: the pids below `i` have been remapped. -/
def RemappedTo (i : ℕ) (k' : Kernel) : Prop :=
  ∃ P, k' = { k with paging := P } ∧ P.kernelPageDirectory = k.paging.kernelPageDirectory ∧
    ∀ (p : ℕ) phys screen granted, k.paging.TaskPaging p phys screen granted →
      P.TaskPaging p phys (if p < i then k.remappedScreen fromT toT p screen else screen) granted

theorem remapRound_remappedTo (i : ℕ) (k' : Kernel) (h : k.RemappedTo fromT toT i k') :
    k.RemappedTo fromT toT (i + 1) (remapRound fromT toT i k') := by
  obtain ⟨P, rfl, hdir, hP⟩ := h
  obtain ⟨P', hk', hdir', hP'⟩ := remapRound_cases { k with paging := P } fromT toT i
  refine ⟨P', hk', hdir'.trans hdir, fun p phys screen granted h => ?_⟩
  have hround := hP' p phys _ granted (hP p phys screen granted h)
  by_cases hp : p = i
  · subst hp
    rw [if_pos rfl, if_neg (lt_irrefl p)] at hround
    rw [if_pos (Nat.lt_succ_self p)]
    exact hround
  · rw [if_neg hp] at hround
    by_cases hlt : p < i
    · rw [if_pos hlt] at hround
      rwa [if_pos (by omega)]
    · rw [if_neg hlt] at hround
      rwa [if_neg (by omega)]

theorem remapVideo_spec : k.RemappedTo fromT toT MAX_NUM_PROCS (k.remapVideo fromT toT) := by
  have h0 : k.RemappedTo fromT toT 0 k :=
    ⟨k.paging, rfl, rfl, fun p phys screen granted h => by simpa using h⟩
  have hloop : k.RemappedTo fromT toT (0 + MAX_NUM_PROCS)
      (forRange 0 MAX_NUM_PROCS (remapRound fromT toT) k) :=
    forRange_invariant (k.RemappedTo fromT toT) h0 fun i k' _ _ h =>
      k.remapRound_remappedTo fromT toT i k' h
  rwa [Nat.zero_add, ← remapVideo_eq] at hloop

/-- A process whose screen was right for the old visible terminal has the right
one for the new. -/
theorem remappedScreen_screenPage {p : ℕ} (hused : k.isPidUsed p = true) :
    k.remappedScreen fromT toT p (screenPage fromT (k.pcbs (pcbAddr p)).ownedByTerminal) =
      screenPage toT (k.pcbs (pcbAddr p)).ownedByTerminal := by
  rw [remappedScreen, if_pos hused]
  by_cases hto : (k.pcbs (pcbAddr p)).ownedByTerminal = toT
  · rw [if_pos hto, screenPage, if_pos hto]
  · rw [if_neg hto, screenPage, screenPage, if_neg hto]
    by_cases hfrom : (k.pcbs (pcbAddr p)).ownedByTerminal = fromT
    · rw [if_pos hfrom, hfrom]
    · rw [if_neg hfrom, if_neg hfrom]

theorem memcpy_frame (dest src : Addr) (n : ℕ) : ∃ mem, k.memcpy dest src n = { k with mem := mem } :=
  ⟨_, rfl⟩

theorem memcpy_mem {d s : Addr} {n D S : ℕ} (hD : D + n ≤ 2 ^ 32) (hS : S + n ≤ 2 ^ 32)
    (hapart : D + n ≤ S ∨ S + n ≤ D)
    (hdest : ∀ i < n, ∃ u, k.paging.translate k.cr3 (d + BitVec.ofNat 32 i) =
      some ⟨BitVec.ofNat 32 (D + i), u⟩)
    (hsrc : ∀ i < n, ∃ u, k.paging.translate k.cr3 (s + BitVec.ofNat 32 i) =
      some ⟨BitVec.ofNat 32 (S + i), u⟩) (a : Addr) :
    (k.memcpy d s n).mem a =
      if D ≤ a.toNat ∧ a.toNat < D + n then k.mem (BitVec.ofNat 32 (S + (a.toNat - D)))
      else k.mem a := by
  let copied (i : ℕ) (mem : Addr → UInt8) : Prop := ∀ a : Addr, mem a =
    if D ≤ a.toNat ∧ a.toNat < D + i then k.mem (BitVec.ofNat 32 (S + (a.toNat - D))) else k.mem a
  have hloop : copied (0 + n) (k.memcpy d s n).mem := by
    refine forRange_invariant copied (fun a => by rw [if_neg (by omega)]) fun i mem _ hi hmem a => ?_
    obtain ⟨u, hu⟩ := hdest i (by omega)
    obtain ⟨v, hv⟩ := hsrc i (by omega)
    have hSi : (BitVec.ofNat 32 (S + i)).toNat = S + i := by
      rw [BitVec.toNat_ofNat, Nat.mod_eq_of_lt (by omega)]
    have hDi : (BitVec.ofNat 32 (D + i)).toNat = D + i := by
      rw [BitVec.toNat_ofNat, Nat.mod_eq_of_lt (by omega)]
    simp only [loadByte, storeByte, hu, hv]
    rcases eq_or_ne a (BitVec.ofNat 32 (D + i)) with rfl | hne
    · rw [Function.update_self, hmem, hSi, hDi, if_neg (by omega), if_pos (by omega),
        Nat.add_sub_cancel_left]
    · have hnat : a.toNat ≠ D + i := fun h => hne (BitVec.eq_of_toNat_eq (by rw [h, hDi]))
      rw [Function.update_of_ne hne, hmem]
      by_cases hin : D ≤ a.toNat ∧ a.toNat < D + i
      · rw [if_pos hin, if_pos (by omega)]
      · rw [if_neg hin, if_neg (by omega)]
  rw [Nat.zero_add] at hloop
  exact hloop a

theorem saveScreenXY_pid (t i : ℕ) : ((k.saveScreenXY t).terminals i).pid = (k.terminals i).pid := by
  rw [saveScreenXY, setTerminal_pid]
  exact fun _ => rfl

/-- The text pages after the two copies of `change_terminal_state`. -/
def switchedMem : Addr → UInt8 :=
  ((k.memcpy (BitVec.ofNat 32 (VIDEO + (fromT + 1) * LITERAL_4KB)) (BitVec.ofNat 32 VIDEO)
    LITERAL_4KB).memcpy (BitVec.ofNat 32 VIDEO) (BitVec.ofNat 32 (VIDEO + (toT + 1) * LITERAL_4KB))
    LITERAL_4KB).mem

theorem changeTerminalState_spec :
    ∃ P, k.changeTerminalState fromT toT =
        { k with
          paging := P
          mem := k.switchedMem fromT toT
          screenX := ((k.saveScreenXY fromT).terminals toT).screenX
          screenY := ((k.saveScreenXY fromT).terminals toT).screenY
          terminals := (k.saveScreenXY fromT).terminals
          terminalState := toT } ∧
      P.kernelPageDirectory = k.paging.kernelPageDirectory ∧
      (∀ p < MAX_NUM_PROCS, ∀ phys screen granted, k.paging.TaskPaging p phys screen granted →
        P.TaskPaging p phys (k.remappedScreen fromT toT p screen) granted) := by
  rw [changeTerminalState, switchedMem]
  obtain ⟨mem₁, h₁⟩ := k.memcpy_frame (BitVec.ofNat 32 (VIDEO + (fromT + 1) * LITERAL_4KB))
    (BitVec.ofNat 32 VIDEO) LITERAL_4KB
  obtain ⟨mem₂, h₂⟩ := memcpy_frame { k with mem := mem₁ } (BitVec.ofNat 32 VIDEO)
    (BitVec.ofNat 32 (VIDEO + (toT + 1) * LITERAL_4KB)) LITERAL_4KB
  simp only [h₁, h₂]
  generalize hk₁ : (saveScreenXY { k with mem := mem₂ } fromT).setScreenXY _ _ = k₁
  obtain ⟨P, hk, hdir, hP⟩ := k₁.remapVideo_spec fromT toT
  rw [hk]
  subst hk₁
  refine ⟨P, rfl, hdir, fun p hp phys screen granted h => ?_⟩
  have hremap := hP p phys screen granted h
  rwa [if_pos hp] at hremap

end Kernel

end SnoopDos
