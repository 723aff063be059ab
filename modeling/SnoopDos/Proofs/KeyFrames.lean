import SnoopDos.Proofs.Execute
import SnoopDos.Proofs.Keys
import SnoopDos.Proofs.Switching

/-! The branches of the key handler for Ctrl and Alt. The first only prints; the
second prints, shows another terminal, or starts the shell of one. -/

namespace SnoopDos

open Loops

/-- The state in which a key is left, whether its handler returns or not. -/
def KeyResult.kernel : KeyResult → Kernel
  | .returned k => k
  | .switched k _ => k

namespace Kernel

variable (k : Kernel)

/-- Only the screen, its colours and the cursors differ. -/
def Shown (k' : Kernel) : Prop :=
  ∃ mem x y colours kbdAttribute kbdBackAttribute terminals,
    k' = { k with
      mem := mem
      screenX := x
      screenY := y
      currAttribute := colours
      kbdAttribute := kbdAttribute
      kbdBackAttribute := kbdBackAttribute
      terminals := terminals } ∧
    ∀ t, ∃ x y, terminals t = { k.terminals t with screenX := x, screenY := y }

section Shown

variable {k} {k' k'' : Kernel}

theorem Shown.refl (k : Kernel) : k.Shown k := ⟨_, _, _, _, _, _, _, rfl, fun _ => ⟨_, _, rfl⟩⟩

theorem Shown.trans (h : k.Shown k') (h' : k'.Shown k'') : k.Shown k'' := by
  obtain ⟨_, _, _, _, _, _, _, rfl, hterm⟩ := h
  obtain ⟨_, _, _, _, _, _, _, rfl, hterm'⟩ := h'
  refine ⟨_, _, _, _, _, _, _, rfl, fun t => ?_⟩
  obtain ⟨_, _, ht⟩ := hterm t
  obtain ⟨x, y, ht'⟩ := hterm' t
  exact ⟨x, y, ht'.trans (by simp only [ht])⟩

theorem Shown.drawn (h : k.Shown k') : k.Drawn k' := by
  obtain ⟨_, _, _, _, _, _, _, rfl, hterm⟩ := h
  refine ⟨_, _, _, _, _, _, _, rfl, fun t => ?_⟩
  obtain ⟨_, _, ht⟩ := hterm t
  rw [ht]

theorem Shown.terminalBeingServiced (h : k.Shown k') :
    k'.terminalBeingServiced = k.terminalBeingServiced := by
  obtain ⟨_, _, _, _, _, _, _, rfl, -⟩ := h
  rfl

theorem Shown.serviced {t : ℕ} (h : k.Shown k')
    (h' : { k' with terminalBeingServiced := t }.Shown k'') :
    k.Shown { k'' with terminalBeingServiced := k.terminalBeingServiced } := by
  refine h.trans ?_
  rw [← h.terminalBeingServiced]
  obtain ⟨_, _, _, _, _, _, _, rfl, hterm⟩ := h'
  exact ⟨_, _, _, _, _, _, _, rfl, hterm⟩

end Shown

theorem setScreen_shown (s : Screen (Addr → UInt8)) : k.Shown (k.setScreen s) :=
  ⟨_, _, _, _, _, _, _, rfl, fun _ => ⟨_, _, rfl⟩⟩

theorem setScreenXY_shown (x y : ℤ) : k.Shown (k.setScreenXY x y) :=
  ⟨_, _, _, _, _, _, _, rfl, fun _ => ⟨_, _, rfl⟩⟩

theorem saveScreenXY_shown (t : ℕ) : k.Shown (k.saveScreenXY t) := by
  refine ⟨_, _, _, _, _, _, _, rfl, fun i => ?_⟩
  rcases eq_or_ne i t with rfl | hne
  · exact ⟨_, _, Function.update_self _ _ _⟩
  · exact ⟨_, _, Function.update_of_ne hne _ _⟩

theorem writeTerminal_shown (fd : Word) (buf : ℕ → Id UInt8) (nbytes : Word) :
    k.Shown (Id.run (k.writeTerminal fd buf nbytes)).2 := by
  rw [writeTerminal]
  split_ifs
  · exact Shown.refl k
  · exact Shown.refl k
  · have hstart := (k.saveScreenXY_shown k.terminalState).trans (setScreenXY_shown _
      ((k.saveScreenXY k.terminalState).terminals k.terminalBeingServiced).screenX
      ((k.saveScreenXY k.terminalState).terminals k.terminalBeingServiced).screenY)
    exact ((hstart.trans (setScreen_shown _ _)).trans (saveScreenXY_shown _ _)).trans
      (setScreenXY_shown _ _ _)

theorem printfT_shown (format : List UInt8) : k.Shown (k.printfT format) := by
  induction format generalizing k with
  | nil => exact Shown.refl k
  | cons c format ih => exact (k.writeTerminal_shown STDOUT (ofList [c]) 1#32).trans (ih _)

theorem setMem_shown (mem : Addr → UInt8) : k.Shown { k with mem := mem } :=
  ⟨_, _, _, _, _, _, _, rfl, fun _ => ⟨_, _, rfl⟩⟩

theorem clearAndReset_shown : k.Shown k.clearAndReset := by
  rw [clearAndReset]
  generalize clear k.videoBus k.currAttribute k.mem = mem
  exact (k.setMem_shown mem).trans (setScreenXY_shown _ 0 0)

theorem changeAtribute_shown (attrib : UInt8) : k.Shown (k.changeAtribute attrib) := by
  rw [changeAtribute]
  generalize forRange 0 2000 _ _ = mem
  exact ⟨_, _, _, _, _, _, _, rfl, fun _ => ⟨_, _, rfl⟩⟩

theorem setAttributes_shown (a b : ℕ) :
    k.Shown { k with kbdAttribute := a, kbdBackAttribute := b } :=
  ⟨_, _, _, _, _, _, _, rfl, fun _ => ⟨_, _, rfl⟩⟩

/-- `change_atribute` after one of the two attributes has been set. -/
theorem applyAttributes_shown (a b : ℕ) :
    k.Shown { k with kbdAttribute := a, kbdBackAttribute := b }.applyAttributes := by
  rw [applyAttributes]
  exact (k.setAttributes_shown a b).trans (changeAtribute_shown _ _)

theorem ctrlKey_shown (mapped : Scancode) :
    ∃ k', k.Shown k' ∧ k.ctrlKey mapped = k'.switchTerminalContext := by
  rw [ctrlKey]
  refine ⟨_, ?_, rfl⟩
  by_cases hl : mapped.result = CLEAR_SCREEN_SHORTCUT
  · rw [if_pos hl]
    have hclear := k.clearAndReset_shown
    generalize k.clearAndReset = k₁ at hclear
    exact (hclear.trans (k₁.saveScreenXY_shown _)).serviced
      ((printfT_shown _ _).trans (writeTerminal_shown _ _ _ _))
  rw [if_neg hl]
  by_cases hsix : mapped.result = ASCII_SIX
  · rw [if_pos hsix]
    exact k.applyAttributes_shown _ k.kbdBackAttribute
  rw [if_neg hsix]
  by_cases hseven : mapped.result = ASCII_SEVEN
  · rw [if_pos hseven]
    exact k.applyAttributes_shown k.kbdAttribute _
  · rw [if_neg hseven]
    exact Shown.refl k

/-- The bit of `terminals_launched` that stands for a terminal. -/
def Launched (t : ℕ) : Prop := k.terminalsLaunched &&& 1#32 <<< t ≠ 0#32

instance (t : ℕ) : Decidable (k.Launched t) := inferInstanceAs (Decidable (_ ≠ _))

section Launched

variable {k} {k' : Kernel}

theorem launched_congr (h : k'.terminalsLaunched = k.terminalsLaunched) (t : ℕ) :
    k'.Launched t ↔ k.Launched t := by
  unfold Launched
  rw [h]

theorem launched_insert {t toT : ℕ} (hto : toT < 32) (ht : t < 32)
    (h : k'.terminalsLaunched = k.terminalsLaunched ||| 1#32 <<< toT) :
    k'.Launched t ↔ t = toT ∨ k.Launched t := by
  have hbit (w : Word) : w &&& 1#32 <<< t ≠ 0#32 ↔ w.getLsbD t = true := by
    rw [ne_eq, Bitmap.and_mask_eq_zero_iff _ ht, Bool.not_eq_false]
  unfold Launched
  rw [h, hbit, hbit, Bitmap.getLsbD_insert _ hto]

end Launched

/-- Alt shows a terminal that has been launched. -/
def SwitchesTo (toT : ℕ) : Prop :=
  toT < NUM_TERMINALS ∧ toT ≠ k.terminalState ∧ (toT = STATE_ONE ∨ k.Launched toT)

def Launches (toT : ℕ) : Prop :=
  toT < NUM_TERMINALS ∧ toT ≠ STATE_ONE ∧ toT ≠ k.terminalState ∧ ¬ k.Launched toT ∧
    k.getAvailablePid.isSome

/-- What `internal_execute` finds when Alt launches a terminal. -/
def launching (irqFlags : Word) (toT : ℕ) : Kernel :=
  let k := k.changeTerminalState k.terminalState toT
  let k := { k with terminalBeingServiced := k.terminalState }
  let k := k.saveProcessContext .switchTerminalContext (.processSentScancode irqFlags)
  { k with terminalsLaunched := k.terminalsLaunched ||| 1#32 <<< toT }

def launch (fs : Fs) (residue : Residue) (irqFlags : Word) (toT : ℕ) : KeyResult :=
  match (k.launching irqFlags toT).executeShell fs residue with
  | .started k entryPointAddress => .switched k entryPointAddress
  | .failed k => .returned k.switchTerminalContext

/-- The ways through a branch for Alt that leave it at `SWITCH_TERMINAL_CONTEXT` or
start a shell. -/
inductive AltOutcome (fs : Fs) (residue : Residue) (irqFlags : Word) : KeyResult → Prop
  | stays {k' : Kernel} (h : k.Shown k') :
      AltOutcome fs residue irqFlags (.returned k'.switchTerminalContext)
  | switches {toT : ℕ} (h : k.SwitchesTo toT) : AltOutcome fs residue irqFlags
      (.returned (k.changeTerminalState k.terminalState toT).switchTerminalContext)
  | launches {toT : ℕ} (h : k.Launches toT) :
      AltOutcome fs residue irqFlags (k.launch fs residue irqFlags toT)

section Alt

variable (fs : Fs) (residue : Residue) (irqFlags : Word)

theorem canSwitch_iff {toT : ℕ} :
    k.canSwitch (1#32 <<< toT) toT = true ↔
      toT ≠ k.terminalState ∧ (k.Launched toT ∨ k.getAvailablePid.isSome) := by
  simp only [canSwitch, Launched, Bool.and_eq_true, Bool.or_eq_true, decide_eq_true_eq]
  tauto

/-- The branch for a terminal that has to be launched before it is shown. -/
theorem switchOrLaunch_eq (toT : ℕ) :
    k.switchOrLaunch fs residue irqFlags (1#32 <<< toT) toT =
      if toT = k.terminalState then .returned k.switchTerminalContext
      else if k.Launched toT then
        .returned (k.changeTerminalState k.terminalState toT).switchTerminalContext
      else if k.getAvailablePid.isSome then k.launch fs residue irqFlags toT
      else .returned ((k.printfT MAX_PROCESSES_MESSAGE).printfT PROMPT).switchTerminalContext := by
  unfold switchOrLaunch
  obtain ⟨P, hk, -⟩ := k.changeTerminalState_spec k.terminalState toT
  have hbits : (k.changeTerminalState k.terminalState toT).Launched toT ↔ k.Launched toT :=
    launched_congr (by rw [hk]) toT
  by_cases hcan : k.canSwitch (1#32 <<< toT) toT = true
  · obtain ⟨hvisible, hpid⟩ := k.canSwitch_iff.mp hcan
    rw [if_pos hcan, if_neg hvisible]
    by_cases hlaunched : k.Launched toT
    · rw [if_pos hlaunched]
      exact if_neg (hbits.mpr hlaunched)
    · rw [if_neg hlaunched, if_pos (hpid.resolve_left hlaunched)]
      exact if_pos (not_not.mp (mt hbits.mp hlaunched))
  · rw [if_neg hcan]
    by_cases hvisible : toT = k.terminalState
    · rw [if_pos hvisible, if_neg (not_not.mpr hvisible.symm)]
    · have hnot := mt k.canSwitch_iff.mpr hcan
      rw [not_and, not_or] at hnot
      obtain ⟨hlaunched, hpid⟩ := hnot hvisible
      rw [if_neg hvisible, if_pos (Ne.symm hvisible), if_neg hlaunched, if_neg hpid]

/-- The terminal that a function key stands for. -/
def functionKey (mapped : Scancode) : Option ℕ :=
  if mapped.result = F1_MAKE then some STATE_ONE
  else if mapped.result = F2_MAKE then some STATE_TWO
  else if mapped.result = F3_MAKE then some STATE_THREE
  else none

theorem functionKey_lt {mapped : Scancode} {toT : ℕ} (h : functionKey mapped = some toT) :
    toT < NUM_TERMINALS := by
  unfold functionKey at h
  split_ifs at h
  all_goals
    obtain rfl := Option.some.inj h
    decide

/-- The branch for Alt: nothing, another terminal, the launch of one, or its refusal. -/
theorem altKey_eq (mapped : Scancode) : k.altKey fs residue irqFlags mapped =
    match functionKey mapped with
    | none => .returned (k.setInterruptFlag false).switchTerminalContext
    | some toT =>
      let k := k.setInterruptFlag false
      if toT = k.terminalState then .returned k.switchTerminalContext
      else if toT = STATE_ONE ∨ k.Launched toT then
        .returned (k.changeTerminalState k.terminalState toT).switchTerminalContext
      else if k.getAvailablePid.isSome then k.launch fs residue irqFlags toT
      else .returned ((k.printfT MAX_PROCESSES_MESSAGE).printfT PROMPT).switchTerminalContext := by
  unfold altKey functionKey
  by_cases h1 : mapped.result = F1_MAKE
  · rw [if_pos h1, if_pos h1]
    simp only [true_or, if_true]
    by_cases hvisible : STATE_ONE = (k.setInterruptFlag false).terminalState
    · rw [if_pos hvisible, if_neg (not_not.mpr hvisible.symm)]
    · rw [if_neg hvisible, if_pos (Ne.symm hvisible)]
  rw [if_neg h1, if_neg h1]
  by_cases h2 : mapped.result = F2_MAKE
  · have hne : STATE_TWO ≠ STATE_ONE := by decide
    rw [if_pos h2, if_pos h2]
    simp only [hne, false_or]
    exact switchOrLaunch_eq _ fs residue irqFlags STATE_TWO
  rw [if_neg h2, if_neg h2]
  by_cases h3 : mapped.result = F3_MAKE
  · have hne : STATE_THREE ≠ STATE_ONE := by decide
    rw [if_pos h3, if_pos h3]
    simp only [hne, false_or]
    exact switchOrLaunch_eq _ fs residue irqFlags STATE_THREE
  · rw [if_neg h3, if_neg h3]

theorem altKey_outcome (mapped : Scancode) :
    (k.setInterruptFlag false).AltOutcome fs residue irqFlags
      (k.altKey fs residue irqFlags mapped) := by
  rw [altKey_eq]
  cases hkey : functionKey mapped with
  | none => exact .stays (Shown.refl _)
  | some toT =>
    have hlt := functionKey_lt hkey
    simp only
    split_ifs with hvisible hshown hpid
    · exact .stays (Shown.refl _)
    · exact .switches ⟨hlt, hvisible, hshown⟩
    · obtain ⟨hne, hlaunched⟩ := not_or.mp hshown
      exact .launches ⟨hlt, hne, hvisible, hlaunched, hpid⟩
    · exact .stays ((printfT_shown _ _).trans (printfT_shown _ _))

end Alt

/-- The ways through `process_sent_scancode`. In the last three the directory of the
visible terminal has been loaded. -/
inductive Handled (fs : Fs) (residue : Residue) (irqFlags : Word) (raw : UInt8) : KeyResult → Prop
  | ignored (h : raw = DELETE_SCAN_CODE ∨ ¬ (scancodeTable raw).isMake) :
      Handled fs residue irqFlags raw
        (.returned { k with keyboardState := updateKeyboardState k.keyboardState raw })
  | drawn {b : Bool} {k' : Kernel} (h : ((k.pressed raw).setInterruptFlag b).Drawn k') :
      Handled fs residue irqFlags raw (.returned k'.switchTerminalContext)
  | switches {toT : ℕ} (h : k.SwitchesTo toT) : Handled fs residue irqFlags raw
      (.returned (((k.pressed raw).setInterruptFlag false).changeTerminalState k.terminalState
        toT).switchTerminalContext)
  | launches {toT : ℕ} (h : k.Launches toT) : Handled fs residue irqFlags raw
      (((k.pressed raw).setInterruptFlag false).launch fs residue irqFlags toT)

theorem processSentScancode_handled (fs : Fs) (residue : Residue) (irqFlags : Word) (raw : UInt8) :
    k.Handled fs residue irqFlags raw (k.processSentScancode fs residue irqFlags raw) := by
  by_cases hignored : raw = DELETE_SCAN_CODE ∨ ¬ (scancodeTable raw).isMake
  · rw [k.processSentScancode_ignored fs residue irqFlags hignored]
    exact .ignored hignored
  obtain ⟨hdel, hmake⟩ := not_or.mp hignored
  rw [k.processSentScancode_make fs residue irqFlags hdel (not_not.mp hmake)]
  split_ifs with halt hctrl
  · have houtcome := (k.pressed raw).altKey_outcome fs residue irqFlags (scancodeTable raw)
    generalize (k.pressed raw).altKey fs residue irqFlags (scancodeTable raw) = r at houtcome ⊢
    cases houtcome with
    | stays h => exact .drawn h.drawn
    | switches h => exact .switches h
    | launches h => exact .launches h
  · obtain ⟨k', hshown, hk⟩ := (k.pressed raw).ctrlKey_shown (scancodeTable raw)
    rw [hk]
    exact .drawn (b := (k.pressed raw).interruptFlag) hshown.drawn
  · obtain ⟨k', hdrawn, hk⟩ := (k.pressed raw).plainKey_drawn (scancodeTable raw)
    rw [hk]
    exact .drawn (b := (k.pressed raw).interruptFlag) hdrawn

end Kernel

end SnoopDos
