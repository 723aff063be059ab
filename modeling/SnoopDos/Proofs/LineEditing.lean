import SnoopDos.Proofs.LineBuffer
import SnoopDos.Proofs.Modifiers

/-! What a key does to the line being typed while neither Ctrl nor Alt is down. Only
Backspace shortens the line and Enter ends it, except that a key pressed while
Backspace is held is handled as Backspace first and as itself afterwards. -/

namespace SnoopDos

open Kernel

section Tables

theorem result_newLine (raw : UInt8) : raw ≠ DELETE_SCAN_CODE → (scancodeTable raw).isMake = true →
    (scancodeTable raw).result = NEW_LINE → raw = ENTER_PRESS :=
  scancodeTable_induction (P := fun raw s => raw ≠ DELETE_SCAN_CODE → s.isMake = true →
    s.result = NEW_LINE → raw = ENTER_PRESS) raw (fun _ _ h => absurd h (by decide)) (by decide)
    (by decide)

theorem mappedChar_enter (state : Word) :
    mappedChar state (scancodeTable ENTER_PRESS) = some NEW_LINE := by
  have hentry : (scancodeTable ENTER_PRESS).isLetter = false ∧
      (scancodeTable ENTER_PRESS).isPrintable = true ∧
      (scancodeTable ENTER_PRESS).result = NEW_LINE := by decide
  have hshift : nonAlphaShiftTable NEW_LINE = 0 := by decide
  unfold mappedChar
  simp [hentry, hshift]

end Tables

def Editing (state : Word) : Prop :=
  isOn state CONTROL_MASK = false ∧ isOn state ALT_MASK = false

instance (state : Word) : Decidable (Editing state) := inferInstanceAs (Decidable (_ ∧ _))

/-- What a key may do to the line of the visible terminal. Only Backspace and an Enter
that no read waits for shorten it, and an Enter that one waits for ends it. -/
structure EditsAsSaid (raw : UInt8) (u v : Terminal) : Prop where
  shortens : v.stdinIndex < u.stdinIndex →
    (raw = BACKSPACE_PRESS ∧ v.stdinIndex + 1 = u.stdinIndex) ∨
      (raw = ENTER_PRESS ∧ u.readWaiting = false ∧ v.stdinIndex = 0)
  ends : raw = ENTER_PRESS → u.stdinIndex < KEYBOARD_BUFF_SIZE - 1 → u.readWaiting = true →
    v.stdinIndex = u.stdinIndex + 1 ∧ v.stdin u.stdinIndex = NEW_LINE ∧
      (∀ i < u.stdinIndex, v.stdin i = u.stdin i) ∧ v.allowedToRead = true

/-- A make code that is handled as Backspace because Backspace is held. -/
def BackspaceHeld (state : Word) (raw : UInt8) : Prop :=
  isOn state BACKSPACE_MASK = true ∧ (raw ≠ DELETE_SCAN_CODE ∧ (scancodeTable raw).isMake = true) ∧
    raw ≠ BACKSPACE_PRESS ∧ raw ≠ Modifier.control.press ∧ raw ≠ Modifier.alt.press

/-- With Backspace held the character erased is made up for by one appended, and Enter
finds an empty line that a reader may already read. Otherwise Enter does not find a
line that begins with NEW_LINE, unless the NUL after it has been passed. -/
structure EditsCleanly (state : Word) (raw : UInt8) (u : Terminal) : Prop where
  held : BackspaceHeld state raw →
    (0 < u.stdinIndex → u.stdinIndex < KEYBOARD_BUFF_SIZE - 1 ∧
      (mappedChar (updateKeyboardState state raw) (scancodeTable raw)).isSome = true) ∧
    (raw = ENTER_PRESS → u.readWaiting = true → u.stdinIndex = 0 ∧ u.allowedToRead = true)
  free : ¬ BackspaceHeld state raw → raw = ENTER_PRESS →
    u.stdinIndex < KEYBOARD_BUFF_SIZE - 1 → u.readWaiting = true →
      u.stdinIndex = 0 ∨ u.stdin 0 ≠ NEW_LINE ∨ (1 < u.stdinIndex ∧ u.stdin 1 = NULL_CHAR)

section Modifiers

variable {state : Word} {raw : UInt8}

theorem alt_of_editing (h : Editing state)
    (hon : isOn (updateKeyboardState state raw) ALT_MASK = true) : raw = Modifier.alt.press := by
  have hmem : Modifier.alt ∈ Modifier.all := by decide
  rcases (isOn_updateKeyboardState hmem).mp hon with hpress | ⟨-, hold⟩
  · exact hpress
  · exact absurd (h.2.symm.trans hold) (by decide)

theorem control_of_editing (h : Editing state)
    (hon : isOn (updateKeyboardState state raw) CONTROL_MASK = true) :
    raw = Modifier.control.press := by
  have hmem : Modifier.control ∈ Modifier.all := by decide
  rcases (isOn_updateKeyboardState hmem).mp hon with hpress | ⟨-, hold⟩
  · exact hpress
  · exact absurd (h.1.symm.trans hold) (by decide)

theorem backspace_iff (hmake : (scancodeTable raw).isMake = true) :
    isOn (updateKeyboardState state raw) BACKSPACE_MASK = true ↔
      raw = BACKSPACE_PRESS ∨ isOn state BACKSPACE_MASK = true := by
  have hmem : Modifier.backspace ∈ Modifier.all := by decide
  have hrelease : raw ≠ Modifier.backspace.release := by
    rintro rfl
    exact absurd hmake (by decide)
  refine (isOn_updateKeyboardState hmem).trans (or_congr Iff.rfl ?_)
  exact ⟨fun h => h.2, fun h => ⟨hrelease, h⟩⟩

end Modifiers

section Edits

variable {state : Word} {raw : UInt8} {u : Terminal}

theorem editsAsSaid_of_ne {v : Terminal} (hne : raw ≠ ENTER_PRESS)
    (hle : u.stdinIndex ≤ v.stdinIndex) : EditsAsSaid raw u v :=
  ⟨fun h => absurd h (not_lt.mpr hle), fun h => absurd h hne⟩

/-- No condition on a key that is neither Enter nor handled as Backspace. -/
theorem editsCleanly_of_ne (hne : raw ≠ ENTER_PRESS) (hheld : ¬ BackspaceHeld state raw) :
    EditsCleanly state raw u :=
  ⟨fun h => absurd h hheld, fun _ h => absurd h hne⟩

theorem typeEdit_le (mapped : Scancode) (u : Terminal) :
    u.stdinIndex ≤ (u.edited (typeEdit state mapped u.stdinIndex)).stdinIndex := by
  unfold typeEdit
  split_ifs
  · exact le_rfl
  · cases mappedChar state mapped with
    | none => exact le_rfl
    | some c => exact Nat.le_succ _

theorem enter_asSaid_iff (hheld : ¬ BackspaceHeld state ENTER_PRESS)
    (hlt : u.stdinIndex < KEYBOARD_BUFF_SIZE - 1) :
    EditsAsSaid ENTER_PRESS u (u.edited .enter) ↔ EditsCleanly state ENTER_PRESS u := by
  by_cases hwaiting : u.readWaiting = true
  · have hedit : u.edited .enter = (u.append NEW_LINE).release := if_pos hwaiting
    have hbyte (i : ℕ) (hi : i ≤ u.stdinIndex) : (u.append NEW_LINE).stdin i =
        if i = u.stdinIndex then NEW_LINE else u.stdin i := by
      simp only [Terminal.append, Function.update_apply,
        if_neg (show ¬ i = u.stdinIndex + 1 by omega)]
    have hfirst : (u.append NEW_LINE).stdin 0 = NEW_LINE ↔
        u.stdinIndex = 0 ∨ u.stdin 0 = NEW_LINE := by
      rw [hbyte 0 (Nat.zero_le _)]
      split_ifs with h0
      · exact iff_of_true rfl (Or.inl h0.symm)
      · exact (or_iff_right fun h => h0 h.symm).symm
    have hstdin (i : ℕ) (hi : i ≤ u.stdinIndex) : (u.edited .enter).stdin i =
        if i = 1 ∧ u.stdin 0 = NEW_LINE then NULL_CHAR
        else if i = u.stdinIndex then NEW_LINE else u.stdin i := by
      rw [hedit, ← hbyte i hi]
      by_cases hhead : (u.append NEW_LINE).stdin 0 = NEW_LINE
      · simp only [Terminal.release, if_pos hhead, Function.update_apply]
        by_cases h1 : i = 1
        · rw [if_pos h1, if_pos ⟨h1, (hfirst.mp hhead).resolve_left (by omega)⟩]
        · rw [if_neg h1, if_neg fun h => h1 h.1]
      · have hnot := not_or.mp (mt hfirst.mpr hhead)
        rw [if_neg fun h => hnot.2 h.2]
        simp only [Terminal.release, if_neg hhead]
    have hindex : (u.edited .enter).stdinIndex = u.stdinIndex + 1 := by rw [hedit]; rfl
    have hallowed : (u.edited .enter).allowedToRead = true := by rw [hedit]; rfl
    constructor
    · intro h
      refine ⟨fun h' => absurd h' hheld, fun _ _ _ _ => ?_⟩
      obtain ⟨-, hnew, hbefore, -⟩ := h.ends rfl hlt hwaiting
      by_contra hnot
      obtain ⟨h0, hhead, hnull⟩ : u.stdinIndex ≠ 0 ∧ u.stdin 0 = NEW_LINE ∧
          ¬ (1 < u.stdinIndex ∧ u.stdin 1 = NULL_CHAR) := by tauto
      rcases Nat.lt_or_ge 1 u.stdinIndex with hpast | hone
      · have h1 := hbefore 1 hpast
        rw [hstdin 1 hpast.le, if_pos ⟨rfl, hhead⟩] at h1
        exact hnull ⟨hpast, h1.symm⟩
      · rw [hstdin _ le_rfl, if_pos ⟨by omega, hhead⟩] at hnew
        exact absurd hnew (by decide)
    · intro h
      refine ⟨fun h' => by omega, fun _ _ _ => ⟨hindex, ?_, fun i hi => ?_, hallowed⟩⟩
      · rw [hstdin _ le_rfl, if_pos rfl, if_neg]
        rintro ⟨h1, hhead⟩
        rcases h.free hheld rfl hlt hwaiting with h0 | hne | ⟨hpast, -⟩
        · omega
        · exact hne hhead
        · omega
      · rw [hstdin i hi.le, if_neg hi.ne]
        split_ifs with h1
        · obtain ⟨rfl, hhead⟩ := h1
          rcases h.free hheld rfl hlt hwaiting with h0 | hne | ⟨-, hnull⟩
          · omega
          · exact absurd hhead hne
          · exact hnull.symm
        · rfl
  · have hnot : u.readWaiting = false := Bool.eq_false_iff.mpr hwaiting
    have hedit : u.edited .enter = (u.append NEW_LINE).discard := if_neg hwaiting
    have hzero : (u.edited .enter).stdinIndex = 0 := by rw [hedit]; rfl
    exact iff_of_true ⟨fun _ => Or.inr ⟨rfl, hnot, hzero⟩, fun _ _ h => absurd h hwaiting⟩
      ⟨fun h => absurd h hheld, fun _ _ _ h => absurd h hwaiting⟩

theorem typeEdit_of_le {mapped : Scancode} {i : ℕ} (h : KEYBOARD_BUFF_SIZE - NULL_NL_PADDING ≤ i) :
    typeEdit state mapped i = .none := if_pos h

theorem typeEdit_of_none {mapped : Scancode} (h : mappedChar state mapped = none) (i : ℕ) :
    typeEdit state mapped i = .none := by
  unfold typeEdit
  rw [h, ite_self]

theorem typeEdit_of_some {mapped : Scancode} {c : UInt8} {i : ℕ}
    (hi : i < KEYBOARD_BUFF_SIZE - NULL_NL_PADDING) (h : mappedChar state mapped = some c) :
    typeEdit state mapped i = .append c := by
  unfold typeEdit
  rw [if_neg (not_le.mpr hi), h]

/-- The effect of a make code while Backspace is held. -/
def Terminal.heldEdited (u : Terminal) (state : Word) (mapped : Scancode) : Terminal :=
  let edit := if 0 < u.stdinIndex then Edit.erase else Edit.none
  u.editedBy [edit, typeEdit state mapped (u.edited edit).stdinIndex]

/-- A character erased without one to make up for it shortens the line, whatever key
did it. -/
theorem erase_not_asSaid (hne : raw ≠ BACKSPACE_PRESS) (hpos : 0 < u.stdinIndex)
    (henter : raw = ENTER_PRESS → 1 < u.stdinIndex) : ¬ EditsAsSaid raw u u.erase := by
  intro h
  have hshorter : u.erase.stdinIndex < u.stdinIndex := Nat.sub_lt hpos Nat.one_pos
  rcases h.shortens hshorter with ⟨hback, -⟩ | ⟨hent, -, hzero⟩
  · exact hne hback
  · have h1 := henter hent
    have hsub : u.stdinIndex - 1 = 0 := hzero
    omega

theorem mappedChar_of_enter (state : Word) (h : raw = ENTER_PRESS) :
    mappedChar (updateKeyboardState state raw) (scancodeTable raw) = some NEW_LINE :=
  h ▸ mappedChar_enter _

theorem held_asSaid_iff_empty (hheld : BackspaceHeld state raw) (h0 : u.stdinIndex = 0) :
    EditsAsSaid raw u (u.heldEdited (updateKeyboardState state raw) (scancodeTable raw)) ↔
      EditsCleanly state raw u := by
  have hlt : u.stdinIndex < KEYBOARD_BUFF_SIZE - NULL_NL_PADDING := by rw [h0]; decide
  unfold Terminal.heldEdited
  rw [if_neg (by omega)]
  cases hchar : mappedChar (updateKeyboardState state raw) (scancodeTable raw) with
  | none =>
    have hno : raw ≠ ENTER_PRESS := fun h => by simp [mappedChar_of_enter state h] at hchar
    simp only [Terminal.edited, typeEdit_of_none hchar]
    exact iff_of_true (editsAsSaid_of_ne hno le_rfl)
      ⟨fun _ => ⟨fun h => by omega, fun h => absurd h hno⟩, fun h => absurd hheld h⟩
  | some c =>
    simp only [Terminal.edited, typeEdit_of_some hlt hchar]
    constructor
    · intro h
      refine ⟨fun _ => ⟨fun h' => by omega, fun hent hwaiting => ⟨h0, ?_⟩⟩, fun h' => absurd hheld h'⟩
      exact (h.ends hent (hlt.trans (by decide)) hwaiting).2.2.2
    · intro h
      have hlonger : (u.append c).stdinIndex = u.stdinIndex + 1 := rfl
      refine ⟨fun h' => ?_, fun hent _ hwaiting => ⟨rfl, ?_, fun i hi => by omega, ?_⟩⟩
      · exact absurd h' (by change ¬ (u.append c).stdinIndex < _; omega)
      · obtain rfl := Option.some.inj (hchar.symm.trans (mappedChar_of_enter state hent))
        change (u.append NEW_LINE).stdin u.stdinIndex = NEW_LINE
        simp only [Terminal.append]
        rw [Function.update_of_ne (by omega), Function.update_self]
      · exact ((h.held hheld).2 hent hwaiting).2

theorem held_asSaid_iff_pos (hheld : BackspaceHeld state raw) (hpos : 0 < u.stdinIndex) :
    EditsAsSaid raw u (u.heldEdited (updateKeyboardState state raw) (scancodeTable raw)) ↔
      EditsCleanly state raw u := by
  have hne : raw ≠ BACKSPACE_PRESS := hheld.2.2.1
  unfold Terminal.heldEdited
  rw [if_pos hpos]
  change EditsAsSaid raw u (u.editedBy [.erase, typeEdit _ _ (u.stdinIndex - 1)]) ↔ _
  by_cases hfull : KEYBOARD_BUFF_SIZE - NULL_NL_PADDING ≤ u.stdinIndex - 1
  · rw [typeEdit_of_le hfull]
    refine iff_of_false (erase_not_asSaid hne hpos fun _ => ?_) fun h => ?_
    · simp only [KEYBOARD_BUFF_SIZE, NULL_NL_PADDING] at hfull
      omega
    · have hlt := ((h.held hheld).1 hpos).1
      simp only [KEYBOARD_BUFF_SIZE, NULL_NL_PADDING] at hfull hlt
      omega
  cases hchar : mappedChar (updateKeyboardState state raw) (scancodeTable raw) with
  | none =>
    have hno : raw ≠ ENTER_PRESS := fun h => by simp [mappedChar_of_enter state h] at hchar
    rw [typeEdit_of_none hchar]
    refine iff_of_false (erase_not_asSaid hne hpos fun h => absurd h hno) fun h => ?_
    have hsome := ((h.held hheld).1 hpos).2
    rw [hchar] at hsome
    exact absurd hsome (by decide)
  | some c =>
    rw [typeEdit_of_some (not_le.mp hfull) hchar]
    have hsame : (u.editedBy [.erase, .append c]).stdinIndex = u.stdinIndex :=
      Nat.sub_add_cancel hpos
    have hroom : u.stdinIndex < KEYBOARD_BUFF_SIZE - 1 := by
      simp only [KEYBOARD_BUFF_SIZE, NULL_NL_PADDING] at hfull ⊢
      omega
    constructor
    · intro h
      refine ⟨fun _ => ⟨fun _ => ⟨hroom, by rw [hchar]; rfl⟩, fun hent hwaiting => ?_⟩,
        fun h' => absurd hheld h'⟩
      have hgrown := (h.ends hent hroom hwaiting).1
      omega
    · intro h
      refine ⟨fun h' => by omega, fun hent _ hwaiting => ?_⟩
      have hzero := ((h.held hheld).2 hent hwaiting).1
      omega

theorem held_asSaid_iff (hheld : BackspaceHeld state raw) :
    EditsAsSaid raw u (u.heldEdited (updateKeyboardState state raw) (scancodeTable raw)) ↔
      EditsCleanly state raw u := by
  rcases Nat.eq_zero_or_pos u.stdinIndex with h0 | hpos
  · exact held_asSaid_iff_empty hheld h0
  · exact held_asSaid_iff_pos hheld hpos

theorem keyEdits_asSaid_iff (h : Editing state) (u : Terminal) :
    EditsAsSaid raw u (u.editedBy (keyEdits state raw u)) ↔ EditsCleanly state raw u := by
  unfold keyEdits
  by_cases hignored : raw = DELETE_SCAN_CODE ∨ ¬ (scancodeTable raw).isMake
  · have hno : raw ≠ ENTER_PRESS := by
      rintro rfl
      exact absurd hignored (by decide)
    have hheld : ¬ BackspaceHeld state raw := fun hb =>
      hignored.elim hb.2.1.1 fun hmake => hmake hb.2.1.2
    simp only [if_pos hignored]
    exact iff_of_true (editsAsSaid_of_ne hno le_rfl) (editsCleanly_of_ne hno hheld)
  obtain ⟨hdel, hmake⟩ := not_or.mp hignored
  have hmake := not_not.mp hmake
  simp only [if_neg hignored]
  by_cases halt : isOn (updateKeyboardState state raw) ALT_MASK = true
  · obtain rfl := alt_of_editing h halt
    rw [if_pos halt]
    exact iff_of_true (editsAsSaid_of_ne (by decide) le_rfl)
      (editsCleanly_of_ne (by decide) fun hb => hb.2.2.2.2 rfl)
  rw [if_neg halt]
  by_cases hctrl : isOn (updateKeyboardState state raw) CONTROL_MASK = true
  · obtain rfl := control_of_editing h hctrl
    rw [if_pos hctrl]
    exact iff_of_true (editsAsSaid_of_ne (by decide) le_rfl)
      (editsCleanly_of_ne (by decide) fun hb => hb.2.2.2.1 rfl)
  rw [if_neg hctrl]
  by_cases hback : isOn (updateKeyboardState state raw) BACKSPACE_MASK = true
  · rw [if_pos hback]
    by_cases hpress : raw = BACKSPACE_PRESS
    · subst hpress
      have hno : BACKSPACE_PRESS ≠ ENTER_PRESS := by decide
      rw [typeEdit_of_none (mappedChar_backspace _)]
      refine iff_of_true ⟨fun hlt => Or.inl ⟨rfl, ?_⟩, fun hent => absurd hent hno⟩
        (editsCleanly_of_ne hno fun hb => hb.2.2.1 rfl)
      rcases Nat.eq_zero_or_pos u.stdinIndex with h0 | hpos
      · omega
      · rw [if_pos hpos]
        exact Nat.sub_add_cancel hpos
    · refine held_asSaid_iff ⟨((backspace_iff hmake).mp hback).resolve_left hpress, ⟨hdel, hmake⟩,
        hpress, ?_, ?_⟩
      · rintro rfl
        exact hctrl ((isOn_updateKeyboardState (by decide)).mpr (Or.inl rfl))
      · rintro rfl
        exact halt ((isOn_updateKeyboardState (by decide)).mpr (Or.inl rfl))
  have hheld : ¬ BackspaceHeld state raw := fun hb => hback ((backspace_iff hmake).mpr (Or.inr hb.1))
  rw [if_neg hback]
  by_cases henter : (scancodeTable raw).result = NEW_LINE ∧ u.stdinIndex < KEYBOARD_BUFF_SIZE - 1
  · obtain rfl := result_newLine raw hdel hmake henter.1
    rw [if_pos henter]
    exact enter_asSaid_iff hheld henter.2
  · rw [if_neg henter]
    have hfull (hent : raw = ENTER_PRESS) (hlt : u.stdinIndex < KEYBOARD_BUFF_SIZE - 1) : False := by
      subst hent
      exact henter ⟨by decide, hlt⟩
    refine iff_of_true ⟨fun hlt => absurd hlt (not_lt.mpr (typeEdit_le _ u)), fun hent hlt => ?_⟩
      ⟨fun hb => absurd hb hheld, fun _ hent hlt => ?_⟩
    · exact (hfull hent hlt).elim
    · exact (hfull hent hlt).elim

end Edits

section Runs

variable {fs : Fs} {k : Kernel} {residue : Residue} {irqFlags : Word} {raw : UInt8}

/-- A key pressed while neither Ctrl nor Alt is down does what its edits do to the
terminals, and nothing else to them. -/
theorem processSentScancode_edits (h : Editing k.keyboardState) :
    (k.processSentScancode fs residue irqFlags raw).kernel.terminals =
      k.editedByTerminals (keyEdits k.keyboardState raw (k.terminals k.terminalState)) := by
  unfold keyEdits
  by_cases hignored : raw = DELETE_SCAN_CODE ∨ ¬ (scancodeTable raw).isMake
  · rw [k.processSentScancode_ignored fs residue irqFlags hignored, if_pos hignored,
      editedByTerminals_nil]
    rfl
  obtain ⟨hdel, hmake⟩ := not_or.mp hignored
  rw [k.processSentScancode_make fs residue irqFlags hdel (not_not.mp hmake), if_neg hignored]
  by_cases halt : isOn (updateKeyboardState k.keyboardState raw) ALT_MASK = true
  · obtain rfl := alt_of_editing h halt
    have hnone : functionKey (scancodeTable Modifier.alt.press) = none := by decide
    rw [if_pos halt, if_pos halt, editedByTerminals_nil, altKey_eq, hnone]
    rfl
  rw [if_neg halt, if_neg halt]
  by_cases hctrl : isOn (updateKeyboardState k.keyboardState raw) CONTROL_MASK = true
  · obtain rfl := control_of_editing h hctrl
    rw [if_pos hctrl, if_pos hctrl, editedByTerminals_nil, ctrlKey, if_neg (by decide),
      if_neg (by decide), if_neg (by decide)]
    rfl
  rw [if_neg hctrl, if_neg hctrl]
  exact (k.pressed raw).plainKey_editedBy (scancodeTable raw)

/-- A key event does to the visible line what a key may do to it. -/
def StepAsSaid (k : Kernel) (e : BufferEvent) (k' : Kernel) : Prop :=
  match e with
  | .key _ _ raw => Editing k.keyboardState →
    EditsAsSaid raw (k.terminals k.terminalState) (k'.terminals k.terminalState)
  | _ => True

/-- A key event finds the visible line in a state that it edits as said. -/
def StepClean (k : Kernel) (e : BufferEvent) : Prop :=
  match e with
  | .key _ _ raw => Editing k.keyboardState →
    EditsCleanly k.keyboardState raw (k.terminals k.terminalState)
  | _ => True

theorem stepAsSaid_iff {k k' : Kernel} {e : BufferEvent} (hstep : bufferStep fs k e k') :
    StepAsSaid k e k' ↔ StepClean k e := by
  cases e with
  | key residue irqFlags raw =>
    subst hstep
    refine forall_congr' fun hediting => ?_
    rw [processSentScancode_edits hediting, editedByTerminals, Function.update_self]
    exact keyEdits_asSaid_iff hediting _
  | start t => exact Iff.rfl
  | drain t => exact Iff.rfl
  | other => exact Iff.rfl

/-- In every run every key edits the line as said, exactly when every key finds it in a
state that it edits cleanly. -/
theorem line_editing (fs : Fs) (k : Kernel) (p : List (BufferEvent × Kernel))
    (hp : Runs.Path (bufferStep fs) k.initKbd p) :
    Runs.Path StepAsSaid k.initKbd p ↔ Runs.Meets StepClean k.initKbd p :=
  Runs.path_iff_meets (fun _ _ _ hstep => stepAsSaid_iff hstep) hp

@[irreducible] def keyed (k : Kernel) (raw : UInt8) : Kernel :=
  (k.processSentScancode shellFs zeroResidue 0#32 raw).kernel

theorem keyed_step (k : Kernel) (raw : UInt8) :
    bufferStep shellFs k (.key zeroResidue 0#32 raw) (keyed k raw) := by
  rw [keyed]
  rfl

@[irreducible] def waitingKernel : Kernel := bootKernel.initKbd.readTerminalStart 0

/-- The keys A, B and Backspace, pressed in turn, the release of Backspace, and Enter. -/
def editedLine : List (BufferEvent × Kernel) :=
  let k₁ := keyed waitingKernel 0x1E
  let k₂ := keyed k₁ 0x30
  let k₃ := keyed k₂ BACKSPACE_PRESS
  let k₄ := keyed k₃ 0x8E
  [(.start 0, waitingKernel), (.key zeroResidue 0#32 0x1E, k₁), (.key zeroResidue 0#32 0x30, k₂),
    (.key zeroResidue 0#32 BACKSPACE_PRESS, k₃), (.key zeroResidue 0#32 0x8E, k₄),
    (.key zeroResidue 0#32 ENTER_PRESS, keyed k₄ ENTER_PRESS)]

/-- The line that they leave is `a`. -/
theorem line_editing_a : Runs.Path StepAsSaid bootKernel.initKbd editedLine ∧
    (List.range 3).map ((Runs.final bootKernel.initKbd editedLine).terminals 0).stdin =
      [97, NEW_LINE, NULL_CHAR] := by
  have hstart : bufferStep shellFs bootKernel.initKbd (.start 0) waitingKernel := by
    rw [waitingKernel]
    rfl
  have hpath : Runs.Path (bufferStep shellFs) bootKernel.initKbd editedLine :=
    ⟨hstart, keyed_step _ _, keyed_step _ _, keyed_step _ _, keyed_step _ _, keyed_step _ _, trivial⟩
  refine ⟨(line_editing shellFs bootKernel editedLine hpath).mpr ?_, by decide +kernel⟩
  -- Backspace is not held when the letters and Enter come, and the line begins with an `a` then
  have hfirst : isOn waitingKernel.keyboardState BACKSPACE_MASK = false := by decide +kernel
  have hsecond : isOn (keyed waitingKernel 0x1E).keyboardState BACKSPACE_MASK = false := by
    decide +kernel
  have hlast : let k := keyed (keyed (keyed (keyed waitingKernel 0x1E) 0x30) BACKSPACE_PRESS) 0x8E
      isOn k.keyboardState BACKSPACE_MASK = false ∧ (k.terminals k.terminalState).stdin 0 ≠ NEW_LINE := by
    decide +kernel
  refine ⟨trivial, fun _ => editsCleanly_of_ne (by decide) fun hb => ?_,
    fun _ => editsCleanly_of_ne (by decide) fun hb => ?_,
    fun _ => editsCleanly_of_ne (by decide) fun hb => hb.2.2.1 rfl,
    fun _ => editsCleanly_of_ne (by decide) fun hb => absurd hb.2.1.2 (by decide),
    fun _ => ⟨fun hb => ?_, fun _ _ _ _ => Or.inr (Or.inl hlast.2)⟩, trivial⟩
  · exact absurd (hfirst.symm.trans hb.1) Bool.false_ne_true
  · exact absurd (hsecond.symm.trans hb.1) Bool.false_ne_true
  · exact absurd (hlast.1.symm.trans hb.1) Bool.false_ne_true

/-- The keys A, B and Backspace, pressed in turn, and Backspace not released. -/
def backspaceDown : List (BufferEvent × Kernel) :=
  let k₁ := (bootKernel.initKbd.processSentScancode shellFs zeroResidue 0#32 0x1E).kernel
  let k₂ := (k₁.processSentScancode shellFs zeroResidue 0#32 0x30).kernel
  let k₃ := (k₂.processSentScancode shellFs zeroResidue 0#32 0x0E).kernel
  [(.key zeroResidue 0#32 0x1E, k₁), (.key zeroResidue 0#32 0x30, k₂),
    (.key zeroResidue 0#32 0x0E, k₃)]

/-- Shift, pressed next, erases the A. -/
theorem shift_erases : ∃ k', Runs.Path (bufferStep shellFs) bootKernel.initKbd
      (backspaceDown ++ [(.key zeroResidue 0#32 0x2A, k')]) ∧
    ¬ Runs.Path StepAsSaid bootKernel.initKbd
      (backspaceDown ++ [(.key zeroResidue 0#32 0x2A, k')]) := by
  have hdown : Runs.Path (bufferStep shellFs) bootKernel.initKbd backspaceDown := by
    unfold backspaceDown
    exact ⟨rfl, rfl, rfl, trivial⟩
  refine ⟨_, Runs.path_append.mpr ⟨hdown, rfl, trivial⟩, ?_⟩
  intro h
  have hshift := (Runs.path_append.mp h).2.1
  rcases (hshift (by decide +kernel)).shortens (by decide +kernel) with ⟨hraw, -⟩ | ⟨hraw, -⟩
  · exact absurd hraw (by decide)
  · exact absurd hraw (by decide)

end Runs

end SnoopDos
