import SnoopDos.Proofs.Pids
import SnoopDos.Spec.Keyboard

/-! The key handler by its cases. While neither Ctrl nor Alt is down and Backspace
is not held, a key edits the line of the visible terminal: it appends a character,
erases the last one, ends the line, or does nothing. -/

namespace SnoopDos

/-- The effect of a key on the line being typed. -/
inductive Edit
  | none
  | append (c : UInt8)
  | erase
  | enter

namespace Terminal

variable (t : Terminal)

def append (c : UInt8) : Terminal :=
  { t with
    stdin := Function.update (Function.update t.stdin t.stdinIndex c) (t.stdinIndex + 1) NULL_CHAR
    stdinIndex := t.stdinIndex + 1 }

def erase : Terminal :=
  { t with
    stdin := Function.update t.stdin (t.stdinIndex - 1) NULL_CHAR
    stdinIndex := t.stdinIndex - 1 }

/-- The end of a line that a read is waiting for. -/
def release : Terminal :=
  { t with
    stdin := if t.stdin 0 = NEW_LINE then Function.update t.stdin 1 NULL_CHAR else t.stdin
    allowedToRead := true }

/-- The end of a line that no read is waiting for. -/
def discard : Terminal :=
  { t with
    stdin := fun i => if i < KEYBOARD_BUFF_SIZE then NULL_CHAR else t.stdin i
    stdinIndex := 0
    allowedToRead := false }

def edited : Edit → Terminal
  | .none => t
  | .append c => t.append c
  | .erase => t.erase
  | .enter => if t.readWaiting then (t.append NEW_LINE).release else (t.append NEW_LINE).discard

theorem edited_pid (edit : Edit) : (t.edited edit).pid = t.pid := by
  cases edit with
  | enter =>
    simp only [edited]
    split_ifs <;> rfl
  | _ => rfl

end Terminal

/-- The key is handled with neither Ctrl nor Alt down, and Backspace down only if
it is the key itself. -/
def Plain (state : Word) (raw : UInt8) : Prop :=
  let state := updateKeyboardState state raw
  isOn state ALT_MASK = false ∧ isOn state CONTROL_MASK = false ∧
    (isOn state BACKSPACE_MASK = true → raw = BACKSPACE_PRESS)

instance (state : Word) (raw : UInt8) : Decidable (Plain state raw) :=
  inferInstanceAs (Decidable (_ ∧ _ ∧ (_ → _)))

/-- The edit a plain key makes when the index of the line is `stdinIndex`. -/
def editOf (state : Word) (stdinIndex : ℕ) (raw : UInt8) : Edit :=
  let state := updateKeyboardState state raw
  let mapped := scancodeTable raw
  if raw = DELETE_SCAN_CODE ∨ ¬ mapped.isMake then .none
  else if isOn state BACKSPACE_MASK then if 0 < stdinIndex then .erase else .none
  else if mapped.result = NEW_LINE ∧ stdinIndex < KEYBOARD_BUFF_SIZE - 1 then .enter
  else if KEYBOARD_BUFF_SIZE - NULL_NL_PADDING ≤ stdinIndex then .none
  else
    match mappedChar state mapped with
    | some c => .append c
    | none => .none

/-- What the limits of the line buffer leave of an edit. -/
def Edit.Valid (stdinIndex : ℕ) : Edit → Prop
  | .none => True
  | .append c => stdinIndex < KEYBOARD_BUFF_SIZE - NULL_NL_PADDING ∧ c ≠ NULL_CHAR ∧ c ≠ NEW_LINE
  | .erase => 0 < stdinIndex
  | .enter => stdinIndex < KEYBOARD_BUFF_SIZE - 1

section Tables

theorem lookupCode_eq_some {base raw : UInt8} {rows : List (UInt8 × List (UInt8 × UInt8))}
    {s : Scancode} (h : lookupCode base rows raw = some s) :
    ∃ row ∈ rows, ∃ result, (raw, result) ∈ row.2 ∧ s = ⟨result, base ||| row.1⟩ := by
  obtain ⟨row, hrow, hs⟩ := List.exists_of_findSome?_eq_some h
  obtain ⟨result, hresult, rfl⟩ := Option.map_eq_some_iff.mp hs
  obtain ⟨before, after, hcodes, -⟩ := List.lookup_eq_some_iff.mp hresult
  refine ⟨row, hrow, result, ?_, rfl⟩
  rw [hcodes]
  exact List.mem_append_right _ List.mem_cons_self

/-- What holds of every entry that is assigned, and of zero, holds of the table. -/
theorem scancodeTable_induction {P : UInt8 → Scancode → Prop} [∀ raw s, Decidable (P raw s)]
    (raw : UInt8) (hzero : P raw ⟨0, 0⟩)
    (hmake : makeCodes.all fun row => row.2.all fun code =>
      P code.1 ⟨code.2, SCANCODE_MAKE ||| row.1⟩)
    (hbreak : breakCodes.all fun row => row.2.all fun code =>
      P code.1 ⟨code.2, SCANCODE_BREAK ||| row.1⟩) : P raw (scancodeTable raw) := by
  have hentry {base : UInt8} {rows : List (UInt8 × List (UInt8 × UInt8))} {s : Scancode}
      (hall : rows.all fun row => row.2.all fun code => P code.1 ⟨code.2, base ||| row.1⟩)
      (hs : lookupCode base rows raw = some s) : P raw s := by
    obtain ⟨row, hrow, result, hcode, rfl⟩ := lookupCode_eq_some hs
    exact of_decide_eq_true
      (List.all_eq_true.mp (List.all_eq_true.mp hall row hrow) (raw, result) hcode)
  rw [scancodeTable]
  cases hm : lookupCode SCANCODE_MAKE makeCodes raw with
  | some s => exact hentry hmake hm
  | none =>
    cases hb : lookupCode SCANCODE_BREAK breakCodes raw with
    | some s => exact hentry hbreak hb
    | none => exact hzero

/-- An entry gives characters that may stand in a line. -/
def Scancode.Typable (s : Scancode) : Prop :=
  (s.isLetter → s.result - ASCII_SHIFT_VAL ≠ NULL_CHAR ∧ s.result - ASCII_SHIFT_VAL ≠ NEW_LINE) ∧
    (s.isPrintable → s.result ≠ NULL_CHAR) ∧ nonAlphaShiftTable s.result ≠ NEW_LINE

instance (s : Scancode) : Decidable s.Typable := by
  unfold Scancode.Typable
  infer_instance

theorem scancodeTable_typable (raw : UInt8) : (scancodeTable raw).Typable :=
  scancodeTable_induction (P := fun _ s => s.Typable) raw (by decide) (by decide) (by decide)

/-- A key that does not end the line gives a character that may stand in it. -/
theorem mappedChar_ne {state : Word} {raw c : UInt8} (hnl : (scancodeTable raw).result ≠ NEW_LINE)
    (h : mappedChar state (scancodeTable raw) = some c) : c ≠ NULL_CHAR ∧ c ≠ NEW_LINE := by
  obtain ⟨hletter, hprintable, hshift⟩ := scancodeTable_typable raw
  simp only [mappedChar] at h
  split_ifs at h with h₁ h₂ h₃ h₄ h₅ h₆ h₇ h₈ <;> simp only [Option.some.injEq] at h <;> subst h
  · exact hletter h₂
  · exact ⟨hprintable h₃, hnl⟩
  · exact hletter (by simp_all)
  · exact ⟨h₇, hshift⟩
  · exact ⟨hprintable ‹_›, hnl⟩
  · exact ⟨hprintable ‹_›, hnl⟩

theorem mappedChar_backspace (state : Word) :
    mappedChar state (scancodeTable BACKSPACE_PRESS) = none := by
  have h : (scancodeTable BACKSPACE_PRESS).isLetter = false ∧
      (scancodeTable BACKSPACE_PRESS).isPrintable = false := by decide
  simp [mappedChar, h.1, h.2]

theorem editOf_valid (state : Word) (stdinIndex : ℕ) (raw : UInt8) :
    (editOf state stdinIndex raw).Valid stdinIndex := by
  simp only [editOf]
  split_ifs with hignored hback hpos henter hfull
  · trivial
  · exact hpos
  · trivial
  · exact henter.2
  · trivial
  · cases hc : mappedChar (updateKeyboardState state raw) (scancodeTable raw) with
    | none => trivial
    | some c =>
      refine ⟨not_le.mp hfull, mappedChar_ne (fun hnl => henter ⟨hnl, ?_⟩) hc⟩
      simp only [KEYBOARD_BUFF_SIZE, NULL_NL_PADDING] at *
      omega

end Tables

namespace Kernel

variable (k : Kernel)

/-- Only the screen, its colours and the lines and cursors of terminals differ. -/
def Drawn (k' : Kernel) : Prop :=
  ∃ mem x y colours kbdAttribute kbdBackAttribute terminals,
    k' = { k with
      mem := mem
      screenX := x
      screenY := y
      currAttribute := colours
      kbdAttribute := kbdAttribute
      kbdBackAttribute := kbdBackAttribute
      terminals := terminals } ∧
    ∀ t, (terminals t).pid = (k.terminals t).pid

variable {k} in
theorem Drawn.trans {k' k'' : Kernel} (h : k.Drawn k') (h' : k'.Drawn k'') : k.Drawn k'' := by
  obtain ⟨_, _, _, _, _, _, _, rfl, hpid⟩ := h
  obtain ⟨_, _, _, _, _, _, _, rfl, hpid'⟩ := h'
  exact ⟨_, _, _, _, _, _, _, rfl, fun t => (hpid' t).trans (hpid t)⟩

theorem Drawn.refl : k.Drawn k := ⟨_, _, _, _, _, _, _, rfl, fun _ => rfl⟩

theorem setScreen_drawn (s : Screen (Addr → UInt8)) : k.Drawn (k.setScreen s) :=
  ⟨_, _, _, _, _, _, _, rfl, fun _ => rfl⟩

theorem setTerminal_drawn (t : ℕ) {f : Terminal → Terminal} (hf : ∀ u, (f u).pid = u.pid) :
    k.Drawn (k.setTerminal t f) :=
  ⟨_, _, _, _, _, _, _, rfl, fun i => setTerminal_pid hf i⟩

theorem saveScreenXY_drawn (t : ℕ) : k.Drawn (k.saveScreenXY t) :=
  k.setTerminal_drawn t fun _ => rfl

theorem putcKbd_drawn (c : UInt8) : k.Drawn (k.putcKbd c) := k.setScreen_drawn _

theorem appendStdin_drawn (c : UInt8) : k.Drawn (k.appendStdin c) :=
  k.setTerminal_drawn _ fun _ => rfl

theorem backspaceKey_drawn : k.Drawn k.backspaceKey := by
  rw [backspaceKey]
  split_ifs
  · exact (k.putcKbd_drawn BKSP_CHAR).trans (setTerminal_drawn _ _ fun _ => rfl)
  · exact Drawn.refl k

theorem setTerminal_setTerminal (t : ℕ) (f g : Terminal → Terminal) :
    (k.setTerminal t f).setTerminal t g = k.setTerminal t fun u => g (f u) := by
  simp [setTerminal]

theorem enterKey_eq : k.enterKey =
    (k.putcKbd NEW_LINE).setTerminal k.terminalState (Terminal.edited · .enter) :=
  (k.putcKbd NEW_LINE).setTerminal_setTerminal k.terminalState (Terminal.append · NEW_LINE)
    fun u => if u.readWaiting then u.release else u.discard

theorem enterKey_drawn : k.Drawn k.enterKey := by
  rw [enterKey_eq]
  exact (k.putcKbd_drawn NEW_LINE).trans (setTerminal_drawn _ _ fun u => u.edited_pid .enter)

theorem typeKey_drawn (mapped : Scancode) : k.Drawn (k.typeKey mapped) := by
  rw [typeKey]
  split_ifs
  · exact Drawn.refl k
  · cases mappedChar k.keyboardState mapped with
    | none => exact Drawn.refl k
    | some c => exact (k.putcKbd_drawn c).trans (appendStdin_drawn _ c)

/-- The lines of all terminals after an edit of the visible one. -/
def editedTerminals (edit : Edit) : ℕ → Terminal :=
  Function.update k.terminals k.terminalState ((k.terminals k.terminalState).edited edit)

@[simp] theorem editedTerminals_none : k.editedTerminals .none = k.terminals :=
  Function.update_eq_self _ _

theorem backspaceKey_terminals : k.backspaceKey.terminals =
    k.editedTerminals (if 0 < (k.terminals k.terminalState).stdinIndex then .erase else .none) := by
  rw [backspaceKey]
  split_ifs
  · rfl
  · exact k.editedTerminals_none.symm

theorem typeKey_terminals (mapped : Scancode) : (k.typeKey mapped).terminals =
    k.editedTerminals
      (if KEYBOARD_BUFF_SIZE - NULL_NL_PADDING ≤ (k.terminals k.terminalState).stdinIndex then .none
      else match mappedChar k.keyboardState mapped with
        | some c => .append c
        | none => .none) := by
  rw [typeKey]
  split_ifs
  · exact k.editedTerminals_none.symm
  · cases mappedChar k.keyboardState mapped with
    | none => exact k.editedTerminals_none.symm
    | some c => rfl

theorem typeKey_backspace : k.typeKey (scancodeTable BACKSPACE_PRESS) = k := by
  rw [typeKey, mappedChar_backspace]
  exact ite_self k

/-- The state in which a make code is dispatched. -/
def pressed (raw : UInt8) : Kernel :=
  { k with keyboardState := updateKeyboardState k.keyboardState raw }.loadTerminalDirectory
    k.terminalState

/-- What a make code does when neither Ctrl nor Alt is down. -/
def plainKey (mapped : Scancode) : Kernel :=
  if isOn k.keyboardState BACKSPACE_MASK then (k.backspaceKey.typeKey mapped).switchTerminalContext
  else if mapped.result = NEW_LINE ∧
      (k.terminals k.terminalState).stdinIndex < KEYBOARD_BUFF_SIZE - 1 then
    k.enterKey.switchTerminalContext
  else (k.typeKey mapped).switchTerminalContext

theorem plainKey_drawn (mapped : Scancode) :
    ∃ k', k.Drawn k' ∧ k.plainKey mapped = k'.switchTerminalContext := by
  rw [plainKey]
  split_ifs
  · exact ⟨_, k.backspaceKey_drawn.trans (k.backspaceKey.typeKey_drawn mapped), rfl⟩
  · exact ⟨_, k.enterKey_drawn, rfl⟩
  · exact ⟨_, k.typeKey_drawn mapped, rfl⟩

theorem plainKey_terminalState (mapped : Scancode) :
    (k.plainKey mapped).terminalState = k.terminalState ∧
      (k.plainKey mapped).keyboardState = k.keyboardState := by
  obtain ⟨k', hdrawn, hk⟩ := k.plainKey_drawn mapped
  obtain ⟨_, _, _, _, _, _, _, rfl, -⟩ := hdrawn
  rw [hk]
  exact ⟨rfl, rfl⟩

theorem plainKey_terminals {raw : UInt8}
    (hback : isOn k.keyboardState BACKSPACE_MASK = true → raw = BACKSPACE_PRESS) :
    (k.plainKey (scancodeTable raw)).terminals = k.editedTerminals
      (if isOn k.keyboardState BACKSPACE_MASK then
        if 0 < (k.terminals k.terminalState).stdinIndex then .erase else .none
      else if (scancodeTable raw).result = NEW_LINE ∧
          (k.terminals k.terminalState).stdinIndex < KEYBOARD_BUFF_SIZE - 1 then .enter
      else if KEYBOARD_BUFF_SIZE - NULL_NL_PADDING ≤ (k.terminals k.terminalState).stdinIndex then
        .none
      else match mappedChar k.keyboardState (scancodeTable raw) with
        | some c => .append c
        | none => .none) := by
  rw [plainKey]
  by_cases hbs : isOn k.keyboardState BACKSPACE_MASK = true
  · obtain rfl := hback hbs
    rw [if_pos hbs, if_pos hbs, typeKey_backspace]
    exact k.backspaceKey_terminals
  · rw [if_neg hbs, if_neg hbs]
    by_cases henter : (scancodeTable raw).result = NEW_LINE ∧
        (k.terminals k.terminalState).stdinIndex < KEYBOARD_BUFF_SIZE - 1
    · rw [if_pos henter, if_pos henter, enterKey_eq]
      rfl
    · rw [if_neg henter, if_neg henter]
      exact k.typeKey_terminals _

section Dispatch

variable (fs : Fs) (residue : Residue) (irqFlags : Word) {raw : UInt8}

theorem processSentScancode_ignored (h : raw = DELETE_SCAN_CODE ∨ ¬ (scancodeTable raw).isMake) :
    k.processSentScancode fs residue irqFlags raw =
      .returned { k with keyboardState := updateKeyboardState k.keyboardState raw } := by
  by_cases hdel : raw = DELETE_SCAN_CODE
  · subst hdel
    rfl
  · exact (if_neg hdel).trans (if_pos (h.resolve_left hdel))

theorem processSentScancode_make (hdel : raw ≠ DELETE_SCAN_CODE)
    (hmake : (scancodeTable raw).isMake) :
    k.processSentScancode fs residue irqFlags raw =
      if isOn (updateKeyboardState k.keyboardState raw) ALT_MASK then
        (k.pressed raw).altKey fs residue irqFlags (scancodeTable raw)
      else if isOn (updateKeyboardState k.keyboardState raw) CONTROL_MASK then
        .returned ((k.pressed raw).ctrlKey (scancodeTable raw))
      else .returned ((k.pressed raw).plainKey (scancodeTable raw)) := by
  refine (if_neg hdel).trans ((if_neg (not_not.mpr hmake)).trans ?_)
  refine if_congr Iff.rfl rfl (if_congr Iff.rfl rfl ?_)
  simp only [plainKey, ← apply_ite KeyResult.returned]
  rfl

/-- A plain key returns, and edits the line of the visible terminal. -/
theorem processSentScancode_plain (hplain : Plain k.keyboardState raw) :
    ∃ k', k.processSentScancode fs residue irqFlags raw = .returned k' ∧
      k'.terminalState = k.terminalState ∧
      k'.keyboardState = updateKeyboardState k.keyboardState raw ∧
      k'.terminals = k.editedTerminals
        (editOf k.keyboardState (k.terminals k.terminalState).stdinIndex raw) := by
  obtain ⟨halt, hctrl, hback⟩ := hplain
  by_cases hignored : raw = DELETE_SCAN_CODE ∨ ¬ (scancodeTable raw).isMake
  · exact ⟨_, k.processSentScancode_ignored fs residue irqFlags hignored, rfl, rfl,
      by rw [editOf, if_pos hignored, editedTerminals_none]⟩
  · obtain ⟨hdel, hmake⟩ := not_or.mp hignored
    obtain ⟨hvisible, hstate⟩ := (k.pressed raw).plainKey_terminalState (scancodeTable raw)
    rw [k.processSentScancode_make fs residue irqFlags hdel (not_not.mp hmake), halt, hctrl]
    simp only [Bool.false_eq_true, if_false]
    refine ⟨_, rfl, hvisible, hstate, ?_⟩
    rw [editOf, if_neg hignored]
    exact (k.pressed raw).plainKey_terminals hback

end Dispatch

end Kernel

end SnoopDos
