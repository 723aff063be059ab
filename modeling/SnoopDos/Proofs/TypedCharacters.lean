import SnoopDos.Proofs.LineEditing

/-! The character that a key types. It is decided by the key and by the history of the
modifier keys: which of the two Shift keys is down, and how often Caps Lock was pressed. -/

namespace SnoopDos

open Kernel

section History

/-- `keyboard_state` after a history of scancodes. -/
def stateAfter (history : List UInt8) : Word := history.foldl updateKeyboardState 0#32

/-- The last of the make and break codes of a modifier was a make code. -/
def Modifier.Held (m : Modifier) (history : List UInt8) : Prop :=
  (history.filter fun raw => raw = m.press ∨ raw = m.release).getLast? = some m.press

/-- Shift is down, on one side or the other. -/
def ShiftHeld (history : List UInt8) : Prop :=
  Modifier.shift.Held history ∨ Modifier.rShift.Held history

/-- Caps Lock was pressed an odd number of times. -/
def CapsOdd (history : List UInt8) : Prop := Odd (history.count CAPS_LOCK_PRESS)

instance (history : List UInt8) : Decidable (ShiftHeld history) :=
  inferInstanceAs (Decidable (_ = _ ∨ _ = _))

instance (history : List UInt8) : Decidable (CapsOdd history) :=
  inferInstanceAs (Decidable (Odd _))

theorem stateAfter_concat (history : List UInt8) (raw : UInt8) :
    stateAfter (history ++ [raw]) = updateKeyboardState (stateAfter history) raw := by
  unfold stateAfter
  rw [List.foldl_append, List.foldl_cons, List.foldl_nil]

theorem Modifier.held_concat {m : Modifier} (hne : m.press ≠ m.release) (history : List UInt8)
    (raw : UInt8) :
    m.Held (history ++ [raw]) ↔ raw = m.press ∨ raw ≠ m.release ∧ m.Held history := by
  unfold Modifier.Held
  rw [List.filter_append]
  by_cases hkey : raw = m.press ∨ raw = m.release
  · have hlast : ([raw].filter fun raw => raw = m.press ∨ raw = m.release) = [raw] :=
      List.filter_eq_self.mpr fun r hr => by
        rw [List.mem_singleton.mp hr]
        exact decide_eq_true hkey
    rw [hlast, List.getLast?_concat, Option.some.injEq]
    rcases hkey with rfl | rfl
    · exact iff_of_true rfl (Or.inl rfl)
    · exact iff_of_false hne.symm fun h => h.elim hne.symm fun h => h.1 rfl
  · have hnone : ([raw].filter fun raw => raw = m.press ∨ raw = m.release) = [] :=
      List.filter_eq_nil_iff.mpr fun r hr => by
        rw [List.mem_singleton.mp hr]
        exact fun h => hkey (of_decide_eq_true h)
    obtain ⟨hpress, hrelease⟩ := not_or.mp hkey
    rw [hnone, List.append_nil]
    exact ⟨fun h => Or.inr ⟨hrelease, h⟩, fun h => (h.resolve_left hpress).2⟩

theorem isOn_stateAfter {m : Modifier} (hm : m ∈ Modifier.all) (history : List UInt8) :
    isOn (stateAfter history) m.mask = true ↔ m.Held history := by
  have hne : m.press ≠ m.release := ((modifiers_distinct m hm).2 m hm).2.2.2
  induction history using List.reverseRecOn with
  | nil =>
    have hzero : isOn 0#32 m.mask = false := by
      rw [isOn, BitVec.zero_and]
      rfl
    exact iff_of_false (by rw [stateAfter, List.foldl_nil, hzero]; decide) (by simp [Modifier.Held])
  | append_singleton history raw ih =>
    rw [stateAfter_concat, isOn_updateKeyboardState hm, Modifier.held_concat hne]
    exact or_congr Iff.rfl (and_congr Iff.rfl ih)

/-- The bit of Caps Lock says whether it was pressed an odd number of times. -/
theorem isOn_caps_stateAfter (history : List UInt8) :
    isOn (stateAfter history) CAPS_LOCK_MASK = true ↔ CapsOdd history := by
  unfold CapsOdd
  induction history using List.reverseRecOn with
  | nil => decide
  | append_singleton history raw ih =>
    rw [stateAfter_concat, isOn_caps_updateKeyboardState, ih, List.count_append]
    by_cases hcaps : raw = CAPS_LOCK_PRESS
    · rw [hcaps, List.count_singleton_self, Nat.odd_add_one]
      simp
    · rw [List.count_singleton, if_neg (by simpa using hcaps), Nat.add_zero]
      simp [hcaps]

end History

section Characters

def IsUpper (c : UInt8) : Prop := 65 ≤ c ∧ c ≤ 90

instance (c : UInt8) : Decidable (IsUpper c) := inferInstanceAs (Decidable (_ ∧ _))

/-- The character that a printable key types. -/
def typedChar (caps shift : Bool) (mapped : Scancode) : UInt8 :=
  if mapped.isLetter then
    if caps ≠ shift then mapped.result - ASCII_SHIFT_VAL else mapped.result
  else if shift ∧ nonAlphaShiftTable mapped.result ≠ 0 then nonAlphaShiftTable mapped.result
  else mapped.result

/-- The letters are lower case in the table, and printable. -/
def Scancode.LetterLower (s : Scancode) : Prop :=
  s.isLetter = true → s.isPrintable = true ∧ ¬ IsUpper s.result ∧ IsUpper (s.result - ASCII_SHIFT_VAL) ∧
    nonAlphaShiftTable s.result = 0

instance (s : Scancode) : Decidable s.LetterLower := by
  unfold Scancode.LetterLower
  infer_instance

theorem scancodeTable_letterLower (raw : UInt8) : (scancodeTable raw).LetterLower :=
  scancodeTable_induction (P := fun _ s => s.LetterLower) raw (by decide) (by decide) (by decide)

theorem mappedChar_printable (state : Word) (raw : UInt8)
    (hprintable : (scancodeTable raw).isPrintable = true) :
    mappedChar state (scancodeTable raw) = some (typedChar (isOn state CAPS_LOCK_MASK)
      (isOn state SHIFT_MASK || isOn state R_SHIFT_MASK) (scancodeTable raw)) := by
  have hlower := scancodeTable_letterLower raw
  unfold mappedChar typedChar
  generalize scancodeTable raw = s at *
  cases hletter : s.isLetter with
  | true =>
    obtain ⟨-, -, -, hshift⟩ := hlower hletter
    cases isOn state CAPS_LOCK_MASK <;> cases isOn state SHIFT_MASK <;>
      cases isOn state R_SHIFT_MASK <;> simp [hprintable, hshift]
  | false =>
    cases isOn state CAPS_LOCK_MASK <;> cases isOn state SHIFT_MASK <;>
      cases isOn state R_SHIFT_MASK <;> simp [hprintable]
    all_goals split_ifs <;> rfl

end Characters

section Runs

/-- What can happen to `keyboard_state`. Everything but keys leaves it alone, and may
change all the rest. -/
inductive TypingEvent
  | key (residue : Residue) (irqFlags : Word) (raw : UInt8)
  | other

def typingStep (fs : Fs) (k : Kernel) : TypingEvent → Kernel → Prop
  | .key residue irqFlags raw, k' => k' = (k.processSentScancode fs residue irqFlags raw).kernel
  | .other, k' => k'.keyboardState = k.keyboardState

def TypingEvent.scancode : TypingEvent → Option UInt8
  | .key _ _ raw => some raw
  | .other => none

def scancodes (p : List (TypingEvent × Kernel)) : List UInt8 := p.filterMap fun x => x.1.scancode

theorem launch_keyboardState (k : Kernel) (fs : Fs) (residue : Residue) (irqFlags : Word) (toT : ℕ) :
    (k.launch fs residue irqFlags toT).kernel.keyboardState = k.keyboardState := by
  have hlaunching : (k.launching irqFlags toT).keyboardState = k.keyboardState := by
    obtain ⟨P, hk, -⟩ := k.changeTerminalState_spec k.terminalState toT
    unfold launching
    rw [hk]
    rfl
  unfold launch
  rcases (k.launching irqFlags toT).executeShell_cases fs residue with
    hfailed | ⟨pid, k', entryPoint, hstarts, hstarted⟩
  · obtain ⟨pcbs, hpro⟩ := (k.launching irqFlags toT).executePrologue_frame
    rw [hfailed, hpro]
    exact hlaunching
  · obtain ⟨args, mem, rfl⟩ := hstarts.eq
    rw [hstarted]
    exact hlaunching

theorem processSentScancode_keyboardState (k : Kernel) (fs : Fs) (residue : Residue)
    (irqFlags : Word) (raw : UInt8) :
    (k.processSentScancode fs residue irqFlags raw).kernel.keyboardState =
      updateKeyboardState k.keyboardState raw := by
  have hhandled := k.processSentScancode_handled fs residue irqFlags raw
  generalize k.processSentScancode fs residue irqFlags raw = r at hhandled ⊢
  cases hhandled with
  | ignored h => rfl
  | drawn h =>
    obtain ⟨_, _, _, _, _, _, _, rfl, -⟩ := h
    rfl
  | @switches toT h =>
    obtain ⟨P, hk, -⟩ := ((k.pressed raw).setInterruptFlag false).changeTerminalState_spec
      k.terminalState toT
    rw [hk]
    rfl
  | launches h => exact launch_keyboardState _ fs residue irqFlags _

/-- After a run `keyboard_state` is what the scancodes of the run make of it. -/
theorem keyboardState_final {fs : Fs} {k : Kernel} {p : List (TypingEvent × Kernel)}
    (hp : Runs.Path (typingStep fs) k p) :
    (Runs.final k p).keyboardState = (scancodes p).foldl updateKeyboardState k.keyboardState := by
  induction p generalizing k with
  | nil => rfl
  | cons x p ih =>
    obtain ⟨e, k'⟩ := x
    obtain ⟨hstep, hrest⟩ := hp
    have hfinal := ih hrest
    cases e with
    | key residue irqFlags raw =>
      rw [show k' = _ from hstep, processSentScancode_keyboardState] at hfinal
      rw [show k' = _ from hstep]
      exact hfinal
    | other =>
      rw [show k'.keyboardState = _ from hstep] at hfinal
      exact hfinal

theorem updateKeyboardState_printable {raw : UInt8}
    (hprintable : (scancodeTable raw).isPrintable = true) (state : Word) :
    updateKeyboardState state raw = state := by
  have hnot : ∀ m ∈ Modifier.all, (scancodeTable m.press).isPrintable = false ∧
      (scancodeTable m.release).isPrintable = false := by decide
  have hcaps : (scancodeTable CAPS_LOCK_PRESS).isPrintable = false := by decide
  rcases updateKeyboardState_cases state raw with ⟨m, hm, rfl, -⟩ | ⟨m, hm, rfl, -⟩ | ⟨rfl, -⟩ | h
  · exact absurd (hprintable.symm.trans (hnot m hm).1) (by decide)
  · exact absurd (hprintable.symm.trans (hnot m hm).2) (by decide)
  · exact absurd (hprintable.symm.trans hcaps) (by decide)
  · exact h.2.2

theorem processSentScancode_types (k : Kernel) (fs : Fs) (residue : Residue) (irqFlags : Word)
    {raw : UInt8} (hprintable : (scancodeTable raw).isPrintable = true)
    (hmake : (scancodeTable raw).isMake = true) (henter : raw ≠ ENTER_PRESS)
    (hediting : Editing k.keyboardState) (hback : isOn k.keyboardState BACKSPACE_MASK = false)
    (hroom : (k.terminals k.terminalState).stdinIndex < KEYBOARD_BUFF_SIZE - NULL_NL_PADDING) :
    k.processSentScancode fs residue irqFlags raw =
      let c := typedChar (isOn k.keyboardState CAPS_LOCK_MASK)
        (isOn k.keyboardState SHIFT_MASK || isOn k.keyboardState R_SHIFT_MASK) (scancodeTable raw)
      .returned (((k.pressed raw).putcKbd c).appendStdin c).switchTerminalContext := by
  have hdel : raw ≠ DELETE_SCAN_CODE := by
    rintro rfl
    exact absurd hprintable (by decide)
  have hstate := updateKeyboardState_printable hprintable k.keyboardState
  have hpressed : (k.pressed raw).keyboardState = k.keyboardState := hstate
  have hnl : ¬ ((scancodeTable raw).result = NEW_LINE ∧
      ((k.pressed raw).terminals (k.pressed raw).terminalState).stdinIndex <
        KEYBOARD_BUFF_SIZE - 1) :=
    fun h => henter (result_newLine raw hdel hmake h.1)
  have hroom : ¬ KEYBOARD_BUFF_SIZE - NULL_NL_PADDING ≤
      ((k.pressed raw).terminals (k.pressed raw).terminalState).stdinIndex := not_le.mpr hroom
  rw [k.processSentScancode_make fs residue irqFlags hdel hmake, hstate, hediting.1, hediting.2]
  simp only [Bool.false_eq_true, if_false]
  rw [plainKey, hpressed, hback, if_neg Bool.false_ne_true, if_neg hnl, typeKey, if_neg hroom,
    hpressed, mappedChar_printable _ raw hprintable]

/-- The character of a key after a history of scancodes. -/
structure TypedAs (history : List UInt8) (raw c : UInt8) : Prop where
  letter : (scancodeTable raw).isLetter = true →
    (c = (scancodeTable raw).result ∨ c = (scancodeTable raw).result - ASCII_SHIFT_VAL) ∧
      (IsUpper c ↔ ¬ (CapsOdd history ↔ ShiftHeld history))
  symbol : (scancodeTable raw).isLetter = false →
    c = if ShiftHeld history ∧ nonAlphaShiftTable (scancodeTable raw).result ≠ 0 then
        nonAlphaShiftTable (scancodeTable raw).result
      else (scancodeTable raw).result

theorem typedChar_typedAs (history : List UInt8) (raw : UInt8) :
    TypedAs history raw (typedChar (isOn (stateAfter history) CAPS_LOCK_MASK)
      (isOn (stateAfter history) SHIFT_MASK || isOn (stateAfter history) R_SHIFT_MASK)
      (scancodeTable raw)) := by
  have hcaps := isOn_caps_stateAfter history
  have hshift : (isOn (stateAfter history) SHIFT_MASK ||
      isOn (stateAfter history) R_SHIFT_MASK) = true ↔ ShiftHeld history := by
    rw [Bool.or_eq_true]
    exact or_congr (isOn_stateAfter (m := .shift) (by decide) history)
      (isOn_stateAfter (m := .rShift) (by decide) history)
  have hlower := scancodeTable_letterLower raw
  generalize isOn (stateAfter history) CAPS_LOCK_MASK = caps at *
  generalize (isOn (stateAfter history) SHIFT_MASK ||
    isOn (stateAfter history) R_SHIFT_MASK) = shift at *
  have hxor : caps ≠ shift ↔ ¬ (CapsOdd history ↔ ShiftHeld history) := by
    rw [← hcaps, ← hshift, ← Bool.eq_iff_iff]
  unfold typedChar
  constructor
  · intro hletter
    obtain ⟨-, hplain, hupper, -⟩ := hlower hletter
    rw [if_pos hletter, ← hxor]
    split_ifs with hne
    · exact ⟨Or.inr rfl, iff_of_true hupper hne⟩
    · exact ⟨Or.inl rfl, iff_of_false hplain hne⟩
  · intro hletter
    rw [if_neg (by rw [hletter]; decide)]
    exact if_congr (and_congr hshift Iff.rfl) rfl rfl

/-- After any history, a printable key other than Enter types one character, and the
history of the modifiers says which. -/
theorem typed_characters (fs : Fs) (k₀ : Kernel) (hstart : k₀.keyboardState = 0#32)
    (p : List (TypingEvent × Kernel)) (hp : Runs.Path (typingStep fs) k₀ p) (residue : Residue)
    (irqFlags : Word) (raw : UInt8) (hprintable : (scancodeTable raw).isPrintable = true)
    (hmake : (scancodeTable raw).isMake = true) (henter : raw ≠ ENTER_PRESS) :
    let k := Runs.final k₀ p
    let u := k.terminals k.terminalState
    Editing k.keyboardState → isOn k.keyboardState BACKSPACE_MASK = false →
    u.stdinIndex < KEYBOARD_BUFF_SIZE - NULL_NL_PADDING →
    ∃ k' c, k.processSentScancode fs residue irqFlags raw = .returned k' ∧
      k'.terminals = Function.update k.terminals k.terminalState (u.append c) ∧
      k'.screen = putcScreen (k.pressed raw).videoBus k.currAttribute k.screen c ∧
      TypedAs (scancodes p) raw c := by
  intro k u hediting hback hroom
  have hstate : k.keyboardState = stateAfter (scancodes p) := by
    rw [stateAfter, ← hstart]
    exact keyboardState_final hp
  have htyped := typedChar_typedAs (scancodes p) raw
  rw [← hstate] at htyped
  exact ⟨_, _, processSentScancode_types k fs residue irqFlags hprintable hmake henter hediting
    hback hroom, rfl, rfl, htyped⟩

/-- The key A, with the right Shift down. -/
theorem typed_characters_a :
    ∃ k' c, (bootKernel.processSentScancode shellFs zeroResidue 0#32 0x36).kernel.processSentScancode
        shellFs zeroResidue 0#32 0x1E = .returned k' ∧ TypedAs [0x36] 0x1E c := by
  obtain ⟨k', c, hk', -, -, hc⟩ := typed_characters shellFs bootKernel rfl
    [(.key zeroResidue 0#32 0x36, _)] ⟨rfl, trivial⟩ zeroResidue 0#32 0x1E (by decide) (by decide)
    (by decide) (by decide +kernel) (by decide +kernel) (by decide +kernel)
  exact ⟨k', c, hk', hc⟩

end Runs

end SnoopDos
