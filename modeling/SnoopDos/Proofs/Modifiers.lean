import SnoopDos.Lib.Bitmap
import SnoopDos.Spec.Keyboard

/-! The modifier keys. A modifier is down from its make code to its break code, each
by its own bit of `keyboard_state`, and Caps Lock changes with every make code. -/

namespace SnoopDos

/-- A key that `keyboard_state` has down from its make code to its break code. -/
structure Modifier where
  bit : ℕ
  press : UInt8
  release : UInt8
  deriving DecidableEq

namespace Modifier

def mask (m : Modifier) : Word := 1#32 <<< m.bit

def shift : Modifier := ⟨0, 0x2A, 0xAA⟩
def control : Modifier := ⟨1, 0x1D, 0x9D⟩
def backspace : Modifier := ⟨3, 0x0E, 0x8E⟩
def rShift : Modifier := ⟨5, 0x36, 0xB6⟩
def alt : Modifier := ⟨6, 0x38, 0xB8⟩

def all : List Modifier := [shift, control, backspace, rShift, alt]

end Modifier

def CAPS_LOCK_PRESS : UInt8 := 0x3A

section Update

variable (state : Word) (raw : UInt8)

theorem updateKeyboardState_cases :
    (∃ m ∈ Modifier.all, raw = m.press ∧ updateKeyboardState state raw = state ||| m.mask) ∨
    (∃ m ∈ Modifier.all, raw = m.release ∧ updateKeyboardState state raw = state &&& ~~~m.mask) ∨
    (raw = CAPS_LOCK_PRESS ∧ updateKeyboardState state raw = state ^^^ 1#32 <<< 2) ∨
    (raw ≠ CAPS_LOCK_PRESS ∧ (∀ m ∈ Modifier.all, raw ≠ m.press ∧ raw ≠ m.release) ∧
      updateKeyboardState state raw = state) := by
  unfold updateKeyboardState
  split
  · exact Or.inl ⟨.backspace, by decide, rfl, rfl⟩
  · exact Or.inr (Or.inl ⟨.backspace, by decide, rfl, rfl⟩)
  · exact Or.inr (Or.inr (Or.inl ⟨rfl, rfl⟩))
  · exact Or.inl ⟨.shift, by decide, rfl, rfl⟩
  · exact Or.inr (Or.inl ⟨.shift, by decide, rfl, rfl⟩)
  · exact Or.inl ⟨.rShift, by decide, rfl, rfl⟩
  · exact Or.inr (Or.inl ⟨.rShift, by decide, rfl, rfl⟩)
  · exact Or.inl ⟨.control, by decide, rfl, rfl⟩
  · exact Or.inr (Or.inl ⟨.control, by decide, rfl, rfl⟩)
  · exact Or.inl ⟨.alt, by decide, rfl, rfl⟩
  · exact Or.inr (Or.inl ⟨.alt, by decide, rfl, rfl⟩)
  · refine Or.inr (Or.inr (Or.inr ⟨by assumption, ?_, rfl⟩))
    simp only [Modifier.all, List.forall_mem_cons, Modifier.backspace, Modifier.shift,
      Modifier.rShift, Modifier.control, Modifier.alt]
    refine ⟨⟨?_, ?_⟩, ⟨?_, ?_⟩, ⟨?_, ?_⟩, ⟨?_, ?_⟩, ⟨?_, ?_⟩, List.forall_mem_nil _⟩ <;> assumption

/-- No two modifiers share a bit or a scancode, and none shares one with Caps Lock. -/
theorem modifiers_distinct : ∀ m ∈ Modifier.all, (m.bit < 32 ∧ m.bit ≠ 2 ∧
    m.press ≠ CAPS_LOCK_PRESS ∧ m.release ≠ CAPS_LOCK_PRESS) ∧ ∀ m' ∈ Modifier.all,
      (m.bit = m'.bit ↔ m = m') ∧ (m.press = m'.press ↔ m = m') ∧
        (m.release = m'.release ↔ m = m') ∧ m.press ≠ m'.release := by
  decide

variable {state raw} {m : Modifier}

theorem isOn_iff {i : ℕ} (hi : i < 32) : isOn state (1#32 <<< i) = true ↔ state.getLsbD i = true := by
  rw [isOn, decide_eq_true_eq, ne_eq, Bitmap.and_mask_eq_zero_iff _ hi, Bool.not_eq_false]

theorem isOn_updateKeyboardState (hm : m ∈ Modifier.all) :
    isOn (updateKeyboardState state raw) m.mask = true ↔
      raw = m.press ∨ raw ≠ m.release ∧ isOn state m.mask = true := by
  obtain ⟨⟨hbit, hcaps, hpress, hrelease⟩, hother⟩ := modifiers_distinct m hm
  rcases updateKeyboardState_cases state raw with ⟨m', hm', rfl, h⟩ | ⟨m', hm', rfl, h⟩ | ⟨rfl, h⟩ |
    ⟨-, hne, h⟩
  · obtain ⟨hbits, hpresses, -, -⟩ := hother m' hm'
    have hno := (modifiers_distinct m' hm').2 m hm
    rw [h, Modifier.mask, Modifier.mask, isOn_iff hbit, isOn_iff hbit,
      Bitmap.getLsbD_insert _ (modifiers_distinct m' hm').1.1, hbits, ← hpresses]
    exact or_congr eq_comm (by simp [hno.2.2.2])
  · obtain ⟨hbits, -, hreleases, hno⟩ := hother m' hm'
    rw [h, Modifier.mask, Modifier.mask, isOn_iff hbit, isOn_iff hbit,
      Bitmap.getLsbD_remove _ (modifiers_distinct m' hm').1.1, ne_eq, hbits, ← hreleases]
    exact ⟨fun hon => Or.inr ⟨Ne.symm hon.1, hon.2⟩,
      fun hon => (hon.resolve_left hno.symm).imp Ne.symm id⟩
  · rw [h, Modifier.mask, isOn_iff hbit, isOn_iff hbit, BitVec.getLsbD_xor,
      Bitmap.getLsbD_one_shiftLeft (by decide), decide_eq_false hcaps, Bool.xor_false]
    exact ⟨fun hon => Or.inr ⟨hrelease.symm, hon⟩, fun hon => (hon.resolve_left hpress.symm).2⟩
  · obtain ⟨h1, h2⟩ := hne m hm
    rw [h]
    simp [h1, h2]

theorem isOn_caps_updateKeyboardState :
    isOn (updateKeyboardState state raw) CAPS_LOCK_MASK = true ↔
      (raw = CAPS_LOCK_PRESS ↔ ¬ isOn state CAPS_LOCK_MASK = true) := by
  have hmask : CAPS_LOCK_MASK = 1#32 <<< 2 := rfl
  have hcaps : 2 < 32 := by decide
  rw [hmask, isOn_iff hcaps, isOn_iff hcaps]
  rcases updateKeyboardState_cases state raw with ⟨m, hm, rfl, h⟩ | ⟨m, hm, rfl, h⟩ | ⟨rfl, h⟩ |
    ⟨hne, -, h⟩
  · obtain ⟨⟨hbit, hbits, hpress, -⟩, -⟩ := modifiers_distinct m hm
    rw [h, Modifier.mask, Bitmap.getLsbD_insert _ hbit]
    simp [hbits.symm, hpress]
  · obtain ⟨⟨hbit, hbits, -, hrelease⟩, -⟩ := modifiers_distinct m hm
    rw [h, Modifier.mask, Bitmap.getLsbD_remove _ hbit]
    simp [hbits.symm, hrelease]
  · rw [h, BitVec.getLsbD_xor, Bitmap.getLsbD_one_shiftLeft hcaps]
    simp
  · rw [h]
    simp [hne]

end Update

end SnoopDos
