import SnoopDos.Lib.Trace
import SnoopDos.Proofs.KeyFrames
import SnoopDos.Proofs.UserPointers

/-! The line buffer of a terminal. Whatever keys come, and whenever reads drain it,
the buffer ends with a NUL and the index points at one, so that nothing is stored or
examined past its end. How much a read copies out is decided by the buffer alone. -/

namespace SnoopDos

open Kernel

section Edits

/-- The buffer of a terminal is terminated at its index and at its end. -/
structure Terminal.Terminated (u : Terminal) : Prop where
  index_lt : u.stdinIndex < KEYBOARD_BUFF_SIZE
  index : u.stdin u.stdinIndex = NULL_CHAR
  last : u.stdin (KEYBOARD_BUFF_SIZE - 1) = NULL_CHAR

/-- The limits that the handler checks before it edits a buffer. -/
def Edit.Fits (stdinIndex : ℕ) : Edit → Prop
  | .none => True
  | .append _ => stdinIndex < KEYBOARD_BUFF_SIZE - NULL_NL_PADDING
  | .erase => 0 < stdinIndex
  | .enter => stdinIndex < KEYBOARD_BUFF_SIZE - 1

/-- The indices of `stdin` that an edit stores to. -/
def Edit.stores (u : Terminal) : Edit → List ℕ
  | .none => []
  | .append _ => [u.stdinIndex, u.stdinIndex + 1]
  | .erase => [u.stdinIndex - 1]
  | .enter => [u.stdinIndex, u.stdinIndex + 1] ++
    if u.readWaiting then if (u.append NEW_LINE).stdin 0 = NEW_LINE then [1] else []
    else List.range KEYBOARD_BUFF_SIZE

variable {u : Terminal} {edit : Edit}

theorem Edit.stores_lt (hfits : edit.Fits u.stdinIndex) (hu : u.stdinIndex < KEYBOARD_BUFF_SIZE) :
    ∀ i ∈ edit.stores u, i < KEYBOARD_BUFF_SIZE := by
  intro i hi
  cases edit with
  | none => exact absurd hi List.not_mem_nil
  | append c =>
    simp only [Edit.stores, Edit.Fits, List.mem_cons, List.not_mem_nil, or_false] at hi hfits
    simp only [KEYBOARD_BUFF_SIZE, NULL_NL_PADDING] at *
    omega
  | erase =>
    simp only [Edit.stores, List.mem_singleton] at hi
    omega
  | enter =>
    simp only [Edit.stores, Edit.Fits, List.mem_append, List.mem_cons, List.not_mem_nil,
      or_false] at hi hfits
    rcases hi with (rfl | rfl) | hi
    · exact hu
    · omega
    · split_ifs at hi with hwaiting hhead
      · rw [List.mem_singleton.mp hi]
        decide
      · exact absurd hi List.not_mem_nil
      · exact List.mem_range.mp hi

theorem Edit.stdin_of_notMem_stores {i : ℕ} (hi : i ∉ edit.stores u) :
    (u.edited edit).stdin i = u.stdin i := by
  cases edit with
  | none => rfl
  | append c =>
    simp only [Edit.stores, List.mem_cons, List.not_mem_nil, or_false, not_or] at hi
    exact (Function.update_of_ne hi.2 _ _).trans (Function.update_of_ne hi.1 _ _)
  | erase => exact Function.update_of_ne (fun h => hi (List.mem_singleton.mpr h)) _ _
  | enter =>
    simp only [Edit.stores, List.mem_append, List.mem_cons, List.not_mem_nil, or_false,
      not_or] at hi
    obtain ⟨⟨hindex, hnext⟩, hend⟩ := hi
    have happend : (u.append NEW_LINE).stdin i = u.stdin i :=
      (Function.update_of_ne hnext _ _).trans (Function.update_of_ne hindex _ _)
    simp only [Terminal.edited]
    split_ifs with hwaiting
    · rw [if_pos hwaiting] at hend
      simp only [Terminal.release]
      split_ifs with hhead
      · rw [if_pos hhead, List.mem_singleton] at hend
        exact (Function.update_of_ne hend _ _).trans happend
      · exact happend
    · rw [if_neg hwaiting, List.mem_range] at hend
      exact (if_neg hend).trans happend

theorem Terminal.Terminated.append (h : u.Terminated) (c : UInt8)
    (hfits : u.stdinIndex < KEYBOARD_BUFF_SIZE - 1) : (u.append c).Terminated := by
  refine ⟨Nat.lt_sub_iff_add_lt.mp hfits, Function.update_self _ _ _, ?_⟩
  simp only [Terminal.append, Function.update_apply]
  split_ifs with hnext hindex
  · rfl
  · omega
  · exact h.last

theorem Terminal.Terminated.edited (h : u.Terminated) (hfits : edit.Fits u.stdinIndex) :
    (u.edited edit).Terminated := by
  cases edit with
  | none => exact h
  | append c =>
    simp only [Edit.Fits, NULL_NL_PADDING] at hfits
    exact h.append c (by omega)
  | erase =>
    refine ⟨(Nat.sub_le _ _).trans_lt h.index_lt, Function.update_self _ _ _, ?_⟩
    simp only [Terminal.edited, Terminal.erase, Function.update_apply]
    split_ifs
    · rfl
    · exact h.last
  | enter =>
    obtain ⟨hlt, hindex, hlast⟩ := h.append NEW_LINE hfits
    simp only [Terminal.edited]
    split_ifs
    · have hnull (i : ℕ) (hi : (u.append NEW_LINE).stdin i = NULL_CHAR) :
          (u.append NEW_LINE).release.stdin i = NULL_CHAR := by
        simp only [Terminal.release]
        split_ifs
        · rw [Function.update_apply]
          split_ifs
          · rfl
          · exact hi
        · exact hi
      exact ⟨hlt, hnull _ hindex, hnull _ hlast⟩
    · exact ⟨Nat.zero_lt_succ 127, rfl, rfl⟩

end Edits

section Keys

/-- The edit of the last part of the handler. -/
def typeEdit (state : Word) (mapped : Scancode) (stdinIndex : ℕ) : Edit :=
  if KEYBOARD_BUFF_SIZE - NULL_NL_PADDING ≤ stdinIndex then .none
  else
    match mappedChar state mapped with
    | some c => .append c
    | none => .none

/-- The edits, in order, that a key makes on the visible terminal. A key that is
pressed while Backspace is held erases and then appends. -/
def keyEdits (state : Word) (raw : UInt8) (u : Terminal) : List Edit :=
  let state := updateKeyboardState state raw
  let mapped := scancodeTable raw
  if raw = DELETE_SCAN_CODE ∨ ¬ mapped.isMake then []
  else if isOn state ALT_MASK then []
  else if isOn state CONTROL_MASK then []
  else if isOn state BACKSPACE_MASK then
    let edit := if 0 < u.stdinIndex then Edit.erase else Edit.none
    [edit, typeEdit state mapped (u.edited edit).stdinIndex]
  else if mapped.result = NEW_LINE ∧ u.stdinIndex < KEYBOARD_BUFF_SIZE - 1 then [.enter]
  else [typeEdit state mapped u.stdinIndex]

namespace Terminal

def editedBy (u : Terminal) (edits : List Edit) : Terminal := edits.foldl edited u

/-- The indices that edits in order store to. -/
def stores : Terminal → List Edit → List ℕ
  | _, [] => []
  | u, edit :: edits => edit.stores u ++ stores (u.edited edit) edits

/-- Every edit is within the limits when its turn comes. -/
def AllFit : Terminal → List Edit → Prop
  | _, [] => True
  | u, edit :: edits => edit.Fits u.stdinIndex ∧ AllFit (u.edited edit) edits

variable {u : Terminal}

theorem Terminated.editedBy {edits : List Edit} (h : u.Terminated) (hfit : u.AllFit edits) :
    (u.editedBy edits).Terminated := by
  induction edits generalizing u with
  | nil => exact h
  | cons edit edits ih => exact ih (h.edited hfit.1) hfit.2

theorem Terminated.stores_lt {edits : List Edit} (h : u.Terminated) (hfit : u.AllFit edits) :
    ∀ i ∈ u.stores edits, i < KEYBOARD_BUFF_SIZE := by
  induction edits generalizing u with
  | nil => exact fun i hi => absurd hi List.not_mem_nil
  | cons edit edits ih =>
    intro i hi
    rcases List.mem_append.mp hi with hi | hi
    · exact Edit.stores_lt hfit.1 h.index_lt i hi
    · exact ih (h.edited hfit.1) hfit.2 i hi

theorem stdin_of_notMem_stores {edits : List Edit} {i : ℕ} (hi : i ∉ u.stores edits) :
    (u.editedBy edits).stdin i = u.stdin i := by
  induction edits generalizing u with
  | nil => rfl
  | cons edit edits ih =>
    obtain ⟨h1, h2⟩ := not_or.mp (List.mem_append.not.mp hi)
    exact (ih h2).trans (Edit.stdin_of_notMem_stores h1)

end Terminal

theorem typeEdit_fits (state : Word) (mapped : Scancode) (stdinIndex : ℕ) :
    (typeEdit state mapped stdinIndex).Fits stdinIndex := by
  rw [typeEdit]
  split_ifs with hfull
  · trivial
  · cases mappedChar state mapped with
    | none => trivial
    | some c => exact not_le.mp hfull

theorem keyEdits_allFit (state : Word) (raw : UInt8) (u : Terminal) :
    u.AllFit (keyEdits state raw u) := by
  simp only [keyEdits]
  split_ifs with hignored halt hctrl hback hpos henter
  · trivial
  · trivial
  · trivial
  · exact ⟨hpos, typeEdit_fits _ _ _, trivial⟩
  · exact ⟨trivial, typeEdit_fits _ _ _, trivial⟩
  · exact ⟨henter.2, trivial⟩
  · exact ⟨typeEdit_fits _ _ _, trivial⟩

/-- Two terminals have the same buffer. -/
def Terminal.SameBuffer (u v : Terminal) : Prop :=
  v.stdin = u.stdin ∧ v.stdinIndex = u.stdinIndex

theorem Terminal.SameBuffer.trans {u v w : Terminal} (h : u.SameBuffer v) (h' : v.SameBuffer w) :
    u.SameBuffer w :=
  ⟨h'.1.trans h.1, h'.2.trans h.2⟩

theorem Terminal.Terminated.congr {u v : Terminal} (h : u.Terminated) (hsame : u.SameBuffer v) :
    v.Terminated := by
  refine ⟨hsame.2 ▸ h.index_lt, ?_, hsame.1 ▸ h.last⟩
  rw [hsame.1, hsame.2]
  exact h.index

namespace Kernel

variable {k : Kernel}

theorem Shown.sameBuffer {k' : Kernel} (h : k.Shown k') (t : ℕ) :
    (k.terminals t).SameBuffer (k'.terminals t) := by
  obtain ⟨_, _, _, _, _, _, _, rfl, hterm⟩ := h
  obtain ⟨_, _, ht⟩ := hterm t
  exact ⟨(congrArg Terminal.stdin ht :), (congrArg Terminal.stdinIndex ht :)⟩

theorem changeTerminalState_sameBuffer (k : Kernel) (fromT toT t : ℕ) :
    (k.terminals t).SameBuffer ((k.changeTerminalState fromT toT).terminals t) := by
  obtain ⟨P, hk, -⟩ := k.changeTerminalState_spec fromT toT
  rw [hk]
  exact (k.saveScreenXY_shown fromT).sameBuffer t

theorem Starts.sameBuffer {pid : ℕ} {flags : Word} {k' : Kernel} (h : k.Starts pid flags k')
    (t : ℕ) : (k.terminals t).SameBuffer (k'.terminals t) := by
  obtain ⟨args, mem, rfl⟩ := h.eq
  simp only [Terminal.SameBuffer, started]
  rcases eq_or_ne t k.terminalState with rfl | hne
  · rw [Function.update_self]
    exact ⟨rfl, rfl⟩
  · rw [Function.update_of_ne hne]
    exact ⟨rfl, rfl⟩

theorem launch_sameBuffer (k : Kernel) (fs : Fs) (residue : Residue) (irqFlags : Word) (toT t : ℕ) :
    (k.terminals t).SameBuffer ((k.launch fs residue irqFlags toT).kernel.terminals t) := by
  refine (k.changeTerminalState_sameBuffer k.terminalState toT t).trans ?_
  rw [launch]
  rcases (k.launching irqFlags toT).executeShell_cases fs residue with
    hfailed | ⟨pid, k', entryPoint, hstarts, hstarted⟩
  · rw [hfailed]
    obtain ⟨pcbs, hpro⟩ := (k.launching irqFlags toT).executePrologue_frame
    simp only [KeyResult.kernel, switchTerminalContext, loadTerminalDirectory, hpro]
    exact ⟨rfl, rfl⟩
  · rw [hstarted]
    exact hstarts.sameBuffer t

theorem AltOutcome.sameBuffer {fs : Fs} {residue : Residue} {irqFlags : Word} {r : KeyResult}
    (h : k.AltOutcome fs residue irqFlags r) (t : ℕ) :
    (k.terminals t).SameBuffer (r.kernel.terminals t) := by
  cases h with
  | stays h => exact h.sameBuffer t
  | switches _ => exact k.changeTerminalState_sameBuffer _ _ t
  | launches _ => exact k.launch_sameBuffer fs residue irqFlags _ t

/-- All terminals after edits of the visible one. -/
def editedByTerminals (k : Kernel) (edits : List Edit) : ℕ → Terminal :=
  Function.update k.terminals k.terminalState ((k.terminals k.terminalState).editedBy edits)

theorem editedByTerminals_nil : k.editedByTerminals [] = k.terminals := Function.update_eq_self _ _

theorem backspace_typeKey_terminals (mapped : Scancode) :
    (k.backspaceKey.typeKey mapped).terminals =
      let u := k.terminals k.terminalState
      let edit := if 0 < u.stdinIndex then Edit.erase else Edit.none
      k.editedByTerminals [edit, typeEdit k.keyboardState mapped (u.edited edit).stdinIndex] := by
  obtain ⟨_, _, _, _, _, _, terminals, hk, -⟩ := k.backspaceKey_drawn
  have hterm := k.backspaceKey_terminals
  rw [hk] at hterm ⊢
  rw [typeKey_terminals]
  simp only at hterm
  subst hterm
  simp only [editedTerminals, editedByTerminals, Function.update_self, Function.update_idem]
  rfl

theorem plainKey_editedBy (k : Kernel) (mapped : Scancode) : (k.plainKey mapped).terminals =
    let u := k.terminals k.terminalState
    let edit := if 0 < u.stdinIndex then Edit.erase else Edit.none
    k.editedByTerminals
      (if isOn k.keyboardState BACKSPACE_MASK then
        [edit, typeEdit k.keyboardState mapped (u.edited edit).stdinIndex]
      else if mapped.result = NEW_LINE ∧ u.stdinIndex < KEYBOARD_BUFF_SIZE - 1 then [.enter]
      else [typeEdit k.keyboardState mapped u.stdinIndex]) := by
  dsimp only
  unfold plainKey
  by_cases hback : isOn k.keyboardState BACKSPACE_MASK = true
  · rw [if_pos hback, if_pos hback]
    exact k.backspace_typeKey_terminals mapped
  rw [if_neg hback, if_neg hback]
  by_cases henter : mapped.result = NEW_LINE ∧
      (k.terminals k.terminalState).stdinIndex < KEYBOARD_BUFF_SIZE - 1
  · rw [if_pos henter, if_pos henter, enterKey_eq]
    rfl
  · rw [if_neg henter, if_neg henter]
    exact k.typeKey_terminals mapped

/-- The edits of a key are all that its handler does to the buffers. -/
theorem processSentScancode_sameBuffer (k : Kernel) (fs : Fs) (residue : Residue) (irqFlags : Word)
    (raw : UInt8) (t : ℕ) :
    (k.editedByTerminals (keyEdits k.keyboardState raw (k.terminals k.terminalState)) t).SameBuffer
      ((k.processSentScancode fs residue irqFlags raw).kernel.terminals t) := by
  by_cases hignored : raw = DELETE_SCAN_CODE ∨ ¬ (scancodeTable raw).isMake
  · rw [k.processSentScancode_ignored fs residue irqFlags hignored, keyEdits, if_pos hignored,
      editedByTerminals_nil]
    exact ⟨rfl, rfl⟩
  obtain ⟨hdel, hmake⟩ := not_or.mp hignored
  rw [k.processSentScancode_make fs residue irqFlags hdel (not_not.mp hmake), keyEdits,
    if_neg hignored]
  by_cases halt : isOn (updateKeyboardState k.keyboardState raw) ALT_MASK = true
  · rw [if_pos halt, if_pos halt, editedByTerminals_nil]
    exact ((k.pressed raw).altKey_outcome fs residue irqFlags _).sameBuffer t
  rw [if_neg halt, if_neg halt]
  by_cases hctrl : isOn (updateKeyboardState k.keyboardState raw) CONTROL_MASK = true
  · rw [if_pos hctrl, if_pos hctrl, editedByTerminals_nil]
    obtain ⟨k', hshown, hk'⟩ := (k.pressed raw).ctrlKey_shown (scancodeTable raw)
    rw [hk']
    exact hshown.sameBuffer t
  rw [if_neg hctrl, if_neg hctrl]
  have hterm := (k.pressed raw).plainKey_editedBy (scancodeTable raw)
  exact ⟨congrArg (fun f => (f t).stdin) hterm, congrArg (fun f => (f t).stdinIndex) hterm⟩

theorem processSentScancode_stdin (k : Kernel) (fs : Fs) (residue : Residue) (irqFlags : Word)
    (raw : UInt8) {t i : ℕ}
    (hi : i ∉ (k.terminals t).stores (keyEdits k.keyboardState raw (k.terminals t))) :
    ((k.processSentScancode fs residue irqFlags raw).kernel.terminals t).stdin i =
      (k.terminals t).stdin i := by
  rw [(k.processSentScancode_sameBuffer fs residue irqFlags raw t).1, editedByTerminals]
  rcases eq_or_ne t k.terminalState with rfl | hne
  · rw [Function.update_self]
    exact Terminal.stdin_of_notMem_stores hi
  · rw [Function.update_of_ne hne]

end Kernel

end Keys

section Reading

/-- A buffer whose bytes are logged by index when they are examined. -/
def examined (stdin : ℕ → UInt8) (i : ℕ) : Trace ℕ UInt8 := .access i (stdin i)

/-- `drainLoop` with every byte examined; the bound is only tested after the byte. -/
def drainLoopT (stdin : ℕ → UInt8) : ℕ → ℕ → Trace ℕ (List UInt8)
  | 0, i => do
    let _ ← examined stdin i
    pure []
  | n + 1, i => do
    let c ← examined stdin i
    if c ≠ NULL_CHAR then do
      let c ← examined stdin i
      let rest ← drainLoopT stdin n (i + 1)
      pure (c :: rest)
    else pure []

variable {stdin : ℕ → UInt8} {e i : ℕ}

theorem drainLoopT_val (n i : ℕ) : (drainLoopT stdin n i).val = drainLoop stdin n i := by
  induction n generalizing i with
  | zero => rfl
  | succ n ih =>
    rw [drainLoop, ← ih]
    by_cases hc : stdin i ≠ NULL_CHAR
    · exact (congrArg Trace.val (if_pos hc)).trans (if_pos hc).symm
    · exact (congrArg Trace.val (if_neg hc)).trans (if_neg hc).symm

/-- A byte before the first NUL is followed by one that is no further than it. -/
theorem succ_le_of_ne {c : UInt8} (hend : stdin e = NULL_CHAR) (hi : i ≤ e) (hc : stdin i = c)
    (hne : c ≠ NULL_CHAR) : i + 1 ≤ e := by
  rcases hi.eq_or_lt with rfl | hlt
  · exact absurd (hc.symm.trans hend) hne
  · exact hlt

theorem drainLoopT_all (hend : stdin e = NULL_CHAR) (n : ℕ) (hi : i ≤ e) :
    (drainLoopT stdin n i).All (· ≤ e) := by
  have hexamine : (examined stdin i).All (· ≤ e) := (Trace.all_access _ _).mpr hi
  induction n generalizing i with
  | zero => exact (Trace.all_bind _ _).mpr ⟨hexamine, Trace.all_pure _⟩
  | succ n ih =>
    refine (Trace.all_bind _ _).mpr ⟨hexamine, ?_⟩
    by_cases hc : stdin i ≠ NULL_CHAR
    · have hnext := succ_le_of_ne hend hi rfl hc
      rw [show (examined stdin i).val = stdin i from rfl, if_pos hc]
      refine (Trace.all_bind _ _).mpr ⟨hexamine, (Trace.all_bind _ _).mpr ⟨?_, Trace.all_pure _⟩⟩
      exact ih hnext ((Trace.all_access _ _).mpr hnext)
    · rw [show (examined stdin i).val = stdin i from rfl, if_neg hc]
      exact Trace.all_pure _

theorem strlen_all (hend : stdin e = NULL_CHAR) (fuel : ℕ) (hi : i ≤ e) :
    (strlen (examined stdin) fuel i).All (· ≤ e) := by
  induction fuel generalizing i with
  | zero => exact Trace.all_pure _
  | succ fuel ih =>
    refine (Trace.all_bind _ _).mpr ⟨(Trace.all_access _ _).mpr hi, ?_⟩
    by_cases hc : stdin i = NULL_CHAR
    · rw [show (examined stdin i).val = stdin i from rfl, if_pos hc]
      exact Trace.all_pure _
    · rw [show (examined stdin i).val = stdin i from rfl, if_neg hc]
      exact ih (succ_le_of_ne hend hi rfl hc)

theorem putT_all {σ : Type} (bus : VideoBus σ) (attrib : UInt8) (hend : stdin e = NULL_CHAR)
    (n : ℕ) (hi : i ≤ e) (scr : Screen σ) :
    (putT bus attrib (examined stdin) n i scr).All (· ≤ e) := by
  have hexamine : (examined stdin i).All (· ≤ e) := (Trace.all_access _ _).mpr hi
  induction n generalizing i scr with
  | zero => exact (Trace.all_bind _ _).mpr ⟨hexamine, Trace.all_pure _⟩
  | succ n ih =>
    refine (Trace.all_bind _ _).mpr ⟨hexamine, ?_⟩
    by_cases hc : stdin i ≠ NULL_CHAR
    · have hnext := succ_le_of_ne hend hi rfl hc
      rw [show (examined stdin i).val = stdin i from rfl, if_pos hc]
      exact ih hnext _ ((Trace.all_access _ _).mpr hnext)
    · rw [show (examined stdin i).val = stdin i from rfl, if_neg hc]
      exact Trace.all_pure _

theorem writeTerminal_all (k : Kernel) (fd nbytes : Word) (hend : stdin e = NULL_CHAR) :
    (k.writeTerminal fd (examined stdin) nbytes).All (· ≤ e) := by
  rw [writeTerminal]
  split_ifs
  · exact Trace.all_pure _
  · exact Trace.all_pure _
  · exact (Trace.all_bind _ _).mpr ⟨putT_all _ _ hend _ (Nat.zero_le e) _, Trace.all_pure _⟩

end Reading

section Runs

/-- What can happen to the buffers. Everything else that the kernel does leaves them
alone, and may change the visible terminal and all the rest. -/
inductive BufferEvent
  | key (residue : Residue) (irqFlags : Word) (raw : UInt8)
  | start (t : ℕ)
  | drain (t : ℕ)
  | other

def bufferStep (fs : Fs) (k : Kernel) : BufferEvent → Kernel → Prop
  | .key residue irqFlags raw, k' => k' = (k.processSentScancode fs residue irqFlags raw).kernel
  | .start t, k' => k' = k.readTerminalStart t
  | .drain t, k' => (k.terminals t).allowedToRead = true ∧ k' = (k.readTerminalDrain t).2
  | .other, k' => ∀ t, (k.terminals t).SameBuffer (k'.terminals t)

/-- Every terminal that exists has a terminated buffer. -/
def Kernel.AllTerminated (k : Kernel) : Prop := ∀ t < NUM_TERMINALS, (k.terminals t).Terminated

variable {fs : Fs} {k k' : Kernel}

theorem initKbd_allTerminated (k : Kernel) : k.initKbd.AllTerminated := by
  intro t ht
  rw [show k.initKbd.terminals t = initTerminal (k.terminals t) from if_pos ht]
  exact ⟨Nat.zero_lt_succ 127, rfl, rfl⟩

/-- A terminal whose buffer has been copied out. -/
def Terminal.drained (u : Terminal) : Terminal :=
  { u with
    stdin := fun i => if i < KEYBOARD_BUFF_SIZE then NULL_CHAR else u.stdin i
    stdinIndex := 0
    allowedToRead := false
    readWaiting := false }

theorem drained_terminated (u : Terminal) : u.drained.Terminated :=
  ⟨Nat.zero_lt_succ 127, rfl, rfl⟩

theorem setTerminal_allTerminated (h : k.AllTerminated) (t : ℕ) {f : Terminal → Terminal}
    (hf : (k.terminals t).Terminated → (f (k.terminals t)).Terminated) :
    (k.setTerminal t f).AllTerminated := by
  intro i hi
  simp only [setTerminal]
  rcases eq_or_ne i t with rfl | hne
  · rw [Function.update_self]
    exact hf (h i hi)
  · rw [Function.update_of_ne hne]
    exact h i hi

theorem bufferStep_allTerminated (h : k.AllTerminated) (e : BufferEvent)
    (hstep : bufferStep fs k e k') : k'.AllTerminated := by
  cases e with
  | key residue irqFlags raw =>
    subst hstep
    intro t ht
    refine Terminal.Terminated.congr ?_
      (k.processSentScancode_sameBuffer fs residue irqFlags raw t)
    rw [editedByTerminals]
    rcases eq_or_ne t k.terminalState with rfl | hne
    · rw [Function.update_self]
      exact (h _ ht).editedBy (keyEdits_allFit _ _ _)
    · rw [Function.update_of_ne hne]
      exact h t ht
  | start t =>
    subst hstep
    exact setTerminal_allTerminated h t fun ht => ⟨ht.1, ht.2, ht.3⟩
  | drain t =>
    obtain ⟨-, rfl⟩ := hstep
    exact setTerminal_allTerminated (f := Terminal.drained) h t fun _ => drained_terminated _
  | other => exact fun t ht => (h t ht).congr (hstep t)

/-- In every state that keys and reads lead to, the buffers are terminated; the next
key stores inside them, and the loops that copy or print one stop inside it. -/
theorem line_buffer (fs : Fs) (k : Kernel) (p : List (BufferEvent × Kernel))
    (hp : Runs.Path (bufferStep fs) k.initKbd p) (t : ℕ) (ht : t < NUM_TERMINALS) :
    let u := (Runs.final k.initKbd p).terminals t
    (u.stdinIndex ≤ 127 ∧ u.stdin u.stdinIndex = NULL_CHAR ∧ u.stdin 127 = NULL_CHAR) ∧
      (∀ state raw, ∀ i ∈ u.stores (keyEdits state raw u), i < KEYBOARD_BUFF_SIZE) ∧
      (∀ residue irqFlags raw i, KEYBOARD_BUFF_SIZE ≤ i →
        ((Runs.final k.initKbd p |>.processSentScancode fs residue irqFlags raw).kernel.terminals
          t).stdin i = u.stdin i) ∧
      (drainLoopT u.stdin KEYBOARD_BUFF_SIZE 0).All (· ≤ 127) ∧
      (∀ fuel, (strlen (examined u.stdin) fuel 0).All (· ≤ 127)) ∧
      ∀ k' nbytes, (Kernel.writeTerminal k' STDOUT (examined u.stdin) nbytes).All (· ≤ 127) := by
  intro u
  have hterminated : (Runs.final k.initKbd p).AllTerminated :=
    Runs.invariant_final (G := fun _ _ => True)
      (fun _ e _ h _ hstep => bufferStep_allTerminated h e hstep) (initKbd_allTerminated k) hp
      (Runs.meets_true fun _ _ => trivial)
  have hu : u.Terminated := hterminated t ht
  have hstores (state : Word) (raw : UInt8) :
      ∀ i ∈ u.stores (keyEdits state raw u), i < KEYBOARD_BUFF_SIZE :=
    hu.stores_lt (keyEdits_allFit state raw u)
  refine ⟨⟨Nat.le_of_lt_succ hu.index_lt, hu.index, hu.last⟩, hstores, ?_, ?_, ?_, ?_⟩
  · exact fun residue irqFlags raw i hi => processSentScancode_stdin _ fs residue irqFlags raw
      fun hmem => absurd (hstores _ raw i hmem) (not_lt.mpr hi)
  · exact drainLoopT_all hu.last _ (Nat.zero_le _)
  · exact fun fuel => strlen_all hu.last fuel (Nat.zero_le _)
  · exact fun k' nbytes => writeTerminal_all k' STDOUT nbytes hu.last

/-- A read waits on the first terminal, and the key `A` is pressed. -/
theorem line_buffer_start : ∃ k : Kernel,
    (k.terminals 0).stdinIndex ≤ 127 ∧ (k.terminals 0).stdin (k.terminals 0).stdinIndex = NULL_CHAR ∧
      (k.terminals 0).stdin 127 = NULL_CHAR :=
  let k₁ := bootKernel.initKbd.readTerminalStart 0
  let k₂ := (k₁.processSentScancode shellFs zeroResidue 0#32 0x1E).kernel
  ⟨k₂, (line_buffer shellFs bootKernel [(.start 0, k₁), (.key zeroResidue 0#32 0x1E, k₂)]
    ⟨rfl, rfl, trivial⟩ 0 (by decide)).1⟩

end Runs

section ReadTerminal

/-- The buffered line: the characters up to the first NUL. -/
def bufferedLine (stdin : ℕ → UInt8) : List UInt8 := fieldString stdin KEYBOARD_BUFF_SIZE

theorem drainLoop_eq_takeWhile (stdin : ℕ → UInt8) (n i : ℕ) :
    drainLoop stdin n i = ((List.range' i n).map stdin).takeWhile (· ≠ NULL_CHAR) := by
  induction n generalizing i with
  | zero => rfl
  | succ n ih =>
    rw [drainLoop, List.range'_succ, List.map_cons, List.takeWhile_cons, ih]
    simp only [decide_eq_true_eq]

theorem drainLoop_eq_bufferedLine (stdin : ℕ → UInt8) :
    drainLoop stdin KEYBOARD_BUFF_SIZE 0 = bufferedLine stdin := by
  rw [drainLoop_eq_takeWhile, bufferedLine, fieldString, List.range_eq_range']

/-- A read of at most `nbytes` characters into `buf` gets the first of the line, and
stores nothing else. -/
structure ReadsWithin (k : Kernel) (u : UserMem) (stdin : ℕ → UInt8) (buf : Addr)
    (nbytes : Word) : Prop where
  ret : (k.readTerminal stdin STDIN buf nbytes u).1.1.toNat =
    min nbytes.toNat (bufferedLine stdin).length
  touched : (k.readTerminal stdin STDIN buf nbytes u).2.touched =
    u.touched ++ UserMem.span buf (min nbytes.toNat (bufferedLine stdin).length)
  bytes (i : ℕ) (hi : i < min nbytes.toNat (bufferedLine stdin).length) :
    (k.readTerminal stdin STDIN buf nbytes u).2.bytes (buf + BitVec.ofNat 32 i) =
      (bufferedLine stdin).getD i NULL_CHAR
  rest (a : Addr) (ha : a ∉ UserMem.span buf (min nbytes.toNat (bufferedLine stdin).length)) :
    (k.readTerminal stdin STDIN buf nbytes u).2.bytes a = u.bytes a

/-- `read_terminal` keeps to the size it is given exactly when the line does. -/
theorem read_terminal_size (k : Kernel) (u : UserMem) (stdin : ℕ → UInt8) (buf : Addr)
    (nbytes : Word) (hn : 0 ≤ nbytes.toInt) :
    ReadsWithin k u stdin buf nbytes ↔ (bufferedLine stdin).length ≤ nbytes.toNat := by
  have hlen : (bufferedLine stdin).length ≤ KEYBOARD_BUFF_SIZE := fieldString_length_le _ _
  have hsmall : (bufferedLine stdin).length < 2 ^ 32 := hlen.trans_lt (by decide)
  obtain ⟨k', hrun⟩ := readTerminal_run k u buf stdin nbytes (not_lt.mpr hn)
  rw [drainLoop_eq_bufferedLine] at hrun
  have hret : (k.readTerminal stdin STDIN buf nbytes u).1.1.toNat = (bufferedLine stdin).length := by
    rw [hrun, BitVec.toNat_ofNat, Nat.mod_eq_of_lt hsmall]
  constructor
  · intro h
    have hmin := h.ret
    omega
  · intro hle
    have hmin : min nbytes.toNat (bufferedLine stdin).length = (bufferedLine stdin).length :=
      min_eq_right hle
    refine ⟨hret.trans hmin.symm, ?_, fun i hi => ?_, fun a ha => ?_⟩
    · rw [hmin, hrun]
      exact UserMem.touched_storeBytes u buf _
    · rw [hmin] at hi
      rw [hrun, List.getD_eq_getElem?_getD, List.getElem?_eq_getElem hi]
      exact UserMem.bytes_storeBytes u buf _ hsmall.le i hi
    · rw [hmin] at ha
      rw [hrun]
      exact UserMem.bytes_storeBytes_of_notMem u buf _ ha

def lineAb (i : ℕ) : UInt8 := [97, 98, 10].getD i NULL_CHAR

/-- A buffer of four bytes holds it. -/
theorem read_terminal_size_four :
    ReadsWithin shellKernel ⟨fun _ => 0, []⟩ lineAb 0x8048000#32 4#32 :=
  (read_terminal_size shellKernel ⟨fun _ => 0, []⟩ lineAb 0x8048000#32 4#32 (by decide)).mpr
    (by decide)

/-- All of it is stored where one byte was asked for. -/
theorem line_past_buffer : ¬ ReadsWithin shellKernel ⟨fun _ => 0, []⟩ lineAb 0x8048000#32 1#32 := by
  intro h
  obtain ⟨k', hrun⟩ := readTerminal_run shellKernel ⟨fun _ => 0, []⟩ 0x8048000#32 lineAb 1#32
    (by decide)
  have hret := h.ret
  rw [hrun] at hret
  change (BitVec.ofNat 32 (drainLoop lineAb KEYBOARD_BUFF_SIZE 0).length).toNat =
    min 1 (bufferedLine lineAb).length at hret
  exact absurd hret (by decide)

end ReadTerminal

end SnoopDos
