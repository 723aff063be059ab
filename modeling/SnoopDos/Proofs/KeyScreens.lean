import SnoopDos.Proofs.Interrupts
import SnoopDos.Proofs.Rendering

/-! What a key does to the screens. A key that shows no other terminal prints on the
console of the visible one, from its cursor on, and leaves the other consoles as they
are. The exception is a launch that is refused: its message starts at the cursor of
the terminal that is serviced. -/

namespace SnoopDos

open Loops

/-- What a key sends to a console: a character, a blank screen, or new colours. -/
inductive KeyOp
  | put (c : UInt8)
  | blank
  | recolour (attrib : UInt8)
  deriving DecidableEq

def recolourPage {σ : Type} (bus : VideoBus σ) (a : UInt8) (mem : σ) : σ :=
  forRange 0 2000 (fun i mem => bus.store mem (2 * i + 1) a) mem

def KeyOp.apply (attrib : UInt8) (con : Console) : KeyOp → Console
  | .put c => putcScreen pageBus attrib con c
  | .blank => ⟨clear pageBus attrib con.mem, 0, 0⟩
  | .recolour a => { con with mem := recolourPage pageBus a con.mem }

/-- The characters of a line that `Ctrl+L` prints again. -/
def shownLine (stdin : ℕ → UInt8) : List UInt8 :=
  fieldString stdin
    ((Id.run (strlen (fun i => (stdin i : Id UInt8)) KEYBOARD_BUFF_SIZE 0)).getD 0)

/-- The branch for Ctrl+L once the screen is clear. -/
def Kernel.promptLine (k : Kernel) (currentProcessTerminal : ℕ) : Kernel :=
  let k := k.saveScreenXY k.terminalState
  let k := { k with terminalBeingServiced := k.terminalState }
  let k := k.printfT PROMPT
  let stdin := (k.terminals k.terminalState).stdin
  let n := (Id.run (strlen (fun i => (stdin i : Id UInt8)) KEYBOARD_BUFF_SIZE 0)).getD 0
  let k := (Id.run (k.writeTerminal STDOUT (fun i => (stdin i : Id UInt8)) (BitVec.ofNat 32 n))).2
  { k with terminalBeingServiced := currentProcessTerminal }

def REFUSAL : List UInt8 := MAX_PROCESSES_MESSAGE ++ PROMPT

section Keys

variable (k : Kernel) (raw : UInt8)

/-- The terminal that Alt and a function key ask for. -/
def Kernel.asksFor : Option ℕ :=
  if raw ≠ DELETE_SCAN_CODE ∧ (scancodeTable raw).isMake ∧
      isOn (updateKeyboardState k.keyboardState raw) ALT_MASK then
    Kernel.functionKey (scancodeTable raw)
  else none

/-- The terminal can be shown: it has been launched, or a pid is left for its shell. -/
def Kernel.CanShow (t : ℕ) : Prop := t = STATE_ONE ∨ k.Launched t ∨ k.getAvailablePid.isSome

/-- The key switches to a terminal or launches it. -/
def Kernel.ChangesTerminal : Prop :=
  ∃ t, k.asksFor raw = some t ∧ t ≠ k.terminalState ∧ k.CanShow t

/-- The key asks for a terminal that cannot be launched. -/
def Kernel.RefusesTerminal : Prop :=
  ∃ t, k.asksFor raw = some t ∧ t ≠ k.terminalState ∧ ¬ k.CanShow t

instance (t : ℕ) : Decidable (k.CanShow t) := inferInstanceAs (Decidable (_ ∨ _ ∨ _))

instance : Decidable (k.RefusesTerminal raw) :=
  decidable_of_iff (∃ t ∈ k.asksFor raw, t ≠ k.terminalState ∧ ¬ k.CanShow t) Iff.rfl

/-- What the last part of `process_sent_scancode` prints, on a line of `index` characters. -/
def typedOps (state : Word) (index : ℕ) : List KeyOp :=
  if KEYBOARD_BUFF_SIZE - NULL_NL_PADDING ≤ index then []
  else ((mappedChar state (scancodeTable raw)).map KeyOp.put).toList

/-- What a key sends to the console of the visible terminal. -/
def Kernel.keyOps : List KeyOp :=
  let state := updateKeyboardState k.keyboardState raw
  let mapped := scancodeTable raw
  let line := k.terminals k.terminalState
  if raw = DELETE_SCAN_CODE ∨ ¬ mapped.isMake then []
  else if isOn state ALT_MASK then
    if k.RefusesTerminal raw then REFUSAL.map .put else []
  else if isOn state CONTROL_MASK then
    if mapped.result = CLEAR_SCREEN_SHORTCUT then
      .blank :: (PROMPT ++ shownLine line.stdin).map .put
    else if mapped.result = ASCII_SIX then
      let a := if MAX_ATTRIB < k.kbdAttribute + 1 then MIN_ATTRIB else k.kbdAttribute + 1
      [.recolour (UInt8.ofNat (k.kbdBackAttribute * 16 ||| a))]
    else if mapped.result = ASCII_SEVEN then
      let a :=
        if MAX_BACKGROUD_ATTRIB < k.kbdBackAttribute + 1 then MIN_BACKGROUD_ATTRIB
        else k.kbdBackAttribute + 1
      [.recolour (UInt8.ofNat (a * 16 ||| k.kbdAttribute))]
    else []
  else if isOn state BACKSPACE_MASK then
    (if 0 < line.stdinIndex then [.put BKSP_CHAR] else []) ++
      typedOps raw state (line.stdinIndex - 1)
  else if mapped.result = NEW_LINE ∧ line.stdinIndex < KEYBOARD_BUFF_SIZE - 1 then
    [.put NEW_LINE]
  else typedOps raw state line.stdinIndex

end Keys

/-- `k'` is `k` after `ops` for the visible terminal, which is still visible: the lines
and the consoles of the others are the same, and so is the terminal being serviced. -/
structure Follows (k : Kernel) (ops : List KeyOp) (k' : Kernel) : Prop where
  serviced : k'.terminalBeingServiced = k.terminalBeingServiced
  visible : k'.terminalState = k.terminalState
  lines : ∀ t ≠ k.terminalState, (k'.terminals t).stdin = (k.terminals t).stdin ∧
    (k'.terminals t).stdinIndex = (k.terminals t).stdinIndex
  others : ∀ t < NUM_TERMINALS, t ≠ k.terminalState →
    SameConsole (k'.logicalConsole t) (k.logicalConsole t)
  text : SameConsole (k'.logicalConsole k.terminalState)
    (ops.foldl (KeyOp.apply k.currAttribute) (k.logicalConsole k.terminalState))

section Ops

variable {σ : Type} {bus : VideoBus σ} {R : σ → (ℤ → UInt8) → Prop}

theorem puts_alike (h : bus.Simulates pageBus R) (attrib : UInt8) (cs : List UInt8) {s : Screen σ}
    {con : Console} (hst : Alike R s con) (hs : s.OnGrid) :
    Alike R (cs.foldl (putcScreen bus attrib) s)
      ((cs.map KeyOp.put).foldl (KeyOp.apply attrib) con) ∧
      (cs.foldl (putcScreen bus attrib) s).OnGrid := by
  induction cs generalizing s con with
  | nil => exact ⟨hst, hs⟩
  | cons c cs ih =>
    exact ih (putcScreen_alike h attrib hst hs c) (putcScreen_onGrid bus attrib hs c)

theorem recolour_rel (h : bus.Simulates pageBus R) (a : UInt8) {s : σ} {page : ℤ → UInt8}
    (hst : R s page) : R (recolourPage bus a s) (recolourPage pageBus a page) := by
  unfold recolourPage
  refine forRange_rel (fun i s t _ hi hst => ?_) hst
  exact h.store s t _ a hst (by omega) (by omega)

theorem pageBus_simulates : pageBus.Simulates pageBus
    fun page page' => ∀ i, 0 ≤ i → i < 4096 → page i = page' i where
  load page page' i h h0 h1 := h i h0 (by omega)
  store page page' i c h h0 h1 j hj0 hj1 := by
    change Function.update page i c j = Function.update page' i c j
    rcases eq_or_ne j i with rfl | hne
    · rw [Function.update_self, Function.update_self]
    · rw [Function.update_of_ne hne, Function.update_of_ne hne]
      exact h j hj0 hj1

theorem KeyOp.apply_same (attrib : UInt8) {con con' : Console} (h : SameConsole con con')
    (hgrid : con.OnGrid) (op : KeyOp) :
    SameConsole (op.apply attrib con) (op.apply attrib con') ∧ (op.apply attrib con).OnGrid := by
  cases op with
  | put c =>
    obtain ⟨hmem, hx, hy⟩ := putcScreen_alike pageBus_simulates attrib
      ⟨h.mem, h.screenX, h.screenY⟩ hgrid c
    exact ⟨⟨hmem, hx, hy⟩, putcScreen_onGrid pageBus attrib hgrid c⟩
  | blank =>
    have hmem := clear_rel pageBus_simulates attrib h.mem
    simp only [KeyOp.apply]
    generalize clear pageBus attrib con.mem = page at hmem ⊢
    generalize clear pageBus attrib con'.mem = page' at hmem ⊢
    have hcols : (0 : ℤ) < NUM_COLS := by decide
    have hrows : (0 : ℤ) < NUM_ROWS := by decide
    exact ⟨⟨hmem, rfl, rfl⟩, ⟨le_rfl, hcols, le_rfl, hrows⟩⟩
  | recolour a =>
    have hmem := recolour_rel pageBus_simulates a h.mem
    simp only [KeyOp.apply]
    generalize recolourPage pageBus a con.mem = page at hmem ⊢
    generalize recolourPage pageBus a con'.mem = page' at hmem ⊢
    exact ⟨⟨hmem, h.screenX, h.screenY⟩,
      ⟨hgrid.x_nonneg, hgrid.x_lt, hgrid.y_nonneg, hgrid.y_lt⟩⟩

theorem KeyOp.foldl_same (attrib : UInt8) (ops : List KeyOp) {con con' : Console}
    (h : SameConsole con con') (hgrid : con.OnGrid) :
    SameConsole (ops.foldl (KeyOp.apply attrib) con) (ops.foldl (KeyOp.apply attrib) con') ∧
      (ops.foldl (KeyOp.apply attrib) con).OnGrid := by
  induction ops generalizing con con' with
  | nil => exact ⟨h, hgrid⟩
  | cons op ops ih =>
    obtain ⟨hsame, hgrid'⟩ := KeyOp.apply_same attrib h hgrid op
    exact ih hsame hgrid'

end Ops

/-- `k'` is `k` after `ops` for the visible terminal, by code that changes nothing but
screens, cursors and lines. -/
structure Echoes (k : Kernel) (ops : List KeyOp) (k' : Kernel) : Prop where
  drawn : k.Drawn k'
  currAttribute : k'.currAttribute = k.currAttribute
  lines : ∀ t ≠ k.terminalState, (k'.terminals t).stdin = (k.terminals t).stdin ∧
    (k'.terminals t).stdinIndex = (k.terminals t).stdinIndex
  others : ∀ t < NUM_TERMINALS, t ≠ k.terminalState →
    SameConsole (k'.logicalConsole t) (k.logicalConsole t)
  text : SameConsole (k'.logicalConsole k.terminalState)
    (ops.foldl (KeyOp.apply k.currAttribute) (k.logicalConsole k.terminalState))

section Echoes

variable {k k' k'' : Kernel} {ops ops' : List KeyOp}

theorem SameConsole.refl (c : Console) : SameConsole c c := ⟨fun _ _ _ => rfl, rfl, rfl⟩

theorem Echoes.refl (k : Kernel) : Echoes k [] k :=
  ⟨Kernel.Drawn.refl k, rfl, fun _ _ => ⟨rfl, rfl⟩, fun _ _ _ => SameConsole.refl _,
    SameConsole.refl _⟩

theorem Echoes.trans (h : Echoes k ops k') (h' : Echoes k' ops' k'')
    (hgrid : (k.logicalConsole k.terminalState).OnGrid) : Echoes k (ops ++ ops') k'' := by
  have hvisible : k'.terminalState = k.terminalState := h.drawn.sameTasks.2
  have hfold := KeyOp.foldl_same k.currAttribute ops (SameConsole.refl _) hgrid
  have htext := h'.text
  rw [hvisible, h.currAttribute] at htext
  refine ⟨h.drawn.trans h'.drawn, h'.currAttribute.trans h.currAttribute, fun t ht => ?_,
    fun t ht hne => ?_, ?_⟩
  · obtain ⟨hstdin, hindex⟩ := h.lines t ht
    obtain ⟨hstdin', hindex'⟩ := h'.lines t (hvisible ▸ ht)
    exact ⟨hstdin'.trans hstdin, hindex'.trans hindex⟩
  · exact (h'.others t ht (hvisible ▸ hne)).trans (h.others t ht hne)
  · rw [List.foldl_append]
    exact htext.trans (KeyOp.foldl_same k.currAttribute ops' h.text
      (h.text.symm.onGrid hfold.2)).1

theorem Echoes.follows (h : Echoes k ops k') : Follows k ops k' where
  serviced := h.drawn.sameTasks.1.terminalBeingServiced
  visible := h.drawn.sameTasks.2
  lines := h.lines
  others := h.others
  text := h.text

theorem Echoes.onGrid (h : Echoes k ops k') (hgrid : (k.logicalConsole k.terminalState).OnGrid) :
    (k'.logicalConsole k.terminalState).OnGrid :=
  h.text.symm.onGrid (KeyOp.foldl_same k.currAttribute ops (SameConsole.refl _) hgrid).2

theorem Kernel.Shown.line (h : k.Shown k') (t : ℕ) :
    (k'.terminals t).stdin = (k.terminals t).stdin ∧
      (k'.terminals t).stdinIndex = (k.terminals t).stdinIndex := by
  obtain ⟨_, _, _, _, _, _, _, rfl, hterm⟩ := h
  obtain ⟨x, y, ht⟩ := hterm t
  exact ⟨(congrArg Terminal.stdin ht).trans rfl, (congrArg Terminal.stdinIndex ht).trans rfl⟩

theorem Prints.echoes {scr : Screen (Addr → UInt8)} (h : Prints k k.terminalState scr k')
    (hshown : k.Shown k') (halike : Alike (OnPage k.mem (screenAddress k.terminalState
      k.terminalState)) scr
      (ops.foldl (KeyOp.apply k.currAttribute) (k.logicalConsole k.terminalState))) :
    Echoes k ops k' := by
  obtain ⟨htext, hothers⟩ := h.consoles halike
  exact ⟨hshown.drawn, h.currAttribute, fun t _ => hshown.line t, hothers, htext⟩

theorem setTerminal_echoes (k : Kernel) {f : Terminal → Terminal} (hpid : ∀ u, (f u).pid = u.pid) :
    Echoes k [] (k.setTerminal k.terminalState f) := by
  have hne {t : ℕ} (ht : t ≠ k.terminalState) :
      (k.setTerminal k.terminalState f).terminals t = k.terminals t := Function.update_of_ne ht _ _
  refine ⟨k.setTerminal_drawn _ hpid, rfl, fun t ht => ?_, fun t _ ht => ?_, ?_⟩
  · rw [hne ht]
    exact ⟨rfl, rfl⟩
  · refine ⟨fun _ _ _ => rfl, ?_, ?_⟩
    · simp only [Kernel.logicalConsole, hne ht]
      rfl
    · simp only [Kernel.logicalConsole, hne ht]
      rfl
  · refine ⟨fun _ _ _ => rfl, ?_, ?_⟩
    · simp only [Kernel.logicalConsole]
      exact if_pos rfl
    · simp only [Kernel.logicalConsole]
      exact if_pos rfl

theorem Echoes.serviced {t : ℕ} (h : Echoes { k with terminalBeingServiced := t } ops k') :
    Echoes k ops { k' with terminalBeingServiced := k.terminalBeingServiced } := by
  obtain ⟨hdrawn, hattr, hlines, hothers, htext⟩ := h
  obtain ⟨_, _, _, _, _, _, _, rfl, hpid⟩ := hdrawn
  exact ⟨⟨_, _, _, _, _, _, _, rfl, hpid⟩, hattr, hlines, hothers, htext⟩

theorem Echoes.shows (h : Echoes k ops k')
    (hshows : k.Shows (screenAddress k.terminalState k.terminalState)) :
    k'.Shows (screenAddress k'.terminalState k'.terminalState) := by
  obtain ⟨_, _, _, _, _, _, _, rfl, -⟩ := h.drawn
  exact hshows

/-- The same is on every terminal, whatever else has changed. -/
structure Kernel.SameView (k k' : Kernel) : Prop where
  serviced : k'.terminalBeingServiced = k.terminalBeingServiced
  visible : k'.terminalState = k.terminalState
  terminals : k'.terminals = k.terminals
  mem : k'.mem = k.mem
  screenX : k'.screenX = k.screenX
  screenY : k'.screenY = k.screenY
  currAttribute : k'.currAttribute = k.currAttribute

theorem Kernel.SameView.refl (k : Kernel) : k.SameView k := ⟨rfl, rfl, rfl, rfl, rfl, rfl, rfl⟩

theorem Kernel.SameView.symm (h : k.SameView k') : k'.SameView k :=
  ⟨h.serviced.symm, h.visible.symm, h.terminals.symm, h.mem.symm, h.screenX.symm, h.screenY.symm,
    h.currAttribute.symm⟩

theorem Kernel.SameView.trans (h : k.SameView k') (h' : k'.SameView k'') :
    k.SameView k'' :=
  ⟨h'.serviced.trans h.serviced, h'.visible.trans h.visible, h'.terminals.trans h.terminals,
    h'.mem.trans h.mem, h'.screenX.trans h.screenX, h'.screenY.trans h.screenY,
    h'.currAttribute.trans h.currAttribute⟩

theorem Kernel.SameView.logicalConsole (h : k.SameView k') :
    k'.logicalConsole = k.logicalConsole := by
  funext t
  unfold Kernel.logicalConsole
  rw [h.visible, h.terminals, h.mem, h.screenX, h.screenY]

theorem Follows.congr {k₀ k₀' : Kernel} (h : Follows k ops k') (hk : k.SameView k₀)
    (hk' : k'.SameView k₀') : Follows k₀ ops k₀' := by
  obtain ⟨hserviced, hvisible, hlines, hothers, htext⟩ := h
  refine ⟨?_, ?_, fun t ht => ?_, fun t ht hne => ?_, ?_⟩
  · rw [hk'.serviced, hk.serviced, hserviced]
  · rw [hk'.visible, hk.visible, hvisible]
  · rw [hk'.terminals, hk.terminals]
    exact hlines t (hk.visible ▸ ht)
  · rw [hk'.logicalConsole, hk.logicalConsole]
    exact hothers t ht (hk.visible ▸ hne)
  · rw [hk'.logicalConsole, hk.logicalConsole, hk.currAttribute, hk.visible]
    exact htext

theorem Kernel.sameView_switchTerminalContext (k : Kernel) : k.SameView k.switchTerminalContext :=
  ⟨rfl, rfl, rfl, rfl, rfl, rfl, rfl⟩

theorem Follows.switchTerminalContext (h : Follows k ops k') :
    Follows k ops k'.switchTerminalContext :=
  h.congr (.refl k) k'.sameView_switchTerminalContext

theorem Follows.of_attributes {a b : ℕ}
    (h : Follows { k with kbdAttribute := a, kbdBackAttribute := b } ops k') : Follows k ops k' :=
  h.congr ⟨rfl, rfl, rfl, rfl, rfl, rfl, rfl⟩ (.refl k')

end Echoes

section Printing

variable {k k' k'' : Kernel} {t : ℕ} {scr scr' : Screen (Addr → UInt8)}

/-- Where output for terminal `t` starts. -/
def Kernel.startOf (k : Kernel) (t : ℕ) : Screen (Addr → UInt8) :=
  ⟨k.mem, (k.logicalConsole t).screenX, (k.logicalConsole t).screenY⟩

theorem Prints.trans (h : Prints k t scr k') (h' : Prints k' t scr' k'') : Prints k t scr' k'' := by
  refine ⟨h'.pidAvail.trans h.pidAvail, h'.pcbs.trans h.pcbs, h'.paging.trans h.paging,
    h'.terminalState.trans h.terminalState, h'.currAttribute.trans h.currAttribute, h'.mem,
    fun t' => ?_, fun t' => ?_⟩
  · rw [h'.screenX, h.screenX]
    split_ifs
    · rfl
    · rfl
  · rw [h'.screenY, h.screenY]
    split_ifs
    · rfl
    · rfl

theorem prints_nothing (k : Kernel) (t : ℕ) : Prints k t (k.startOf t) k := by
  refine ⟨rfl, rfl, rfl, rfl, rfl, rfl, fun t' => ?_, fun t' => ?_⟩
  · split_ifs with heq
    · rw [heq]
      rfl
    · rfl
  · split_ifs with heq
    · rw [heq]
      rfl
    · rfl

theorem Prints.startOf (h : Prints k t scr k') : k'.startOf t = scr := by
  unfold Kernel.startOf
  rw [h.mem, h.screenX, h.screenY, if_pos rfl, if_pos rfl]

theorem Kernel.Shown.videoBus (h : k.Shown k') : k'.videoBus = k.videoBus := by
  obtain ⟨_, _, _, _, _, _, _, rfl, -⟩ := h
  rfl

theorem Kernel.writeTerminal_prints (k : Kernel) (str : ℕ → UInt8) {nbytes : Word}
    (hn : ¬ nbytes.toInt < 0) : Prints k k.terminalBeingServiced
      ((fieldString str nbytes.toNat).foldl (putcScreen k.videoBus k.currAttribute)
        (k.startOf k.terminalBeingServiced))
      (Id.run (k.writeTerminal STDOUT (fun i => (str i : Id UInt8)) nbytes)).2 := by
  rw [writeTerminal_run _ hn, putT_eq_foldl, ← List.range_eq_range']
  exact afterWrite_prints _

theorem Kernel.prints_page (k : Kernel) (mem : Addr → UInt8) :
    Prints k k.terminalState ⟨mem, 0, 0⟩ ({ k with mem := mem }.setScreenXY 0 0) := by
  refine ⟨rfl, rfl, rfl, rfl, rfl, rfl, fun t' => ?_, fun t' => ?_⟩
  · split_ifs with heq
    · exact if_pos heq
    · exact (if_neg heq).trans (if_neg heq).symm
  · split_ifs with heq
    · exact if_pos heq
    · exact (if_neg heq).trans (if_neg heq).symm

theorem Kernel.clearAndReset_prints (k : Kernel) :
    Prints k k.terminalState ⟨clear k.videoBus k.currAttribute k.mem, 0, 0⟩ k.clearAndReset := by
  rw [Kernel.clearAndReset]
  exact k.prints_page _

theorem Kernel.printfT_prints (k : Kernel) {text : List UInt8} (hnul : NulFree text) :
    Prints k k.terminalBeingServiced
      (text.foldl (putcScreen k.videoBus k.currAttribute) (k.startOf k.terminalBeingServiced))
      (k.printfT text) := by
  induction text generalizing k with
  | nil => exact prints_nothing k _
  | cons c text ih =>
    have hc : c ≠ NULL_CHAR := fun heq => hnul (heq ▸ List.mem_cons_self)
    have hchar : fieldString (fun i => Id.run (ofList [c] i)) (1#32).toNat = [c] :=
      fieldString_one hc
    have hwrite := k.writeTerminal_prints (fun i => Id.run (ofList [c] i))
      (show ¬ (1#32 : Word).toInt < 0 by decide)
    have hshown := k.writeTerminal_shown STDOUT (ofList [c]) 1#32
    rw [hchar, List.foldl_cons, List.foldl_nil] at hwrite
    change Prints k k.terminalBeingServiced _ (Id.run (k.writeTerminal STDOUT (ofList [c]) 1#32)).2
      at hwrite
    have hrest := ih (Id.run (k.writeTerminal STDOUT (ofList [c]) 1#32)).2
      fun h => hnul (List.mem_cons_of_mem c h)
    rw [hshown.terminalBeingServiced, hshown.videoBus, hwrite.currAttribute, hwrite.startOf]
      at hrest
    exact hwrite.trans hrest

end Printing

section Visible

variable {k : Kernel} (hvisible : k.terminalState < NUM_TERMINALS)
  (hshows : k.Shows (screenAddress k.terminalState k.terminalState))
  (hgrid : (k.logicalConsole k.terminalState).OnGrid)

theorem screen_eq_startOf (k : Kernel) : k.screen = k.startOf k.terminalState := by
  simp only [Kernel.screen, Kernel.startOf, Kernel.logicalConsole, if_true]

theorem startOf_alike (k : Kernel) (t : ℕ) :
    Alike (OnPage k.mem (screenAddress k.terminalState t)) (k.startOf t) (k.logicalConsole t) :=
  SameConsole.alike (SameConsole.refl _)

theorem follows_page {ops : List KeyOp} {mem : Addr → UInt8} {page : ℤ → UInt8} {a : UInt8}
    (hpage : OnPage k.mem (screenAddress k.terminalState k.terminalState) mem page)
    (hops : SameConsole { k.logicalConsole k.terminalState with mem := page }
      (ops.foldl (KeyOp.apply k.currAttribute) (k.logicalConsole k.terminalState))) :
    Follows k ops { k with mem := mem, currAttribute := a } := by
  refine ⟨rfl, rfl, fun _ _ => ⟨rfl, rfl⟩, fun t ht hne => ⟨fun i h0 h1 => ?_, rfl, rfl⟩, ?_⟩
  · have happart := screenAddress_apart k.terminalState hne
    have haddr := pageAddr_toNat (screenAddress_fits k.terminalState ht) h0 h1
    exact hpage.outside (pageAddr (screenAddress k.terminalState t) i) (by omega)
  · have hinside : SameConsole (({ k with mem := mem, currAttribute := a } :
        Kernel).logicalConsole k.terminalState) { k.logicalConsole k.terminalState with mem := page } :=
      ⟨fun i h0 h1 => hpage.inside i h0 h1, rfl, rfl⟩
    exact hinside.trans hops

include hvisible hshows

/-- Characters on the visible page, from a cursor of any terminal. -/
theorem visible_alike (cs : List UInt8) {con : Console} {x y : ℤ}
    (hstart : Alike (OnPage k.mem (screenAddress k.terminalState k.terminalState)) ⟨k.mem, x, y⟩ con)
    (hon : con.OnGrid) :
    Alike (OnPage k.mem (screenAddress k.terminalState k.terminalState))
      (cs.foldl (putcScreen k.videoBus k.currAttribute) ⟨k.mem, x, y⟩)
      ((cs.map KeyOp.put).foldl (KeyOp.apply k.currAttribute) con) := by
  have hbus := videoBus_simulates (screenAddress_fits k.terminalState hvisible) hshows k.mem
  exact (puts_alike hbus k.currAttribute cs hstart
    ⟨hstart.screenX ▸ hon.x_nonneg, hstart.screenX ▸ hon.x_lt, hstart.screenY ▸ hon.y_nonneg,
      hstart.screenY ▸ hon.y_lt⟩).1

theorem clearAndReset_echoes : Echoes k [.blank] k.clearAndReset := by
  have hbus := videoBus_simulates (screenAddress_fits k.terminalState hvisible) hshows k.mem
  have hmem := clear_rel hbus k.currAttribute (startOf_alike k k.terminalState).mem
  refine k.clearAndReset_prints.echoes k.clearAndReset_shown ?_
  rw [List.foldl_cons, List.foldl_nil]
  simp only [KeyOp.apply]
  have hstart : (k.startOf k.terminalState).mem = k.mem := rfl
  rw [hstart] at hmem
  generalize clear k.videoBus k.currAttribute k.mem = mem at hmem ⊢
  generalize clear pageBus k.currAttribute (k.logicalConsole k.terminalState).mem = page at hmem ⊢
  exact ⟨hmem, rfl, rfl⟩

theorem changeAtribute_follows (attrib : UInt8) :
    Follows k [.recolour attrib] (k.changeAtribute attrib) := by
  have hbus := videoBus_simulates (screenAddress_fits k.terminalState hvisible) hshows k.mem
  have hpage := recolour_rel hbus attrib (startOf_alike k k.terminalState).mem
  refine follows_page (a := attrib) hpage ?_
  rw [List.foldl_cons, List.foldl_nil, KeyOp.apply]
  exact SameConsole.refl _

theorem applyAttributes_follows (a b : ℕ) : Follows k [.recolour (UInt8.ofNat (b * 16 ||| a))]
    { k with kbdAttribute := a, kbdBackAttribute := b }.applyAttributes :=
  (changeAtribute_follows (k := { k with kbdAttribute := a, kbdBackAttribute := b }) hvisible hshows
    (UInt8.ofNat (b * 16 ||| a))).of_attributes

include hgrid

theorem putcKbd_echoes (c : UInt8) : Echoes k [.put c] (k.putcKbd c) := by
  refine (putcKbd_prints c).echoes (k.setScreen_shown _) ?_
  rw [screen_eq_startOf]
  exact visible_alike hvisible hshows [c] (startOf_alike k _) hgrid

theorem printfT_echoes (hserviced : k.terminalBeingServiced = k.terminalState)
    {text : List UInt8} (hnul : NulFree text) : Echoes k (text.map .put) (k.printfT text) := by
  have hprints := k.printfT_prints hnul
  rw [hserviced] at hprints
  exact hprints.echoes (k.printfT_shown text)
    (visible_alike hvisible hshows text (startOf_alike k _) hgrid)

theorem writeTerminal_echoes (hserviced : k.terminalBeingServiced = k.terminalState)
    (str : ℕ → UInt8) {nbytes : Word} (hn : ¬ nbytes.toInt < 0) :
    Echoes k ((fieldString str nbytes.toNat).map .put)
      (Id.run (k.writeTerminal STDOUT (fun i => (str i : Id UInt8)) nbytes)).2 := by
  have hprints := k.writeTerminal_prints str hn
  rw [hserviced] at hprints
  exact hprints.echoes (k.writeTerminal_shown _ _ _)
    (visible_alike hvisible hshows _ (startOf_alike k _) hgrid)

theorem backspaceKey_echoes : Echoes k
    (if 0 < (k.terminals k.terminalState).stdinIndex then [.put BKSP_CHAR] else [])
    k.backspaceKey := by
  unfold Kernel.backspaceKey
  split_ifs
  · exact (putcKbd_echoes hvisible hshows hgrid BKSP_CHAR).trans
      (setTerminal_echoes (k.putcKbd BKSP_CHAR) fun _ => rfl) hgrid
  · exact Echoes.refl k

theorem enterKey_echoes : Echoes k [.put NEW_LINE] k.enterKey := by
  rw [Kernel.enterKey_eq]
  exact (putcKbd_echoes hvisible hshows hgrid NEW_LINE).trans
    (setTerminal_echoes (k.putcKbd NEW_LINE) fun u => u.edited_pid .enter) hgrid

theorem typeKey_echoes (raw : UInt8) :
    Echoes k (typedOps raw k.keyboardState (k.terminals k.terminalState).stdinIndex)
      (k.typeKey (scancodeTable raw)) := by
  unfold Kernel.typeKey typedOps
  split_ifs
  · exact Echoes.refl k
  · cases mappedChar k.keyboardState (scancodeTable raw) with
    | none => exact Echoes.refl k
    | some c =>
      exact (putcKbd_echoes hvisible hshows hgrid c).trans
        (setTerminal_echoes (k.putcKbd c) fun _ => rfl) hgrid

theorem writeLine_echoes (hserviced : k.terminalBeingServiced = k.terminalState)
    (stdin : ℕ → UInt8) : Echoes k ((shownLine stdin).map .put)
      (Id.run (k.writeTerminal STDOUT (fun i => (stdin i : Id UInt8)) (BitVec.ofNat 32
        ((Id.run (strlen (fun i => (stdin i : Id UInt8)) KEYBOARD_BUFF_SIZE 0)).getD 0)))).2 := by
  unfold shownLine
  have hlen : (Id.run (strlen (fun i => (stdin i : Id UInt8)) KEYBOARD_BUFF_SIZE 0)).getD 0 ≤
      KEYBOARD_BUFF_SIZE := by
    cases hlen : Id.run (strlen (fun i => (stdin i : Id UInt8)) KEYBOARD_BUFF_SIZE 0) with
    | none => exact Nat.zero_le _
    | some n =>
      have hlt := strlen_run_lt _ _ _ hlen
      rw [Nat.zero_add] at hlt
      exact hlt.le
  generalize (Id.run (strlen (fun i => (stdin i : Id UInt8)) KEYBOARD_BUFF_SIZE 0)).getD 0 = n
    at hlen ⊢
  have hn : n < 2 ^ 31 := hlen.trans_lt (by decide)
  have hnat : (BitVec.ofNat 32 n).toNat = n := by
    rw [BitVec.toNat_ofNat]
    omega
  have hsigned : ¬ (BitVec.ofNat 32 n).toInt < 0 := by
    rw [BitVec.toInt_eq_toNat_of_lt (by omega)]
    omega
  have hwrite := writeTerminal_echoes hvisible hshows hgrid hserviced stdin hsigned
  rwa [hnat] at hwrite

theorem promptLine_echoes : Echoes k
    ((PROMPT ++ shownLine (k.terminals k.terminalState).stdin).map .put)
      (k.promptLine k.terminalBeingServiced) := by
  unfold Kernel.promptLine
  extract_lets k₀ k₁ k₂ stdin n k₃
  have hsave : Echoes k [] k₀ := setTerminal_echoes k fun _ => rfl
  have hstate₁ : k₁.terminalState = k.terminalState := rfl
  have hserviced₁ : k₁.terminalBeingServiced = k₁.terminalState := rfl
  have hshows₁ : k₁.Shows (screenAddress k₁.terminalState k₁.terminalState) := hsave.shows hshows
  have hgrid₁ : (k₁.logicalConsole k₁.terminalState).OnGrid := hsave.onGrid hgrid
  have hprompt : Echoes k₁ (PROMPT.map .put) k₂ :=
    printfT_echoes (hstate₁ ▸ hvisible) hshows₁ hgrid₁ hserviced₁ (by decide)
  have hstate₂ : k₂.terminalState = k₁.terminalState := hprompt.drawn.sameTasks.2
  have hserviced₂ : k₂.terminalBeingServiced = k₂.terminalState :=
    hprompt.drawn.sameTasks.1.terminalBeingServiced.trans (hserviced₁.trans hstate₂.symm)
  have hgrid₂ : (k₂.logicalConsole k₂.terminalState).OnGrid := by
    rw [hstate₂]
    exact hprompt.onGrid hgrid₁
  have hvisible₂ : k₂.terminalState < NUM_TERMINALS := by
    rw [hstate₂, hstate₁]
    exact hvisible
  have hline : Echoes k₂ ((shownLine stdin).map .put) k₃ :=
    writeLine_echoes hvisible₂ (hprompt.shows hshows₁) hgrid₂ hserviced₂ stdin
  have hsame : stdin = (k.terminals k.terminalState).stdin := by
    have hshown : k₁.Shown k₂ := k₁.printfT_shown PROMPT
    have hstdin : stdin = (k₂.terminals k₂.terminalState).stdin := rfl
    rw [hstdin, (hshown.line _).1, hstate₂, hstate₁]
    exact ((k.saveScreenXY_shown k.terminalState).line k.terminalState).1
  have hboth : Echoes k₁ ((PROMPT ++ shownLine (k.terminals k.terminalState).stdin).map .put) k₃ := by
    rw [List.map_append, ← hsame]
    exact hprompt.trans hline hgrid₁
  exact hsave.trans hboth.serviced hgrid

theorem ctrlKey_follows (mapped : Scancode) : Follows k
    (if mapped.result = CLEAR_SCREEN_SHORTCUT then
      .blank :: (PROMPT ++ shownLine (k.terminals k.terminalState).stdin).map .put
    else if mapped.result = ASCII_SIX then
      let a := if MAX_ATTRIB < k.kbdAttribute + 1 then MIN_ATTRIB else k.kbdAttribute + 1
      [.recolour (UInt8.ofNat (k.kbdBackAttribute * 16 ||| a))]
    else if mapped.result = ASCII_SEVEN then
      let a :=
        if MAX_BACKGROUD_ATTRIB < k.kbdBackAttribute + 1 then MIN_BACKGROUD_ATTRIB
        else k.kbdBackAttribute + 1
      [.recolour (UInt8.ofNat (a * 16 ||| k.kbdAttribute))]
    else []) (k.ctrlKey mapped) := by
  unfold Kernel.ctrlKey
  refine Follows.switchTerminalContext ?_
  by_cases hclear : mapped.result = CLEAR_SCREEN_SHORTCUT
  · rw [if_pos hclear, if_pos hclear]
    have hblank := clearAndReset_echoes hvisible hshows
    have hline := (k.clearAndReset_shown.line k.terminalState).1
    generalize k.clearAndReset = k₁ at hblank hline ⊢
    have hstate : k₁.terminalState = k.terminalState := hblank.drawn.sameTasks.2
    have hserviced : k₁.terminalBeingServiced = k.terminalBeingServiced :=
      hblank.drawn.sameTasks.1.terminalBeingServiced
    have hgrid₁ : (k₁.logicalConsole k₁.terminalState).OnGrid := by
      rw [hstate]
      exact hblank.onGrid hgrid
    have hprompt := promptLine_echoes (hstate ▸ hvisible) (hblank.shows hshows) hgrid₁
    rw [hstate, hline, hserviced] at hprompt
    exact (hblank.trans hprompt hgrid).follows
  rw [if_neg hclear, if_neg hclear]
  by_cases hsix : mapped.result = ASCII_SIX
  · rw [if_pos hsix, if_pos hsix]
    dsimp only
    generalize (if MAX_ATTRIB < k.kbdAttribute + 1 then MIN_ATTRIB else k.kbdAttribute + 1) = a
    exact applyAttributes_follows hvisible hshows a k.kbdBackAttribute
  rw [if_neg hsix, if_neg hsix]
  by_cases hseven : mapped.result = ASCII_SEVEN
  · rw [if_pos hseven, if_pos hseven]
    dsimp only
    generalize (if MAX_BACKGROUD_ATTRIB < k.kbdBackAttribute + 1 then MIN_BACKGROUD_ATTRIB
      else k.kbdBackAttribute + 1) = b
    exact applyAttributes_follows hvisible hshows k.kbdAttribute b
  · rw [if_neg hseven, if_neg hseven]
    exact (Echoes.refl k).follows

theorem plainKey_follows (raw : UInt8) : Follows k
    (if isOn k.keyboardState BACKSPACE_MASK then
      (if 0 < (k.terminals k.terminalState).stdinIndex then [KeyOp.put BKSP_CHAR] else []) ++
        typedOps raw k.keyboardState ((k.terminals k.terminalState).stdinIndex - 1)
    else if (scancodeTable raw).result = NEW_LINE ∧
        (k.terminals k.terminalState).stdinIndex < KEYBOARD_BUFF_SIZE - 1 then [KeyOp.put NEW_LINE]
    else typedOps raw k.keyboardState (k.terminals k.terminalState).stdinIndex)
    (k.plainKey (scancodeTable raw)) := by
  unfold Kernel.plainKey
  by_cases hback : isOn k.keyboardState BACKSPACE_MASK = true
  · rw [if_pos hback, if_pos hback]
    have herase := backspaceKey_echoes hvisible hshows hgrid
    have hindex : (k.backspaceKey.terminals k.terminalState).stdinIndex =
        (k.terminals k.terminalState).stdinIndex - 1 := by
      rw [Kernel.backspaceKey_terminals, Kernel.editedTerminals, Function.update_self]
      split_ifs with hindex
      · rfl
      · change (k.terminals k.terminalState).stdinIndex = _
        omega
    have hstate : k.backspaceKey.terminalState = k.terminalState := herase.drawn.sameTasks.2
    have hkeys : k.backspaceKey.keyboardState = k.keyboardState := by
      obtain ⟨_, _, _, _, _, _, _, hk, -⟩ := herase.drawn
      rw [hk]
    have htyped := typeKey_echoes (k := k.backspaceKey) (hstate ▸ hvisible) (herase.shows hshows)
      (hstate ▸ herase.onGrid hgrid) raw
    rw [hkeys, hstate, hindex] at htyped
    exact (herase.trans htyped hgrid).follows.switchTerminalContext
  rw [if_neg hback, if_neg hback]
  split_ifs
  · exact (enterKey_echoes hvisible hshows hgrid).follows.switchTerminalContext
  · exact (typeKey_echoes hvisible hshows hgrid raw).follows.switchTerminalContext

end Visible

section Cursor

variable {σ : Type} (bus : VideoBus σ) (attrib : UInt8) {s : Screen σ}

theorem putcScreen_newLine (hs : s.OnGrid) :
    (putcScreen bus attrib s NEW_LINE).screenX = 0 ∧
      (putcScreen bus attrib s NEW_LINE).screenY = min (s.screenY + 1) 24 := by
  have hy := hs.y_lt
  unfold putcScreen
  rw [if_pos (Or.inl rfl)]
  by_cases hlast : s.screenY + 1 ≥ NUM_ROWS
  · rw [if_pos hlast, shiftScreenUp]
    simp only [NUM_ROWS, true_and] at hy hlast ⊢
    omega
  · rw [if_neg hlast]
    simp only [NUM_ROWS, true_and] at hy hlast ⊢
    omega

theorem putcScreen_glyph {c : UInt8} (hc : Glyph c) (hs : s.OnGrid)
    (hx : s.screenX + 1 < NUM_COLS) :
    (putcScreen bus attrib s c).screenX = s.screenX + 1 ∧
      (putcScreen bus attrib s c).screenY = s.screenY := by
  obtain ⟨hline, hreturn, hback⟩ := hc
  obtain ⟨h1, -, -, h4⟩ := hs
  simp only [NUM_COLS, NUM_ROWS] at h4 hx
  have hdiv : (s.screenX + 1).tdiv 80 = 0 := Int.tdiv_eq_zero_of_lt (by omega) hx
  have hmod : (s.screenX + 1).tmod 80 = s.screenX + 1 := Int.tmod_eq_of_lt (by omega) hx
  unfold putcScreen
  rw [if_neg (not_or.mpr ⟨hline, hreturn⟩), if_neg hback]
  simp only [NUM_COLS, NUM_ROWS, hdiv, hmod, add_zero]
  rw [if_neg (by omega)]
  exact ⟨rfl, rfl⟩

theorem puts_glyphs {cs : List UInt8} (hcs : ∀ c ∈ cs, Glyph c) (hs : s.OnGrid)
    (hx : s.screenX + cs.length < NUM_COLS) :
    (cs.foldl (putcScreen bus attrib) s).screenX = s.screenX + cs.length ∧
      (cs.foldl (putcScreen bus attrib) s).screenY = s.screenY ∧
      (cs.foldl (putcScreen bus attrib) s).OnGrid := by
  induction cs generalizing s with
  | nil => exact ⟨(add_zero _).symm, rfl, hs⟩
  | cons c cs ih =>
    rw [List.length_cons, Nat.cast_add, Nat.cast_one] at hx ⊢
    obtain ⟨hscreenX, hscreenY⟩ := putcScreen_glyph bus attrib (hcs c List.mem_cons_self) hs
      (by omega)
    obtain ⟨hx', hy', hgrid⟩ := ih (fun c' hc' => hcs c' (List.mem_cons_of_mem c hc'))
      (putcScreen_onGrid bus attrib hs c) (by rw [hscreenX]; omega)
    rw [List.foldl_cons, hx', hy', hscreenX, hscreenY]
    exact ⟨by omega, rfl, hgrid⟩

theorem puts_refusal (hs : s.OnGrid) :
    (REFUSAL.foldl (putcScreen bus attrib) s).screenX = 7 ∧
      (REFUSAL.foldl (putcScreen bus attrib) s).screenY = min (s.screenY + 2) 24 := by
  obtain ⟨line, hrefusal, hline, hlength⟩ : ∃ line, REFUSAL = NEW_LINE :: (line ++ NEW_LINE :: PROMPT) ∧
      (∀ c ∈ line, Glyph c) ∧ line.length < 80 :=
    ⟨(MAX_PROCESSES_MESSAGE.drop 1).dropLast, rfl, glyphs_of_all rfl, by decide⟩
  have hprompt : ∀ c ∈ PROMPT, Glyph c := glyphs_of_all rfl
  have hstart := putcScreen_newLine bus attrib hs
  have hgrid := putcScreen_onGrid bus attrib hs NEW_LINE
  rw [hrefusal, List.foldl_cons, List.foldl_append, List.foldl_cons]
  generalize putcScreen bus attrib s NEW_LINE = s₁ at hstart hgrid ⊢
  obtain ⟨hx₁, hy₁⟩ := hstart
  obtain ⟨-, hy₂, hgrid₂⟩ := puts_glyphs bus attrib hline hgrid
    (by rw [hx₁, NUM_COLS]; omega)
  generalize line.foldl (putcScreen bus attrib) s₁ = s₂ at hy₂ hgrid₂ ⊢
  have hstart₃ := putcScreen_newLine bus attrib hgrid₂
  have hgrid₃ := putcScreen_onGrid bus attrib hgrid₂ NEW_LINE
  generalize putcScreen bus attrib s₂ NEW_LINE = s₃ at hstart₃ hgrid₃ ⊢
  obtain ⟨hx₃, hy₃⟩ := hstart₃
  obtain ⟨hx₄, hy₄, -⟩ := puts_glyphs bus attrib hprompt hgrid₃
    (by rw [hx₃, NUM_COLS]; decide)
  rw [hx₄, hy₄, hx₃, hy₃, hy₂, hy₁]
  exact ⟨by decide, by omega⟩

end Cursor

/-- Every process has the screen of its terminal, and every cursor is on the grid. -/
structure Kernel.Displays (k : Kernel) : Prop where
  visible : k.terminalState < NUM_TERMINALS
  serviced : k.terminalBeingServiced < NUM_TERMINALS
  screens : k.ScreensMapped
  grid : ∀ t < NUM_TERMINALS, (k.logicalConsole t).OnGrid

/-- The visible terminal runs a live process of its own. -/
def Kernel.RunsVisible (k : Kernel) : Prop :=
  k.Used (k.front k.terminalState) ∧ k.owner (k.front k.terminalState) = k.terminalState

/-- The directory that the key handler loads has the screen of the visible terminal. -/
def Kernel.ShowsVisible (k : Kernel) : Prop := (k.loadTerminalDirectory k.terminalState).Shows VIDEO

section Handler

variable {k : Kernel}

theorem Kernel.Displays.showsVisible (h : k.Displays) (hruns : k.RunsVisible) : k.ShowsVisible := by
  obtain ⟨hused, howner⟩ := hruns
  obtain ⟨-, phys, granted, htask⟩ := h.screens _ hused
  rw [howner] at htask
  have hshows := Paging.TaskPaging.shows (k := k.loadTerminalDirectory k.terminalState) htask
    hused.1 h.visible (getPageDirectoryForPid_of_lt hused.1)
  have hscreen : screenAddress k.terminalState k.terminalState = VIDEO := if_pos rfl
  unfold Kernel.ShowsVisible
  rw [← hscreen]
  exact hshows

theorem Kernel.ShowsVisible.pressed (hshows : k.ShowsVisible) (raw : UInt8) :
    (k.interrupted.pressed raw).Shows (screenAddress k.terminalState k.terminalState) := by
  have hscreen : screenAddress k.terminalState k.terminalState = VIDEO := if_pos rfl
  rw [hscreen]
  exact hshows

theorem Kernel.sameView_setInterruptFlag (k : Kernel) (b : Bool) :
    k.SameView (k.setInterruptFlag b) := ⟨rfl, rfl, rfl, rfl, rfl, rfl, rfl⟩

theorem Kernel.sameView_setPcb (k : Kernel) (a : Addr) (f : Pcb → Pcb) :
    k.SameView (k.setPcb a f) := ⟨rfl, rfl, rfl, rfl, rfl, rfl, rfl⟩

theorem Kernel.sameView_loadTerminalDirectory (k : Kernel) (t : ℕ) :
    k.SameView (k.loadTerminalDirectory t) := ⟨rfl, rfl, rfl, rfl, rfl, rfl, rfl⟩

theorem Kernel.sameView_setKeyboardState (k : Kernel) (state : Word) :
    k.SameView { k with keyboardState := state } := ⟨rfl, rfl, rfl, rfl, rfl, rfl, rfl⟩

theorem Kernel.sameView_modifiers (k : Kernel) (raw : UInt8) : k.SameView { k.interrupted with
    keyboardState := updateKeyboardState k.interrupted.keyboardState raw } := by
  have hinterrupted : k.SameView k.interrupted :=
    (k.sameView_setPcb _ _).trans (sameView_setInterruptFlag _ true)
  exact hinterrupted.trans (k.interrupted.sameView_setKeyboardState _)

/-- The handler begins by reading the modifiers and loading a directory. -/
theorem Kernel.sameView_pressed (k : Kernel) (raw : UInt8) :
    k.SameView (k.interrupted.pressed raw) :=
  (k.sameView_modifiers raw).trans (sameView_loadTerminalDirectory _ _)

theorem Kernel.sameView_alt {k₁ : Kernel} {raw : UInt8} {b : Bool}
    (hk₁ : k₁ = (k.interrupted.pressed raw).setInterruptFlag b) : k.SameView k₁ := by
  rw [hk₁]
  exact (k.sameView_pressed raw).trans (Kernel.sameView_setInterruptFlag _ b)

theorem Follows.of_pressed {ops : List KeyOp} {k' : Kernel} {raw : UInt8}
    (h : Follows (k.interrupted.pressed raw) ops k') : Follows k ops k' :=
  h.congr (k.sameView_pressed raw).symm (.refl k')

theorem Kernel.asksFor_of_alt {raw : UInt8}
    (hmake : ¬ (raw = DELETE_SCAN_CODE ∨ ¬ (scancodeTable raw).isMake))
    (halt : isOn (updateKeyboardState k.keyboardState raw) ALT_MASK) :
    k.asksFor raw = functionKey (scancodeTable raw) := by
  obtain ⟨hdel, hmake⟩ := not_or.mp hmake
  exact if_pos ⟨hdel, not_not.mp hmake, halt⟩

theorem follows_pressed_iff {ops : List KeyOp} {k₁ k₂ : Kernel} {raw : UInt8} {b : Bool}
    (hk₁ : k₁ = (k.interrupted.pressed raw).setInterruptFlag b) :
    Follows k ops k₂.switchTerminalContext ↔ Follows k₁ ops k₂ := by
  have hview := Kernel.sameView_alt hk₁
  constructor
  · intro h
    exact h.congr hview k₂.sameView_switchTerminalContext.symm
  · intro h
    exact h.congr hview.symm k₂.sameView_switchTerminalContext

/-- A key with Alt that changes no terminal does nothing, or prints a refusal. -/
theorem Kernel.processSentScancode_alt (k : Kernel) (fs : Fs) (residue : Residue)
    (irqFlags : Word) {raw : UInt8}
    (hmake : ¬ (raw = DELETE_SCAN_CODE ∨ ¬ (scancodeTable raw).isMake))
    (halt : isOn (updateKeyboardState k.keyboardState raw) ALT_MASK)
    (hchanges : ¬ k.ChangesTerminal raw) {k₁ : Kernel}
    (hk₁ : k₁ = (k.interrupted.pressed raw).setInterruptFlag false) :
    k.interrupted.processSentScancode fs residue irqFlags raw = .returned
      (if k.RefusesTerminal raw then
        ((k₁.printfT MAX_PROCESSES_MESSAGE).printfT PROMPT).switchTerminalContext
      else k₁.switchTerminalContext) := by
  have hasks := k.asksFor_of_alt hmake halt
  obtain ⟨hdel, hmake⟩ := not_or.mp hmake
  have halt' : isOn (updateKeyboardState k.interrupted.keyboardState raw) ALT_MASK := halt
  have hstate : k₁.terminalState = k.terminalState := (sameView_alt hk₁).visible
  have hlaunched : ∀ t, k₁.Launched t ↔ k.Launched t := launched_congr (by rw [hk₁]; rfl)
  have hpid : k₁.getAvailablePid = k.getAvailablePid := by
    rw [hk₁]
    rfl
  rw [k.interrupted.processSentScancode_make fs residue irqFlags hdel (not_not.mp hmake),
    if_pos halt', altKey_eq, ← hk₁]
  cases hkey : functionKey (scancodeTable raw) with
  | none =>
    have hnone : ¬ k.RefusesTerminal raw := by
      rintro ⟨t, ht, -⟩
      rw [hasks, hkey] at ht
      cases ht
    rw [if_neg hnone]
  | some toT =>
    rw [hkey] at hasks
    dsimp only
    rw [hstate, hpid]
    by_cases hvisible : toT = k.terminalState
    · have hnone : ¬ k.RefusesTerminal raw := by
        rintro ⟨t, ht, hne, -⟩
        rw [hasks] at ht
        exact hne (Option.some.inj ht ▸ hvisible)
      rw [if_neg hnone, if_pos hvisible]
    · have hcan : ¬ k.CanShow toT := fun hcan => hchanges ⟨toT, hasks, hvisible, hcan⟩
      have hrefuses : k.RefusesTerminal raw := ⟨toT, hasks, hvisible, hcan⟩
      obtain ⟨hone, hcan⟩ := not_or.mp hcan
      obtain ⟨hunlaunched, hfull⟩ := not_or.mp hcan
      have hunlaunched : ¬ k₁.Launched toT := mt (hlaunched toT).mp hunlaunched
      rw [if_pos hrefuses, if_neg hvisible, if_neg (not_or.mpr ⟨hone, hunlaunched⟩), if_neg hfull]

theorem Kernel.Displays.key_follows (h : k.Displays) (hshows : k.ShowsVisible) (fs : Fs)
    (residue : Residue) (irqFlags : Word) {raw : UInt8} (hchanges : ¬ k.ChangesTerminal raw)
    (hrefuses : ¬ k.RefusesTerminal raw) :
    ∃ k', k.interrupted.processSentScancode fs residue irqFlags raw = .returned k' ∧
      Follows k (k.keyOps raw) k' := by
  have hshows := hshows.pressed raw
  have hview := k.sameView_pressed raw
  have hvisible : (k.interrupted.pressed raw).terminalState < NUM_TERMINALS :=
    hview.visible.symm ▸ h.visible
  have hgrid : ((k.interrupted.pressed raw).logicalConsole
      (k.interrupted.pressed raw).terminalState).OnGrid := by
    rw [hview.logicalConsole, hview.visible]
    exact h.grid _ h.visible
  rw [← hview.visible] at hshows
  unfold keyOps
  by_cases hignored : raw = DELETE_SCAN_CODE ∨ ¬ (scancodeTable raw).isMake
  · rw [if_pos hignored]
    refine ⟨_, k.interrupted.processSentScancode_ignored fs residue irqFlags hignored, ?_⟩
    exact (Echoes.refl k).follows.congr (.refl k) (k.sameView_modifiers raw)
  rw [if_neg hignored]
  by_cases halt : isOn (updateKeyboardState k.keyboardState raw) ALT_MASK = true
  · rw [if_pos halt, if_neg hrefuses]
    have hkey := k.processSentScancode_alt fs residue irqFlags hignored halt hchanges rfl
    rw [if_neg hrefuses] at hkey
    exact ⟨_, hkey, (follows_pressed_iff rfl).mpr (Echoes.refl _).follows⟩
  obtain ⟨hdel, hmake⟩ := not_or.mp hignored
  have hkey := k.interrupted.processSentScancode_make fs residue irqFlags hdel (not_not.mp hmake)
  have hkeyboard : k.interrupted.keyboardState = k.keyboardState := rfl
  rw [hkeyboard, if_neg halt] at hkey
  rw [if_neg halt]
  by_cases hctrl : isOn (updateKeyboardState k.keyboardState raw) CONTROL_MASK = true
  · rw [if_pos hctrl] at hkey ⊢
    exact ⟨_, hkey, (ctrlKey_follows hvisible hshows hgrid (scancodeTable raw)).of_pressed⟩
  · rw [if_neg hctrl] at hkey ⊢
    exact ⟨_, hkey, (plainKey_follows hvisible hshows hgrid raw).of_pressed⟩

theorem typeKey_silent {raw : UInt8}
    (h : typedOps raw k.keyboardState (k.terminals k.terminalState).stdinIndex = []) :
    k.typeKey (scancodeTable raw) = k := by
  unfold typedOps at h
  unfold Kernel.typeKey
  split_ifs at h ⊢
  · rfl
  · cases hc : mappedChar k.keyboardState (scancodeTable raw) with
    | none => rfl
    | some c =>
      rw [hc] at h
      cases h

theorem plainKey_silent {raw : UInt8}
    (h : (if isOn k.keyboardState BACKSPACE_MASK then
        (if 0 < (k.terminals k.terminalState).stdinIndex then [KeyOp.put BKSP_CHAR] else []) ++
          typedOps raw k.keyboardState ((k.terminals k.terminalState).stdinIndex - 1)
      else if (scancodeTable raw).result = NEW_LINE ∧
          (k.terminals k.terminalState).stdinIndex < KEYBOARD_BUFF_SIZE - 1 then [.put NEW_LINE]
      else typedOps raw k.keyboardState (k.terminals k.terminalState).stdinIndex) = []) :
    k.plainKey (scancodeTable raw) = k.switchTerminalContext := by
  unfold Kernel.plainKey
  by_cases hback : isOn k.keyboardState BACKSPACE_MASK = true
  · rw [if_pos hback] at h ⊢
    obtain ⟨herased, htyped⟩ := List.append_eq_nil_iff.mp h
    have hindex : ¬ 0 < (k.terminals k.terminalState).stdinIndex := by
      intro hindex
      rw [if_pos hindex] at herased
      cases herased
    have hkept : k.backspaceKey = k := if_neg hindex
    have hzero : (k.terminals k.terminalState).stdinIndex - 1 =
        (k.terminals k.terminalState).stdinIndex := by omega
    rw [hzero] at htyped
    rw [hkept, typeKey_silent htyped]
  · rw [if_neg hback] at h ⊢
    split_ifs at h with henter
    rw [if_neg henter, typeKey_silent h]

/-- A key that sends nothing changes nothing that a terminal shows. -/
theorem Kernel.key_silent (k : Kernel) (fs : Fs) (residue : Residue) (irqFlags : Word) {raw : UInt8}
    (hchanges : ¬ k.ChangesTerminal raw) (hsilent : k.keyOps raw = []) :
    ∃ k', k.interrupted.processSentScancode fs residue irqFlags raw = .returned k' ∧
      k.SameView k' := by
  unfold keyOps at hsilent
  by_cases hignored : raw = DELETE_SCAN_CODE ∨ ¬ (scancodeTable raw).isMake
  · exact ⟨_, k.interrupted.processSentScancode_ignored fs residue irqFlags hignored,
      rfl, rfl, rfl, rfl, rfl, rfl, rfl⟩
  rw [if_neg hignored] at hsilent
  have hview := (k.sameView_pressed raw).trans
    (k.interrupted.pressed raw).sameView_switchTerminalContext
  by_cases halt : isOn (updateKeyboardState k.keyboardState raw) ALT_MASK = true
  · have hrefuses : ¬ k.RefusesTerminal raw := by
      intro hrefuses
      rw [if_pos halt, if_pos hrefuses] at hsilent
      cases hsilent
    have hkey := k.processSentScancode_alt fs residue irqFlags hignored halt hchanges rfl
    rw [if_neg hrefuses] at hkey
    exact ⟨_, hkey, (sameView_alt rfl).trans (Kernel.sameView_switchTerminalContext _)⟩
  rw [if_neg halt] at hsilent
  obtain ⟨hdel, hmake⟩ := not_or.mp hignored
  have hkey := k.interrupted.processSentScancode_make fs residue irqFlags hdel (not_not.mp hmake)
  have hkeyboard : k.interrupted.keyboardState = k.keyboardState := rfl
  rw [hkeyboard, if_neg halt] at hkey
  by_cases hctrl : isOn (updateKeyboardState k.keyboardState raw) CONTROL_MASK = true
  · rw [if_pos hctrl] at hkey hsilent
    refine ⟨_, hkey, ?_⟩
    unfold ctrlKey
    dsimp only at hsilent
    split_ifs at hsilent with hclear hsix hseven
    rw [if_neg hclear, if_neg hsix, if_neg hseven]
    exact hview
  · rw [if_neg hctrl] at hkey hsilent
    rw [plainKey_silent (k := k.interrupted.pressed raw) hsilent] at hkey
    exact ⟨_, hkey, hview⟩

/-- The cursor of a terminal is behind a prompt in the last row. -/
def Kernel.AtPrompt (k : Kernel) (t : ℕ) : Prop :=
  (k.logicalConsole t).screenX = 7 ∧ (k.logicalConsole t).screenY = 24

theorem puts_refusal_ops (attrib : UInt8) {con : Console} (hon : con.OnGrid) :
    ((REFUSAL.map KeyOp.put).foldl (KeyOp.apply attrib) con).screenX = 7 ∧
      ((REFUSAL.map KeyOp.put).foldl (KeyOp.apply attrib) con).screenY =
        min (con.screenY + 2) 24 := by
  rw [List.foldl_map]
  exact puts_refusal pageBus attrib hon

/-- Printed from the cursor of the serviced terminal, a refusal starts at that of the
visible one when they are the same terminal, or both cursors are where it leaves them. -/
theorem refusal_follows_iff (hvisible : k.terminalState < NUM_TERMINALS)
    (hserviced : k.terminalBeingServiced < NUM_TERMINALS)
    (hgrid : ∀ t < NUM_TERMINALS, (k.logicalConsole t).OnGrid)
    (hshows : k.Shows (screenAddress k.terminalState k.terminalState)) :
    Follows k (REFUSAL.map .put) (k.printfT REFUSAL) ↔
      k.terminalBeingServiced = k.terminalState ∨
        k.AtPrompt k.terminalBeingServiced ∧ k.AtPrompt k.terminalState := by
  have hnul : NulFree REFUSAL := by decide
  by_cases hsame : k.terminalBeingServiced = k.terminalState
  · exact iff_of_true (printfT_echoes hvisible hshows (hgrid _ hvisible) hsame hnul).follows
      (Or.inl hsame)
  have hprints := k.printfT_prints hnul
  have hshown := k.printfT_shown REFUSAL
  obtain ⟨hx, hy⟩ := puts_refusal k.videoBus k.currAttribute (s := k.startOf k.terminalBeingServiced)
    ⟨(hgrid _ hserviced).x_nonneg, (hgrid _ hserviced).x_lt, (hgrid _ hserviced).y_nonneg,
      (hgrid _ hserviced).y_lt⟩
  obtain ⟨hx', hy'⟩ := puts_refusal_ops k.currAttribute (hgrid _ hvisible)
  have hrow := (hgrid _ hserviced).y_lt
  have hrow' := (hgrid _ hvisible).y_lt
  rw [NUM_ROWS] at hrow hrow'
  have hpage (hx : _ = _) (hy : _ = _) := visible_alike hvisible hshows REFUSAL
    (x := (k.logicalConsole k.terminalBeingServiced).screenX)
    (y := (k.logicalConsole k.terminalBeingServiced).screenY)
    ⟨(startOf_alike k k.terminalState).mem, hx, hy⟩ (hgrid _ hvisible)
  change _ = min ((k.logicalConsole k.terminalBeingServiced).screenY + 2) 24 at hy
  unfold Kernel.startOf at hprints hx hy
  generalize k.printfT REFUSAL = k' at hprints hshown ⊢
  generalize REFUSAL.foldl (putcScreen k.videoBus k.currAttribute) _ = scr at hprints hx hy hpage
  constructor
  · intro h
    have hserved := h.others _ hserviced hsame
    have hsx := hserved.screenX
    have hsy := hserved.screenY
    have hvx := h.text.screenX
    have hvy := h.text.screenY
    rw [hprints.screenX, if_pos rfl, hx] at hsx
    rw [hprints.screenY, if_pos rfl, hy] at hsy
    rw [hprints.screenX, if_neg (Ne.symm hsame), hx'] at hvx
    rw [hprints.screenY, if_neg (Ne.symm hsame), hy'] at hvy
    exact Or.inr ⟨⟨hsx.symm, by omega⟩, ⟨hvx, by omega⟩⟩
  · intro h
    obtain ⟨⟨hsx, hsy⟩, ⟨hvx, hvy⟩⟩ := h.resolve_left hsame
    have hpage := hpage (hsx.trans hvx.symm) (hsy.trans hvy.symm)
    -- the cursor of the serviced terminal ends where it was
    have hx : _ = (k.logicalConsole k.terminalBeingServiced).screenX := hx.trans hsx.symm
    have hy : _ = (k.logicalConsole k.terminalBeingServiced).screenY :=
      hy.trans (by rw [hsy]; decide)
    refine ⟨hshown.terminalBeingServiced, hprints.terminalState, fun t _ => hshown.line t,
      fun t ht hne => ⟨fun i h0 h1 => ?_, ?_, ?_⟩, fun i h0 h1 => ?_, ?_, ?_⟩
    · have happart := screenAddress_apart k.terminalState hne
      have haddr := pageAddr_toNat (screenAddress_fits k.terminalState ht) h0 h1
      simp only [Kernel.logicalConsole, hprints.mem, hprints.terminalState]
      exact hpage.mem.outside _ (by omega)
    · rw [hprints.screenX]
      split_ifs with heq
      · rw [hx, heq]
      · rfl
    · rw [hprints.screenY]
      split_ifs with heq
      · rw [hy, heq]
      · rfl
    · have htext := hpage.mem.inside i h0 h1
      rw [← htext, ← hprints.mem, ← hprints.terminalState]
      rfl
    · rw [hprints.screenX, if_neg (Ne.symm hsame), hx', hvx]
    · rw [hprints.screenY, if_neg (Ne.symm hsame), hy', hvy]
      decide

theorem Kernel.RefusesTerminal.alt {raw : UInt8} (h : k.RefusesTerminal raw) :
    ¬ (raw = DELETE_SCAN_CODE ∨ ¬ (scancodeTable raw).isMake) ∧
      isOn (updateKeyboardState k.keyboardState raw) ALT_MASK := by
  obtain ⟨t, ht, -⟩ := h
  unfold asksFor at ht
  split_ifs at ht with hkey
  exact ⟨not_or.mpr ⟨hkey.1, not_not.mpr hkey.2.1⟩, hkey.2.2⟩

theorem Kernel.RefusesTerminal.keyOps {raw : UInt8} (h : k.RefusesTerminal raw) :
    k.keyOps raw = REFUSAL.map .put := by
  obtain ⟨hmake, halt⟩ := h.alt
  unfold Kernel.keyOps
  rw [if_neg hmake, if_pos halt, if_pos h]

theorem Kernel.Displays.key_refused (h : k.Displays) (hshows : k.ShowsVisible) (fs : Fs)
    (residue : Residue) (irqFlags : Word) {raw : UInt8} (hchanges : ¬ k.ChangesTerminal raw)
    (hrefuses : k.RefusesTerminal raw) :
    ∃ k', k.interrupted.processSentScancode fs residue irqFlags raw = .returned k' ∧
      (Follows k (k.keyOps raw) k' ↔ k.terminalBeingServiced = k.terminalState ∨
        k.AtPrompt k.terminalBeingServiced ∧ k.AtPrompt k.terminalState) := by
  obtain ⟨hmake, halt⟩ := hrefuses.alt
  have hshows := hshows.pressed raw
  obtain ⟨k₁, hk₁⟩ : ∃ k₁, k₁ = (k.interrupted.pressed raw).setInterruptFlag false := ⟨_, rfl⟩
  have hview : k.SameView k₁ := sameView_alt hk₁
  have hvisible := hview.visible
  have hserviced := hview.serviced
  have hconsoles := hview.logicalConsole
  have hprompt (t : ℕ) : k₁.AtPrompt t ↔ k.AtPrompt t := by
    unfold AtPrompt
    rw [hconsoles]
  have hshows₁ : k₁.Shows (screenAddress k₁.terminalState k₁.terminalState) := by
    rw [hvisible, hk₁]
    exact hshows
  have hprints : (k₁.printfT MAX_PROCESSES_MESSAGE).printfT PROMPT = k₁.printfT REFUSAL := by
    unfold printfT REFUSAL
    rw [List.foldl_append]
  have hkey := k.processSentScancode_alt fs residue irqFlags hmake halt hchanges hk₁
  have hiff := refusal_follows_iff (hvisible ▸ h.visible) (hserviced ▸ h.serviced)
    (hconsoles ▸ h.grid) hshows₁
  rw [if_pos hrefuses, hprints] at hkey
  rw [hprompt, hprompt, hvisible, hserviced] at hiff
  refine ⟨_, hkey, ?_⟩
  rw [hrefuses.keyOps, follows_pressed_iff hk₁]
  exact hiff

/-- Which keys leave all but the visible terminal alone, while its screen is mapped. -/
theorem Kernel.Displays.key_exact (h : k.Displays) (hshows : k.ShowsVisible) (fs : Fs)
    (residue : Residue) (irqFlags : Word) {raw : UInt8} (hchanges : ¬ k.ChangesTerminal raw) :
    ∃ k', k.interrupted.processSentScancode fs residue irqFlags raw = .returned k' ∧
      (Follows k (k.keyOps raw) k' ↔ (k.RefusesTerminal raw →
        k.terminalBeingServiced = k.terminalState ∨
          k.AtPrompt k.terminalBeingServiced ∧ k.AtPrompt k.terminalState)) := by
  by_cases hrefuses : k.RefusesTerminal raw
  · obtain ⟨k', hkey, hiff⟩ := h.key_refused hshows fs residue irqFlags hchanges hrefuses
    exact ⟨k', hkey, hiff.trans ⟨fun hs _ => hs, fun hs => hs hrefuses⟩⟩
  · obtain ⟨k', hkey, hfollows⟩ := h.key_follows hshows fs residue irqFlags hchanges hrefuses
    exact ⟨k', hkey, iff_of_true hfollows fun hr => absurd hr hrefuses⟩

theorem Kernel.key_returns (k : Kernel) (fs : Fs) (residue : Residue) (irqFlags : Word) {raw : UInt8}
    (hchanges : ¬ k.ChangesTerminal raw) :
    ∃ k', k.interrupted.processSentScancode fs residue irqFlags raw = .returned k' := by
  by_cases hignored : raw = DELETE_SCAN_CODE ∨ ¬ (scancodeTable raw).isMake
  · exact ⟨_, k.interrupted.processSentScancode_ignored fs residue irqFlags hignored⟩
  by_cases halt : isOn (updateKeyboardState k.keyboardState raw) ALT_MASK = true
  · exact ⟨_, k.processSentScancode_alt fs residue irqFlags hignored halt hchanges rfl⟩
  obtain ⟨hdel, hmake⟩ := not_or.mp hignored
  have hkey := k.interrupted.processSentScancode_make fs residue irqFlags hdel (not_not.mp hmake)
  have hkeyboard : k.interrupted.keyboardState = k.keyboardState := rfl
  rw [hkeyboard, if_neg halt] at hkey
  split_ifs at hkey
  · exact ⟨_, hkey⟩
  · exact ⟨_, hkey⟩

/-- The key keeps to the visible terminal: it sends nothing, or the directory that is
loaded has the visible screen, and a refusal starts at the cursor of the visible terminal or
leaves both cursors where they were. -/
def Kernel.KeepsToVisible (k : Kernel) (raw : UInt8) : Prop :=
  k.keyOps raw = [] ∨ k.ShowsVisible ∧ (k.RefusesTerminal raw →
    k.terminalBeingServiced = k.terminalState ∨
      k.AtPrompt k.terminalBeingServiced ∧ k.AtPrompt k.terminalState)

theorem Kernel.Displays.key_keeps (h : k.Displays) (fs : Fs) (residue : Residue) (irqFlags : Word)
    {raw : UInt8} (hchanges : ¬ k.ChangesTerminal raw) :
    ∃ k', k.interrupted.processSentScancode fs residue irqFlags raw = .returned k' ∧
      (k.KeepsToVisible raw → Follows k (k.keyOps raw) k') ∧
      (k.ShowsVisible → Follows k (k.keyOps raw) k' → k.KeepsToVisible raw) := by
  by_cases hsilent : k.keyOps raw = []
  · obtain ⟨k', hkey, hview⟩ := k.key_silent fs residue irqFlags hchanges hsilent
    refine ⟨k', hkey, fun _ => ?_, fun _ _ => Or.inl hsilent⟩
    rw [hsilent]
    exact (Echoes.refl k).follows.congr (.refl k) hview
  by_cases hshows : k.ShowsVisible
  · obtain ⟨k', hkey, hiff⟩ := h.key_exact hshows fs residue irqFlags hchanges
    exact ⟨k', hkey, fun hkeeps => hiff.mpr (hkeeps.resolve_left hsilent).2,
      fun _ hfollows => Or.inr ⟨hshows, hiff.mp hfollows⟩⟩
  · obtain ⟨k', hkey⟩ := k.key_returns fs residue irqFlags hchanges
    exact ⟨k', hkey, fun hkeeps => absurd (hkeeps.resolve_left hsilent).1 hshows,
      fun h => absurd h hshows⟩

end Handler

end SnoopDos
