import SnoopDos.Spec.System
import SnoopDos.Proofs.Rendering

/-! Where the screen code stores. It indexes `video_mem` by its cursor and checks no
bound, so the cursor has to be on the 80x25 grid before every character. The bus is run
with a record of the offsets that are stored at. -/

namespace SnoopDos

open Loops

def OnScreen (x y : ℤ) : Prop := Screen.OnGrid (⟨(), x, y⟩ : Screen Unit)

section Recorded

variable {σ : Type} {bus : VideoBus σ}

theorem Screen.onGrid_iff {s : Screen σ} : s.OnGrid ↔ OnScreen s.screenX s.screenY :=
  ⟨fun h => ⟨h.x_nonneg, h.x_lt, h.y_nonneg, h.y_lt⟩, fun h => ⟨h.x_nonneg, h.x_lt, h.y_nonneg, h.y_lt⟩⟩

theorem Screen.OnGrid.withMem {τ : Type} {s : Screen σ} (h : s.OnGrid) (mem : τ) :
    Screen.OnGrid (⟨mem, s.screenX, s.screenY⟩ : Screen τ) :=
  ⟨h.x_nonneg, h.x_lt, h.y_nonneg, h.y_lt⟩

/-- The bus with a record of the offsets that are stored at. -/
def VideoBus.recorded (bus : VideoBus σ) : VideoBus (σ × List ℤ) where
  load r i := bus.load r.1 i
  store r i c := (bus.store r.1 i c, r.2 ++ [i])

def Records (P : List ℤ → Prop) (mem : σ) (r : σ × List ℤ) : Prop := r.1 = mem ∧ P r.2

/-- Offset `i` is in the 4000 bytes of the 2000 cells. -/
def InCells (i : ℤ) : Prop := 0 ≤ i ∧ i < 4000

instance (i : ℤ) : Decidable (InCells i) := inferInstanceAs (Decidable (_ ∧ _))

theorem recorded_simulates (bus : VideoBus σ) {P : List ℤ → Prop}
    (hP : ∀ l i, P l → InCells i → P (l ++ [i])) : bus.Simulates bus.recorded (Records P) where
  load mem r i h _ _ := by
    obtain ⟨rfl, -⟩ := h
    rfl
  store mem r i c h h0 h1 := by
    obtain ⟨rfl, hrecord⟩ := h
    exact ⟨rfl, hP _ _ hrecord ⟨h0, h1⟩⟩

def Inside (l : List ℤ) : Prop := ∀ i ∈ l, InCells i

theorem inside_append (l : List ℤ) (i : ℤ) (hl : Inside l) (hi : InCells i) :
    Inside (l ++ [i]) := by
  intro j hj
  rcases List.mem_append.mp hj with hj | hj
  · exact hl j hj
  · rw [List.mem_singleton.mp hj]
    exact hi

end Recorded

section Cursors

/-- What the screen code is asked to do. `putc_kbd` and `putc_screen` differ only in the
hardware cursor. The directory that it runs under may change in between. -/
inductive ScreenOp
  | putc (c : UInt8)
  | write (t : Fin NUM_TERMINALS) (fd : Word) (buf : ℕ → UInt8) (nbytes : Word)
  | switch (fromT toT : Fin NUM_TERMINALS)
  | clearAndReset
  | load (d : DirectoryPtr)

/-- `write_terminal` runs while the terminal it is called from is serviced. -/
def ScreenOp.apply (k : Kernel) : ScreenOp → Kernel
  | .putc c => k.putcKbd c
  | .write t fd buf nbytes =>
    (Id.run (({ k with terminalBeingServiced := t } : Kernel).writeTerminal fd
      (fun i => (buf i : Id UInt8)) nbytes)).2
  | .switch fromT toT => k.changeTerminalState fromT toT
  | .clearAndReset => k.clearAndReset
  | .load d => k.setNewPageDirectory d

/-- `memcpy` with a record of the offsets into the destination. -/
def Kernel.memcpyRecorded (k : Kernel) (dest src : Addr) (n : ℕ) (r : (Addr → UInt8) × List ℤ) :
    (Addr → UInt8) × List ℤ :=
  forRange 0 n (fun i r =>
    (k.storeByte r.1 (dest + BitVec.ofNat 32 i) (k.loadByte r.1 (src + BitVec.ofNat 32 i)),
      r.2 ++ [(i : ℤ)])) r

/-- The memory that an operation leaves, with the offsets into its page, or its pages,
that it stores at. -/
def ScreenOp.recorded (k : Kernel) : ScreenOp → (Addr → UInt8) × List ℤ
  | .putc c =>
    (putcScreen k.videoBus.recorded k.currAttribute ⟨(k.mem, []), k.screenX, k.screenY⟩ c).mem
  | .write t fd buf nbytes =>
    let cur := (k.saveScreenXY k.terminalState).terminals t
    if fd ≠ STDOUT then (k.mem, [])
    else if nbytes.toInt < 0 then (k.mem, [])
    else (Id.run (putT k.videoBus.recorded k.currAttribute (fun i => (buf i : Id UInt8))
      nbytes.toNat 0 ⟨(k.mem, []), cur.screenX, cur.screenY⟩)).2.mem
  | .switch fromT toT =>
    k.memcpyRecorded (BitVec.ofNat 32 VIDEO) (BitVec.ofNat 32 (VIDEO + (toT + 1) * LITERAL_4KB))
      LITERAL_4KB
      (k.memcpyRecorded (BitVec.ofNat 32 (VIDEO + (fromT + 1) * LITERAL_4KB))
        (BitVec.ofNat 32 VIDEO) LITERAL_4KB (k.mem, []))
  | .clearAndReset => clear k.videoBus.recorded k.currAttribute (k.mem, [])
  | .load _ => (k.mem, [])

/-- The bytes of a page that an operation may store to: a switch copies whole pages, and
what draws keeps to the cells. -/
def ScreenOp.extent : ScreenOp → ℤ
  | .switch _ _ => LITERAL_4KB
  | _ => 4000

/-- The cursor, and each terminal's saved one, is on the grid. -/
structure Kernel.CursorsOnGrid (k : Kernel) : Prop where
  cursor : OnScreen k.screenX k.screenY
  saved : ∀ t < NUM_TERMINALS, OnScreen (k.terminals t).screenX (k.terminals t).screenY

variable {k : Kernel}

theorem onScreen_zero : OnScreen 0 0 := ⟨by decide, by decide, by decide, by decide⟩

theorem initialized_cursors (k : Kernel) : k.initKbd.initializeVideoMemory.CursorsOnGrid := by
  refine ⟨onScreen_zero, fun t ht => ?_⟩
  have hinit : k.initKbd.initializeVideoMemory.terminals t = initTerminal (k.terminals t) := if_pos ht
  rw [hinit]
  exact onScreen_zero

theorem saveScreenXY_cursors (h : k.CursorsOnGrid) (t : ℕ) : (k.saveScreenXY t).CursorsOnGrid := by
  refine ⟨h.cursor, fun u hu => ?_⟩
  unfold Kernel.saveScreenXY Kernel.setTerminal
  dsimp only
  rw [Function.update_apply]
  split_ifs
  · exact h.cursor
  · exact h.saved u hu

theorem saveScreenXY_logicalConsole (k : Kernel) (t : ℕ) :
    ((k.saveScreenXY k.terminalState).terminals t).screenX = (k.logicalConsole t).screenX ∧
      ((k.saveScreenXY k.terminalState).terminals t).screenY = (k.logicalConsole t).screenY := by
  unfold Kernel.saveScreenXY Kernel.setTerminal Kernel.logicalConsole
  dsimp only
  rw [Function.update_apply]
  split_ifs <;> exact ⟨rfl, rfl⟩

theorem afterWrite_cursors (h : k.CursorsOnGrid) {scr : Screen (Addr → UInt8)} (hscr : scr.OnGrid) :
    (k.afterWrite scr).CursorsOnGrid := by
  have hscr := Screen.onGrid_iff.mp hscr
  unfold Kernel.afterWrite Kernel.saveScreenXY Kernel.setTerminal Kernel.setScreen Kernel.setScreenXY
  refine ⟨?_, fun t ht => ?_⟩
  · dsimp only
    rw [Function.update_apply]
    split_ifs
    · exact hscr
    · rw [Function.update_self]
      exact h.cursor
  · dsimp only
    rw [Function.update_apply]
    split_ifs
    · exact hscr
    · rw [Function.update_apply]
      split_ifs
      · exact h.cursor
      · exact h.saved t ht

theorem memcpyRecorded_mem (k : Kernel) (dest src : Addr) (n : ℕ) (r : (Addr → UInt8) × List ℤ) :
    (k.memcpyRecorded dest src n r).1 = (({ k with mem := r.1 } : Kernel).memcpy dest src n).mem :=
  forRange_map Prod.fst (fun _ _ _ _ => rfl) r

theorem memcpyRecorded_log (k : Kernel) (dest src : Addr) (n : ℕ) (r : (Addr → UInt8) × List ℤ) :
    (k.memcpyRecorded dest src n r).2 = r.2 ++ (List.range n).map (fun i : ℕ => (i : ℤ)) := by
  unfold Kernel.memcpyRecorded
  induction n with
  | zero => exact (List.append_nil _).symm
  | succ n ih =>
    rw [forRange_succ, ih, List.range_succ, Nat.zero_add, List.map_append, List.append_assoc,
      List.map_singleton]

/-- Each operation leaves the cursors on the grid, and stores only within its extent. -/
structure ScreenOp.Safe (k : Kernel) (op : ScreenOp) : Prop where
  cursors : (op.apply k).CursorsOnGrid
  follows : (op.recorded k).1 = (op.apply k).mem
  within : ∀ i ∈ (op.recorded k).2, 0 ≤ i ∧ i < op.extent

theorem records_nil (mem : Addr → UInt8) : Records Inside mem (mem, []) :=
  ⟨rfl, fun _ hi => absurd hi List.not_mem_nil⟩

theorem putc_safe (h : k.CursorsOnGrid) (c : UInt8) : (ScreenOp.putc c).Safe k := by
  have hgrid : k.screen.OnGrid := Screen.onGrid_iff.mpr h.cursor
  have halike := putcScreen_alike (recorded_simulates k.videoBus inside_append)
    k.currAttribute (t := ⟨(k.mem, []), k.screenX, k.screenY⟩) ⟨records_nil k.mem, rfl, rfl⟩ hgrid c
  obtain ⟨hmem, hinside⟩ := halike.mem
  exact ⟨⟨Screen.onGrid_iff.mp (putcScreen_onGrid _ _ hgrid c), h.saved⟩, hmem, hinside⟩

theorem refused_safe (h : k.CursorsOnGrid) {t : Fin NUM_TERMINALS} {fd : Word} {buf : ℕ → UInt8}
    {nbytes : Word} (hrefused : fd ≠ STDOUT ∨ nbytes.toInt < 0) :
    (ScreenOp.write t fd buf nbytes).Safe k := by
  have hsilent : (ScreenOp.write t fd buf nbytes).apply k = { k with terminalBeingServiced := t } ∧
      (ScreenOp.write t fd buf nbytes).recorded k = (k.mem, []) := by
    unfold ScreenOp.apply ScreenOp.recorded Kernel.writeTerminal
    by_cases hfd : fd ≠ STDOUT
    · simp only [if_pos hfd]
      exact ⟨rfl, trivial⟩
    · have hn := hrefused.resolve_left hfd
      simp only [if_neg hfd, if_pos hn]
      exact ⟨rfl, trivial⟩
  refine ⟨?_, ?_, ?_⟩
  · rw [hsilent.1]
    exact ⟨h.cursor, h.saved⟩
  · rw [hsilent.1, hsilent.2]
  · rw [hsilent.2]
    exact fun _ hi => absurd hi List.not_mem_nil

theorem write_safe (h : k.CursorsOnGrid) (t : Fin NUM_TERMINALS) (fd : Word) (buf : ℕ → UInt8)
    (nbytes : Word) : (ScreenOp.write t fd buf nbytes).Safe k := by
  by_cases hrefused : fd ≠ STDOUT ∨ nbytes.toInt < 0
  · exact refused_safe h hrefused
  · obtain ⟨hfd, hn⟩ := not_or.mp hrefused
    obtain rfl := not_not.mp hfd
    set k₁ : Kernel := { k with terminalBeingServiced := t } with hk₁
    set cur := (k.saveScreenXY k.terminalState).terminals t with hcur
    have h₁ : k₁.CursorsOnGrid := ⟨h.cursor, h.saved⟩
    have hprinted : (ScreenOp.write t STDOUT buf nbytes).apply k = k₁.afterWrite
        (Id.run (putT k.videoBus k.currAttribute (fun i => (buf i : Id UInt8)) nbytes.toNat 0
          ⟨k.mem, cur.screenX, cur.screenY⟩)).2 := by
      rw [hcur, (saveScreenXY_logicalConsole k t).1, (saveScreenXY_logicalConsole k t).2]
      exact writeTerminal_run (k := k₁) (fun i => (buf i : Id UInt8)) hn
    have hrecorded : (ScreenOp.write t STDOUT buf nbytes).recorded k =
        (Id.run (putT k.videoBus.recorded k.currAttribute (fun i => (buf i : Id UInt8))
          nbytes.toNat 0 ⟨(k.mem, []), cur.screenX, cur.screenY⟩)).2.mem := by
      rw [ScreenOp.recorded, if_neg hfd, if_neg hn]
    have hstart : Screen.OnGrid (⟨k.mem, cur.screenX, cur.screenY⟩ : Screen (Addr → UInt8)) :=
      Screen.onGrid_iff.mpr ((saveScreenXY_cursors h _).saved t t.isLt)
    obtain ⟨halike, hgrid⟩ := putT_alike (recorded_simulates k.videoBus inside_append)
      k.currAttribute (fun i => (buf i : Id UInt8)) nbytes.toNat 0
      (t := ⟨(k.mem, []), cur.screenX, cur.screenY⟩) ⟨records_nil k.mem, rfl, rfl⟩ hstart
    obtain ⟨hmem, hinside⟩ := halike.mem
    refine ⟨?_, ?_, ?_⟩
    · rw [hprinted]
      exact afterWrite_cursors h₁ hgrid
    · rw [hprinted, hrecorded, hmem]
      rfl
    · rw [hrecorded]
      exact hinside

theorem switch_safe (h : k.CursorsOnGrid) (fromT toT : Fin NUM_TERMINALS) :
    (ScreenOp.switch fromT toT).Safe k := by
  obtain ⟨P, hswitched, -, -⟩ := k.changeTerminalState_spec fromT toT
  have hsaved := saveScreenXY_cursors h fromT
  refine ⟨?_, ?_, fun i hi => ?_⟩
  · rw [ScreenOp.apply, hswitched]
    exact ⟨hsaved.saved toT toT.isLt, hsaved.saved⟩
  · obtain ⟨mem₁, hfirst⟩ := k.memcpy_frame (BitVec.ofNat 32 (VIDEO + (fromT + 1) * LITERAL_4KB))
      (BitVec.ofNat 32 VIDEO) LITERAL_4KB
    rw [ScreenOp.apply, hswitched, ScreenOp.recorded, memcpyRecorded_mem, memcpyRecorded_mem]
    dsimp only
    rw [Kernel.switchedMem, hfirst]
  · rw [ScreenOp.recorded, memcpyRecorded_log, memcpyRecorded_log, List.nil_append] at hi
    rw [ScreenOp.extent]
    rcases List.mem_append.mp hi with hi | hi
    all_goals
      obtain ⟨j, hj, rfl⟩ := List.mem_map.mp hi
      have hlt := List.mem_range.mp hj
      omega

theorem clearAndReset_safe (h : k.CursorsOnGrid) : ScreenOp.clearAndReset.Safe k := by
  obtain ⟨hmem, hinside⟩ := clear_rel (recorded_simulates k.videoBus inside_append)
    k.currAttribute (records_nil k.mem)
  refine ⟨⟨onScreen_zero, h.saved⟩, ?_, hinside⟩
  rw [ScreenOp.recorded, hmem, ScreenOp.apply, Kernel.clearAndReset, Kernel.setScreenXY]

theorem screenOp_safe (h : k.CursorsOnGrid) (op : ScreenOp) : op.Safe k := by
  cases op with
  | putc c => exact putc_safe h c
  | write t fd buf nbytes => exact write_safe h t fd buf nbytes
  | switch fromT toT => exact switch_safe h fromT toT
  | clearAndReset => exact clearAndReset_safe h
  | load d => exact ⟨⟨h.cursor, h.saved⟩, rfl, fun _ hi => absurd hi List.not_mem_nil⟩

/-- Whatever has been drawn, the cursors are on the grid, and what is drawn next stays on
the cells of its page, or its page on a switch. -/
theorem screens_stay_inside (k : Kernel) (ops : List ScreenOp) :
    let s := ops.foldl ScreenOp.apply k.initKbd.initializeVideoMemory
    s.CursorsOnGrid ∧ ∀ op : ScreenOp, (op.recorded s).1 = (op.apply s).mem ∧
      ∀ i ∈ (op.recorded s).2, 0 ≤ i ∧ i < op.extent := by
  intro s
  have hs : s.CursorsOnGrid := by
    have hstart := initialized_cursors k
    change (ops.foldl ScreenOp.apply _).CursorsOnGrid
    generalize k.initKbd.initializeVideoMemory = k' at hstart
    induction ops generalizing k' with
    | nil => exact hstart
    | cons op ops ih => exact ih _ (screenOp_safe hstart op).cursors
  exact ⟨hs, fun op => ⟨(screenOp_safe hs op).follows, (screenOp_safe hs op).within⟩⟩

/-- A switch copies the 96 bytes after the last cell too. -/
theorem switch_past_cells :
    ¬ ∀ i ∈ (ScreenOp.recorded bootKernel.initKbd.initializeVideoMemory (.switch ⟨0, by decide⟩ ⟨1, by decide⟩)).2,
      i / 2 < 2000 := by
  intro h
  rw [ScreenOp.recorded, memcpyRecorded_log] at h
  have hlast : (4095 : ℤ) ∈ (List.range LITERAL_4KB).map (fun i : ℕ => (i : ℤ)) :=
    List.mem_map.mpr ⟨4095, List.mem_range.mpr (by decide), rfl⟩
  exact absurd (h 4095 (List.mem_append_right _ hlast)) (by decide)

end Cursors

section BootConsole

variable {σ : Type} {bus : VideoBus σ} {attrib : UInt8}

/-- A byte of a boot message, with a record of the stores. -/
def bootStep (bus : VideoBus σ) (attrib : UInt8) (s : Screen (σ × List ℤ)) (c : UInt8)
    (s' : Screen (σ × List ℤ)) : Prop := s' = putc bus.recorded attrib s c

/-- The cursor is on the grid, and everything stored is in the cells. -/
structure DrawsInside (s : Screen (σ × List ℤ)) : Prop where
  grid : s.OnGrid
  stores : Inside s.mem.2

/-- A byte that is not a new line on the last row. -/
def KeepsRow (s : Screen (σ × List ℤ)) (c : UInt8) : Prop :=
  ¬ (LineBreak c ∧ s.screenY = NUM_ROWS - 1)

theorem putc_alike {τ : Type} {bus' : VideoBus τ} {R : σ → τ → Prop} (attrib : UInt8)
    (h : bus.Simulates bus' R) {s : Screen σ} {t : Screen τ} (hst : Alike R s t) (hs : s.OnGrid)
    (c : UInt8) : Alike R (putc bus attrib s c) (putc bus' attrib t c) := by
  obtain ⟨smem, x, y⟩ := s
  obtain ⟨tmem, x', y'⟩ := t
  obtain ⟨h1, h2, h3, h4⟩ := hs
  obtain ⟨hmem, rfl, rfl⟩ : R smem tmem ∧ x = x' ∧ y = y' := ⟨hst.mem, hst.screenX, hst.screenY⟩
  simp only [NUM_COLS, NUM_ROWS] at h1 h2 h3 h4
  unfold putc
  by_cases hline : c = NEW_LINE ∨ c = CARRIAGE_RETURN
  · simp only [if_pos hline]
    exact ⟨hmem, rfl, rfl⟩
  · simp only [if_neg hline, NUM_COLS]
    exact scroll_alike h attrib (putCell_rel h attrib hmem (by omega) (by omega) c) _ _

theorem putc_onGrid (bus : VideoBus σ) (attrib : UInt8) {s : Screen σ} (hs : s.OnGrid) {c : UInt8}
    (hkeeps : ¬ (LineBreak c ∧ s.screenY = NUM_ROWS - 1)) : (putc bus attrib s c).OnGrid := by
  obtain ⟨h1, h2, h3, h4⟩ := hs
  simp only [NUM_COLS, NUM_ROWS] at h2 h4 hkeeps
  unfold putc
  by_cases hline : c = NEW_LINE ∨ c = CARRIAGE_RETURN
  · have hrow : s.screenY ≠ 25 - 1 := fun hy => hkeeps ⟨hline, hy⟩
    rw [if_pos hline]
    constructor <;> simp only [NUM_COLS, NUM_ROWS] <;> omega
  · have hdiv : (s.screenX + 1).tdiv 80 = (s.screenX + 1) / 80 :=
      Int.tdiv_eq_ediv_of_nonneg (by omega)
    have hmod : (s.screenX + 1).tmod 80 = (s.screenX + 1) % 80 :=
      Int.tmod_eq_emod_of_nonneg (by omega)
    rw [if_neg hline]
    simp only [NUM_COLS, NUM_ROWS, hdiv, hmod]
    split_ifs <;> constructor <;> simp only [shiftScreenUp, NUM_COLS, NUM_ROWS] <;> omega

theorem bootStep_contained {s s' : Screen (σ × List ℤ)} {c : UInt8} (h : DrawsInside s)
    (hkeeps : KeepsRow s c) (hstep : bootStep bus attrib s c s') : DrawsInside s' := by
  unfold bootStep at hstep
  subst hstep
  have hgrid := h.grid.withMem s.mem.1
  have halike := putc_alike attrib (recorded_simulates bus inside_append)
    (s := ⟨s.mem.1, s.screenX, s.screenY⟩) (t := s) ⟨⟨rfl, h.stores⟩, rfl, rfl⟩ hgrid c
  exact ⟨putc_onGrid _ attrib h.grid hkeeps, halike.mem.2⟩

theorem bootStep_leaves {s s' : Screen (σ × List ℤ)} {c : UInt8} (hbreak : ¬ KeepsRow s c)
    (hstep : bootStep bus attrib s c s') : s'.screenY = NUM_ROWS := by
  obtain ⟨hline, hrow⟩ := not_not.mp hbreak
  have hnext : s' = { s with screenY := s.screenY + 1, screenX := 0 } :=
    Eq.trans hstep (if_pos hline)
  rw [hnext]
  dsimp only
  omega

/-- Boot messages stay on the screen exactly when none of them starts a row from the
last row. -/
theorem boot_messages (bus : VideoBus σ) (attrib : UInt8) (s : Screen σ) (hs : s.OnGrid)
    (p : List (UInt8 × Screen (σ × List ℤ)))
    (hp : Runs.Path (bootStep bus attrib) ⟨(s.mem, []), s.screenX, s.screenY⟩ p) :
    (∀ x ∈ p, DrawsInside x.2) ↔ Runs.Meets KeepsRow ⟨(s.mem, []), s.screenX, s.screenY⟩ p := by
  have hstart : DrawsInside (⟨(s.mem, []), s.screenX, s.screenY⟩ : Screen (σ × List ℤ)) :=
    ⟨hs.withMem _, fun _ hi => absurd hi List.not_mem_nil⟩
  refine Runs.exact_guard (fun _ h => h) (fun _ _ _ h hkeeps hstep => ?_)
    (fun _ _ s' _ hbreak hstep hout => ?_) hstart hp
  · exact bootStep_contained h hkeeps hstep
  · have hrow := bootStep_leaves hbreak hstep
    have hlt := hout.grid.y_lt
    omega

/-- `ok`, a line break, and `!`, on an empty page. -/
def bootLine : List (UInt8 × Screen ((ℤ → UInt8) × List ℤ)) :=
  Runs.follow (fun s c => some (putc pageBus.recorded 7 s c)) ⟨(fun _ => 0, []), 5, 0⟩
    [111, 107, NEW_LINE, 33]

/-- A line break on the first row is harmless. -/
theorem boot_messages_line : bootLine.length = 4 ∧ ∀ x ∈ bootLine, DrawsInside x.2 := by
  have hs : Screen.OnGrid (⟨fun _ => 0, 5, 0⟩ : Console) :=
    ⟨by decide, by decide, by decide, by decide⟩
  have hpath : Runs.Path (bootStep pageBus 7) ⟨(fun _ => 0, []), 5, 0⟩ bootLine :=
    Runs.path_imp (fun _ _ _ hstep => (Option.some.inj hstep).symm) (Runs.follow_path _ _ _)
  refine ⟨rfl, (boot_messages pageBus 7 ⟨fun _ => 0, 5, 0⟩ hs bootLine hpath).mpr ?_⟩
  exact ⟨fun h => absurd h.1 (by decide), fun h => absurd h.1 (by decide),
    fun h => absurd h.2 (by decide), fun h => absurd h.1 (by decide), trivial⟩

theorem shiftScreenUp_recorded {i : ℤ} {s : Screen (σ × List ℤ)} (hi : i ∈ s.mem.2) :
    i ∈ (shiftScreenUp bus.recorded attrib s).mem.2 := by
  have halike := shiftScreenUp_alike
    (recorded_simulates bus (P := (i ∈ ·)) fun _ _ hl _ => List.mem_append_left _ hl)
    attrib (s := ⟨s.mem.1, s.screenX, s.screenY⟩) (t := s) ⟨⟨rfl, hi⟩, rfl, rfl⟩
  exact halike.mem.2

/-- 25 new lines and a character: it is put after the last cell of the page. -/
theorem boot_messages_past_page :
    let s := (List.replicate 25 NEW_LINE).foldl (putc pageBus.recorded 7) ⟨(fun _ => 0, []), 0, 0⟩
    s.screenY = 25 ∧ ¬ DrawsInside (putc pageBus.recorded 7 s 97) := by
  intro s
  have hs : s = ⟨(fun _ => 0, []), 0, 25⟩ := rfl
  rw [hs]
  refine ⟨rfl, fun h => ?_⟩
  have hstored : (4000 : ℤ) ∈ (putc pageBus.recorded 7
      (⟨(fun _ => 0, []), 0, 25⟩ : Screen ((ℤ → UInt8) × List ℤ)) 97).mem.2 := by
    unfold putc
    rw [if_neg (by decide)]
    dsimp only
    rw [if_pos (by decide)]
    exact shiftScreenUp_recorded (by decide)
  exact absurd (h.stores 4000 hstored).2 (by decide)

end BootConsole

end SnoopDos
