import SnoopDos.Lib.TextRows
import SnoopDos.Proofs.Consoles

/-! What the screen code shows. The 80x25 grid is a window on a text in rows of 80
columns: writing a character or starting a row moves on in the text, and a scroll moves
the window down by one row. -/

namespace SnoopDos

open Loops TextRows

section Stores

variable {σ : Type} {bus : VideoBus σ} {view : σ → ℤ → UInt8} {n : ℤ}

/-- Stores through the bus are seen as stores to the first `n` bytes of an array. -/
def VideoBus.StoresTo (bus : VideoBus σ) (view : σ → ℤ → UInt8) (n : ℤ) : Prop :=
  ∀ mem i c j, 0 ≤ i → i < n → 0 ≤ j → j < n →
    view (bus.store mem i c) j = if j = i then c else view mem j

theorem pageBus_storesTo (n : ℤ) : pageBus.StoresTo id n :=
  fun page i c j _ _ _ _ => Function.update_apply page i c j

theorem putCell_view (h : bus.StoresTo view n) (attrib : UInt8) (mem : σ) {i j : ℤ} (c : UInt8)
    (hi : 0 ≤ i) (hn : 2 * i + 1 < n) (hj : 0 ≤ j) (hjn : j < n) :
    view (putCell bus attrib mem i c) j =
      if j = 2 * i then c else if j = 2 * i + 1 then attrib else view mem j := by
  rw [putCell, h _ _ _ _ (by omega) (by omega) hj hjn, h _ _ _ _ (by omega) (by omega) hj hjn]
  split_ifs <;> first | rfl | omega

theorem fillCells_view (h : bus.StoresTo view n) (attrib c : UInt8) (base count : ℕ)
    (hn : 2 * ((base : ℤ) + count) ≤ n) (mem : σ) {j : ℤ} (hj : 0 ≤ j) (hjn : j < n) :
    view (forRange 0 count (fun i mem => putCell bus attrib mem (i + base) c) mem) j =
      if 2 * (base : ℤ) ≤ j ∧ j < 2 * ((base : ℤ) + count) then
        if j % 2 = 0 then c else attrib
      else view mem j := by
  induction count with
  | zero => exact (if_neg (by push_cast; omega)).symm
  | succ count ih =>
    push_cast at hn ⊢
    rw [forRange_succ, putCell_view h attrib _ c (by push_cast; omega) (by push_cast; omega) hj hjn,
      ih (by omega)]
    push_cast
    split_ifs <;> first | rfl | omega

theorem clear_view (h : bus.StoresTo view n) (hn : 4000 ≤ n) (attrib : UInt8) (mem : σ) {j : ℤ}
    (hj : 0 ≤ j) (hjn : j < n) : view (clear bus attrib mem) j =
      if j < 4000 then if j % 2 = 0 then EMPTY_SPACE else attrib else view mem j := by
  have hfill := fillCells_view h attrib EMPTY_SPACE 0 2000 (by push_cast; omega) mem hj hjn
  simp only [Nat.cast_zero, add_zero, zero_add] at hfill
  rw [clear, hfill]
  exact if_congr (by push_cast; omega) rfl rfl

end Stores

/-- The character takes a cell of its own. -/
def Glyph (c : UInt8) : Prop := c ≠ NEW_LINE ∧ c ≠ CARRIAGE_RETURN ∧ c ≠ BKSP_CHAR

instance (c : UInt8) : Decidable (Glyph c) := inferInstanceAs (Decidable (_ ∧ _ ∧ _))

theorem glyphs_of_all {w : List UInt8} (h : w.all (fun c => decide (Glyph c))) :
    ∀ c ∈ w, Glyph c := fun c hc => of_decide_eq_true (List.all_eq_true.mp h c hc)

section Page

variable (attrib : UInt8)

/-- A round of the loop of `shift_screen_up` that copies rows up in place. -/
def copyUp (i : ℕ) (page : ℤ → UInt8) : ℤ → UInt8 :=
  let page := pageBus.store page (2 * i) (pageBus.load page (2 * (i + NUM_COLS)))
  pageBus.store page (2 * i + 1) (pageBus.load page (2 * (i + NUM_COLS) + 1))

theorem copyUp_page (page : ℤ → UInt8) (n : ℕ) (j : ℤ) :
    forRange 0 n copyUp page j = if 0 ≤ j ∧ j < 2 * n then page (j + 160) else page j := by
  induction n generalizing j with
  | zero => exact (if_neg (by push_cast; omega)).symm
  | succ n ih =>
    rw [forRange_succ, copyUp]
    simp only [pageBus, Function.update_apply, NUM_COLS, Nat.zero_add, ih]
    push_cast
    rcases lt_trichotomy j (2 * n) with hlt | rfl | hgt
    · rw [if_neg (by omega), if_neg (by omega)]
      exact if_congr (by omega) rfl rfl
    · rw [if_neg (by omega), if_pos rfl, if_neg (by omega), if_pos (by omega)]
      congr 1
    · by_cases hodd : j = 2 * n + 1
      · subst hodd
        rw [if_pos rfl, if_neg (by omega), if_neg (by omega), if_pos (by omega)]
        congr 1
      · rw [if_neg hodd, if_neg (by omega), if_neg (by omega), if_neg (by omega)]

theorem shiftScreenUp_page (con : Console) {j : ℤ} (hj : 0 ≤ j) (hjn : j < 4000) :
    (shiftScreenUp pageBus attrib con).mem j =
      if j < 3840 then con.mem (j + 160) else if j % 2 = 0 then EMPTY_SPACE else attrib := by
  have hfill := fillCells_view (pageBus_storesTo 4000) attrib EMPTY_SPACE 1920 80 (by norm_num)
    (forRange 0 1920 copyUp con.mem) hj hjn
  rw [id, id, copyUp_page] at hfill
  refine Eq.trans hfill ?_
  push_cast
  by_cases hlast : j < 3840
  · rw [if_neg (by omega), if_pos (by omega), if_pos hlast]
  · rw [if_pos (by omega), if_neg hlast]

end Page

section Moves

variable {σ : Type} (bus : VideoBus σ) (attrib : UInt8)

/-- `putc_kbd` and `putc_screen` up to the test for a scroll. -/
def putcMoved (s : Screen σ) (c : UInt8) : Screen σ :=
  if c = NEW_LINE ∨ c = CARRIAGE_RETURN then { s with screenY := s.screenY + 1, screenX := 0 }
  else if c = BKSP_CHAR then
    let s := { s with screenX := s.screenX - 1 }
    let s :=
      if s.screenX < 0 then
        let s := { s with screenX := NUM_COLS - 1, screenY := s.screenY - 1 }
        if s.screenY < 0 then { s with screenY := 0 } else s
      else s
    { s with mem := putCell bus attrib s.mem (NUM_COLS * s.screenY + s.screenX) EMPTY_SPACE }
  else
    let s := { s with mem := putCell bus attrib s.mem (NUM_COLS * s.screenY + s.screenX) c }
    let s := { s with screenX := s.screenX + 1 }
    let s := { s with screenY := s.screenY + s.screenX.tdiv NUM_COLS }
    { s with screenX := s.screenX.tmod NUM_COLS }

/-- The test for a scroll, and the scroll. -/
def scroll (s : Screen σ) : Screen σ :=
  if s.screenY ≥ NUM_ROWS then shiftScreenUp bus attrib s else s

/-- How often the screen scrolls while a string is put on it. -/
def scrolls : Screen σ → List UInt8 → ℕ
  | _, [] => 0
  | s, c :: cs => (if (putcMoved bus attrib s c).screenY ≥ NUM_ROWS then 1 else 0) +
    scrolls (putcScreen bus attrib s c) cs

end Moves

/-- The page shows the rows of the tape from row `top` on, and the cursor is where the
tape is written next. -/
structure Views (t : Tape UInt8) (top : ℕ) (con : Console) : Prop where
  column : con.screenX = (t.pos % 80 : ℕ)
  row : con.screenY + top = (t.pos / 80 : ℕ)
  cell : ∀ i : ℕ, i < 2000 → con.mem (2 * i) = t.cell (80 * top + i)
  below : ∀ i, 80 * top + 2000 ≤ i → t.cell i = EMPTY_SPACE

section Window

variable {t : Tape UInt8} {top : ℕ} {con : Console} (attrib : UInt8) {c : UInt8}

theorem Views.scroll (h : Views t top con) :
    Views t (if con.screenY ≥ NUM_ROWS then top + 1 else top) (scroll pageBus attrib con) := by
  unfold SnoopDos.scroll
  split_ifs with hlast
  · refine ⟨h.column, ?_, fun i hi => ?_, fun i hi => h.below i (by omega)⟩
    · have hrow := h.row
      simp only [shiftScreenUp]
      push_cast
      omega
    · rw [shiftScreenUp_page attrib con (by omega) (by omega)]
      by_cases hlow : i < 1920
      · have hcell := h.cell (i + 80) (by omega)
        push_cast at hcell
        rw [if_pos (by omega), show 2 * (i : ℤ) + 160 = 2 * (i + 80) by ring, hcell]
        congr 1
        omega
      · rw [if_neg (by omega), if_pos (by omega), h.below _ (by omega)]
  · exact h

theorem Views.put (h : Views t top con) {p : ℕ} (htop : 80 * top ≤ p)
    (hbottom : p < 80 * top + 2000) (c : UInt8) (i : ℕ) (hi : i < 2000) :
    putCell pageBus attrib con.mem ((p : ℤ) - 80 * top) c (2 * i) =
      Function.update t.cell p c (80 * top + i) := by
  have hput := putCell_view (pageBus_storesTo 4000) attrib con.mem c
    (show 0 ≤ (p : ℤ) - 80 * top by omega) (by omega) (show 0 ≤ 2 * (i : ℤ) by omega) (by omega)
  rw [id, id] at hput
  rw [hput, Function.update_apply, h.cell i hi]
  rw [if_neg (show ¬ 2 * (i : ℤ) = 2 * ((p : ℤ) - 80 * top) + 1 by omega)]
  exact if_congr (by omega) rfl rfl

theorem Views.inside (h : Views t top con) (hgrid : con.OnGrid) :
    80 * top ≤ t.pos ∧ t.pos < 80 * top + 2000 := by
  have hrow := h.row
  have hy := hgrid.y_nonneg
  have hy' := hgrid.y_lt
  simp only [NUM_ROWS] at hy'
  omega

theorem Views.glyph (h : Views t top con) (hgrid : con.OnGrid) (hc : Glyph c) :
    Views (t.write c) top (putcMoved pageBus attrib con c) ∧
      (putcMoved pageBus attrib con c).screenY ≤ 25 := by
  obtain ⟨hline, hreturn, hback⟩ := hc
  obtain ⟨htop, hbottom⟩ := h.inside hgrid
  have hrow := h.row
  have hcolumn := h.column
  have hcell : NUM_COLS * con.screenY + con.screenX = (t.pos : ℤ) - 80 * top := by
    rw [NUM_COLS, hcolumn]
    omega
  have hdiv : (con.screenX + 1).tdiv NUM_COLS = (con.screenX + 1) / 80 :=
    Int.tdiv_eq_ediv_of_nonneg (by omega)
  have hmod : (con.screenX + 1).tmod NUM_COLS = (con.screenX + 1) % 80 :=
    Int.tmod_eq_emod_of_nonneg (by omega)
  unfold putcMoved
  rw [if_neg (not_or.mpr ⟨hline, hreturn⟩), if_neg hback]
  simp only [hcell, hdiv, hmod]
  refine ⟨⟨?_, ?_, h.put attrib htop hbottom c, fun i hi => ?_⟩, by omega⟩
  · simp only [Tape.write]
    omega
  · simp only [Tape.write]
    omega
  · simp only [Tape.write]
    rw [Function.update_of_ne (by omega), h.below i hi]

theorem Views.newLine (h : Views t top con) (hgrid : con.OnGrid)
    (hc : c = NEW_LINE ∨ c = CARRIAGE_RETURN) :
    Views (t.newRow 80) top (putcMoved pageBus attrib con c) ∧
      (putcMoved pageBus attrib con c).screenY ≤ 25 := by
  obtain ⟨htop, hbottom⟩ := h.inside hgrid
  have hrow := h.row
  unfold putcMoved
  rw [if_pos hc]
  refine ⟨⟨?_, ?_, h.cell, h.below⟩, by dsimp only; omega⟩
  · simp only [Tape.newRow]
    omega
  · simp only [Tape.newRow]
    omega

theorem Views.backspace (h : Views t top con) (hgrid : con.OnGrid) (hpos : 80 * top < t.pos) :
    Views (t.erase EMPTY_SPACE) top (putcMoved pageBus attrib con BKSP_CHAR) ∧
      (putcMoved pageBus attrib con BKSP_CHAR).screenY < 25 := by
  obtain ⟨-, hbottom⟩ := h.inside hgrid
  have hrow := h.row
  have hcolumn := h.column
  have hcell : ∀ x y : ℤ, 80 * y + x = (t.pos : ℤ) - 1 - 80 * top →
      ∀ i : ℕ, i < 2000 → putCell pageBus attrib con.mem (80 * y + x) EMPTY_SPACE (2 * i) =
        (t.erase EMPTY_SPACE).cell (80 * top + i) := by
    intro x y hxy i hi
    have hput := h.put attrib (p := t.pos - 1) (by omega) (by omega) EMPTY_SPACE i hi
    rw [Nat.cast_sub (by omega), Nat.cast_one] at hput
    rw [hxy]
    exact hput
  have hbelow : ∀ i, 80 * top + 2000 ≤ i → (t.erase EMPTY_SPACE).cell i = EMPTY_SPACE := by
    intro i hi
    simp only [Tape.erase]
    rw [Function.update_of_ne (by omega), h.below i hi]
  have hpos' : (t.erase EMPTY_SPACE).pos = t.pos - 1 := rfl
  unfold putcMoved
  rw [if_neg (by decide), if_pos rfl]
  by_cases hx : con.screenX - 1 < 0
  · have hy : ¬ con.screenY - 1 < 0 := by omega
    simp only [if_pos hx, if_neg hy, NUM_COLS]
    refine ⟨⟨?_, ?_, hcell _ _ (by omega), hbelow⟩, by omega⟩
    · simp only [hpos']
      omega
    · simp only [hpos']
      omega
  · simp only [if_neg hx, NUM_COLS]
    refine ⟨⟨?_, ?_, hcell _ _ (by omega), hbelow⟩, by omega⟩
    · simp only [hpos']
      omega
    · simp only [hpos']
      omega

end Window

/-- The screen has scrolled no further than it had to for its cursor to be on it. -/
structure ShowsEnd (t : Tape UInt8) (con : Console) : Prop where
  views : Views t (t.pos / 80 - 24) con
  grid : con.OnGrid

section ShowsEnd

variable {t t' : Tape UInt8} {con : Console} (attrib : UInt8) {c : UInt8}

theorem ShowsEnd.of_moved (h : ShowsEnd t con) (hle : t.pos ≤ t'.pos)
    (hmoved : Views t' (t.pos / 80 - 24) (putcMoved pageBus attrib con c))
    (hlast : (putcMoved pageBus attrib con c).screenY ≤ 25) :
    ShowsEnd t' (putcScreen pageBus attrib con c) ∧
      (if (putcMoved pageBus attrib con c).screenY ≥ NUM_ROWS then 1 else 0) +
        (t.pos / 80 - 24) = t'.pos / 80 - 24 := by
  have hrow := hmoved.row
  have hrow₀ := h.views.row
  have hy := h.grid.y_nonneg
  have hdiv : t.pos / 80 ≤ t'.pos / 80 := Nat.div_le_div_right hle
  have hscroll := hmoved.scroll attrib
  have htop : (if (putcMoved pageBus attrib con c).screenY ≥ NUM_ROWS then t.pos / 80 - 24 + 1
      else t.pos / 80 - 24) = t'.pos / 80 - 24 := by
    by_cases hfull : (putcMoved pageBus attrib con c).screenY ≥ NUM_ROWS
    · rw [if_pos hfull]
      simp only [NUM_ROWS] at hfull
      omega
    · rw [if_neg hfull]
      simp only [NUM_ROWS] at hfull
      omega
  refine ⟨⟨?_, putcScreen_onGrid pageBus attrib h.grid c⟩, ?_⟩
  · rw [← htop]
    exact hscroll
  · rw [← htop]
    split_ifs
    · exact Nat.add_comm _ _
    · exact Nat.zero_add _

theorem ShowsEnd.glyph (h : ShowsEnd t con) (hc : Glyph c) :
    ShowsEnd (t.write c) (putcScreen pageBus attrib con c) ∧
      (if (putcMoved pageBus attrib con c).screenY ≥ NUM_ROWS then 1 else 0) +
        (t.pos / 80 - 24) = (t.write c).pos / 80 - 24 := by
  obtain ⟨hmoved, hlast⟩ := h.views.glyph attrib h.grid hc
  exact h.of_moved attrib (Nat.le_succ _) hmoved hlast

theorem ShowsEnd.newLine (h : ShowsEnd t con) (hc : c = NEW_LINE ∨ c = CARRIAGE_RETURN) :
    ShowsEnd (t.newRow 80) (putcScreen pageBus attrib con c) := by
  obtain ⟨hmoved, hlast⟩ := h.views.newLine attrib h.grid hc
  have hle : t.pos ≤ (t.newRow 80).pos := by
    simp only [Tape.newRow]
    omega
  exact (h.of_moved attrib hle hmoved hlast).1

/-- A string of glyphs is written on, and the screen scrolls as it comes to new rows. -/
theorem ShowsEnd.glyphs (h : ShowsEnd t con) {w : List UInt8} (hw : ∀ c ∈ w, Glyph c) :
    ShowsEnd (w.foldl Tape.write t) (w.foldl (putcScreen pageBus attrib) con) ∧
      scrolls pageBus attrib con w + (t.pos / 80 - 24) =
        (w.foldl Tape.write t).pos / 80 - 24 := by
  induction w generalizing t con with
  | nil => exact ⟨h, Nat.zero_add _⟩
  | cons c w ih =>
    obtain ⟨hnext, hscroll⟩ := h.glyph attrib (hw c List.mem_cons_self)
    obtain ⟨hall, hscrolls⟩ := ih hnext fun d hd => hw d (List.mem_cons_of_mem c hd)
    refine ⟨hall, ?_⟩
    rw [scrolls, List.foldl_cons, ← hscrolls, ← hscroll]
    omega

end ShowsEnd

section Rendering

variable (attrib : UInt8)

/-- The characters that start a new row. -/
def LineBreak (c : UInt8) : Prop := c = NEW_LINE ∨ c = CARRIAGE_RETURN

instance (c : UInt8) : Decidable (LineBreak c) := inferInstanceAs (Decidable (_ ∨ _))

theorem showsEnd_clear (page : ℤ → UInt8) :
    ShowsEnd ⟨fun _ => EMPTY_SPACE, 0⟩ ⟨clear pageBus attrib page, 0, 0⟩ := by
  have hcols : (0 : ℤ) < NUM_COLS := by decide
  have hrows : (0 : ℤ) < NUM_ROWS := by decide
  refine ⟨⟨rfl, rfl, fun i hi => ?_, fun _ _ => rfl⟩, le_rfl, hcols, le_rfl, hrows⟩
  have hview := clear_view (pageBus_storesTo 4000) le_rfl attrib page (j := 2 * i) (by omega)
    (by omega)
  rw [id, if_pos (by omega), if_pos (by omega)] at hview
  dsimp only
  rw [hview]

theorem layOut_showsEnd {s : List UInt8} (hs : BKSP_CHAR ∉ s) {d : Document UInt8} {t : Tape UInt8}
    {con : Console} (htape : OnTape 80 EMPTY_SPACE d t) (h : ShowsEnd t con) :
    ∃ t', OnTape 80 EMPTY_SPACE
        (s.foldl (fun d c => if LineBreak c then d.newRow else d.write 80 c) d) t' ∧
      ShowsEnd t' (s.foldl (putcScreen pageBus attrib) con) := by
  induction s generalizing d t con with
  | nil => exact ⟨t, htape, h⟩
  | cons c s ih =>
    have hrest : BKSP_CHAR ∉ s := fun hmem => hs (List.mem_cons_of_mem c hmem)
    rw [List.foldl_cons, List.foldl_cons]
    by_cases hc : LineBreak c
    · rw [if_pos hc]
      exact ih hrest htape.newRow (h.newLine attrib hc)
    · have hback : c ≠ BKSP_CHAR := fun heq => hs (heq ▸ List.mem_cons_self)
      obtain ⟨hline, hreturn⟩ := not_or.mp hc
      rw [if_neg hc]
      exact ih hrest (htape.write c) (h.glyph attrib ⟨hline, hreturn, hback⟩).1

/-- After a blank screen, a string without Backspace shows as the last 25 rows of its
document, with the cursor at the end. -/
theorem console_rendering (attrib : UInt8) (page : ℤ → UInt8) (s : List UInt8)
    (hs : BKSP_CHAR ∉ s) :
    let con := s.foldl (putcScreen pageBus attrib) ⟨clear pageBus attrib page, 0, 0⟩
    let d := Document.layOut 80 LineBreak s
    (∀ y x : ℕ, y < 25 → x < 80 →
      con.mem (2 * (80 * y + x)) = ((d.lastRows 25).getD y []).getD x EMPTY_SPACE) ∧
    con.screenX = d.current.length ∧ con.screenY + 1 = (d.lastRows 25).length := by
  intro con d
  obtain ⟨t, htape, hshows⟩ : ∃ t, OnTape 80 EMPTY_SPACE d t ∧ ShowsEnd t con :=
    layOut_showsEnd attrib hs (onTape_empty (by decide)) (showsEnd_clear attrib page)
  have hrow := hshows.views.row
  have hlength : d.rows.length = t.pos / 80 + 1 := by
    rw [htape.row, Document.rows, List.length_append, List.length_singleton]
  refine ⟨fun y x hy hx => ?_, ?_, ?_⟩
  · have hcell := hshows.views.cell (80 * y + x) (by omega)
    push_cast at hcell
    rw [hcell, htape.lastRows 25 hx]
    congr 1
    omega
  · rw [hshows.views.column, htape.column]
  · rw [Document.lastRows, List.length_drop, hlength]
    omega

/-- A line of three characters and a new row. -/
theorem console_rendering_line :
    let con := [97, 98, 99, 10].foldl (putcScreen pageBus 7) ⟨clear pageBus 7 fun _ => 0, 0, 0⟩
    con.mem (2 * (80 * 0 + 1)) = 98 ∧ con.screenX = 0 ∧ con.screenY + 1 = 2 := by
  obtain ⟨hcell, hx, hy⟩ := console_rendering 7 (fun _ => 0) [97, 98, 99, 10] (by decide)
  exact ⟨(hcell 0 1 (by decide) (by decide)).trans rfl, hx, hy⟩

end Rendering

section Backspace

variable {t : Tape UInt8} {top : ℕ} {con : Console} (attrib : UInt8)

theorem Views.backspaces (h : Views t top con) (hgrid : con.OnGrid) (n : ℕ)
    (hn : 80 * top + n ≤ t.pos) :
    let keys := List.replicate n BKSP_CHAR
    Views ((Tape.erase EMPTY_SPACE)^[n] t) top (keys.foldl (putcScreen pageBus attrib) con) ∧
      scrolls pageBus attrib con keys = 0 := by
  induction n generalizing t con with
  | zero => exact ⟨h, rfl⟩
  | succ n ih =>
    obtain ⟨hmoved, hlow⟩ := h.backspace attrib hgrid (by omega)
    have hstill : ¬ (putcMoved pageBus attrib con BKSP_CHAR).screenY ≥ NUM_ROWS := not_le.mpr hlow
    have hscreen : putcScreen pageBus attrib con BKSP_CHAR =
        putcMoved pageBus attrib con BKSP_CHAR := if_neg hstill
    have hpos : (t.erase EMPTY_SPACE).pos = t.pos - 1 := rfl
    have hrest := ih (hscreen ▸ hmoved) (putcScreen_onGrid pageBus attrib hgrid BKSP_CHAR) (by omega)
    simp only [List.replicate_succ, List.foldl_cons, scrolls, Function.iterate_succ_apply,
      if_neg hstill, Nat.zero_add]
    exact hrest

theorem scrolls_append (con : Console) (w v : List UInt8) :
    scrolls pageBus attrib con (w ++ v) =
      scrolls pageBus attrib con w +
        scrolls pageBus attrib (w.foldl (putcScreen pageBus attrib) con) v := by
  induction w generalizing con with
  | nil => exact (Nat.zero_add _).symm
  | cons c w ih =>
    rw [List.cons_append, scrolls, ih, scrolls, List.foldl_cons, Nat.add_assoc]

/-- The characters of a screen that has scrolled up by `s` rows. -/
def scrolledUp (con : Console) (s i : ℕ) : UInt8 :=
  if 80 * s + i < 2000 then con.mem (2 * (80 * s + i)) else EMPTY_SPACE

/-- The screen as it is, on a tape that is blank below it. -/
def screenTape (con : Console) : Tape UInt8 :=
  ⟨fun i => if i < 2000 then con.mem (2 * i) else EMPTY_SPACE,
    80 * con.screenY.toNat + con.screenX.toNat⟩

theorem screenTape_showsEnd (hgrid : con.OnGrid) : ShowsEnd (screenTape con) con := by
  obtain ⟨h1, h2, h3, h4⟩ := hgrid
  have hgrid : con.OnGrid := ⟨h1, h2, h3, h4⟩
  simp only [NUM_COLS, NUM_ROWS] at h2 h4
  have hpos : (screenTape con).pos = 80 * con.screenY.toNat + con.screenX.toNat := rfl
  have htop : (screenTape con).pos / 80 - 24 = 0 := by omega
  refine ⟨?_, hgrid⟩
  rw [htop]
  refine ⟨by omega, by omega, fun i hi => ?_, fun i hi => if_neg (by omega)⟩
  simp only [screenTape]
  rw [if_pos (by omega), Nat.mul_zero, Nat.zero_add]

/-- Backspace, once for each character typed, takes the typing back, but for the rows
that the screen has scrolled. -/
theorem backspace_undoes (attrib : UInt8) (con : Console) (hgrid : con.OnGrid) (w : List UInt8)
    (hlen : w.length ≤ 126) (hw : ∀ c ∈ w, Glyph c) :
    let keys := w ++ List.replicate w.length BKSP_CHAR
    let s := scrolls pageBus attrib con keys
    let con' := keys.foldl (putcScreen pageBus attrib) con
    con'.screenX = con.screenX ∧ con'.screenY = con.screenY - s ∧
    ∀ i : ℕ, i < 2000 → con'.mem (2 * i) =
      if 80 * con'.screenY + con'.screenX ≤ i ∧
          i < 80 * con'.screenY + con'.screenX + w.length then EMPTY_SPACE
      else scrolledUp con s i := by
  intro keys s con'
  have hstart := screenTape_showsEnd hgrid
  have hpos₀ : (screenTape con).pos = 80 * con.screenY.toNat + con.screenX.toNat := rfl
  obtain ⟨h1, h2, h3, h4⟩ := hgrid
  simp only [NUM_COLS, NUM_ROWS] at h2 h4
  obtain ⟨htyped, hscrolls⟩ := hstart.glyphs attrib hw
  obtain ⟨hpos, hcell⟩ := (screenTape con).foldl_write w
  have hroom : 80 * ((w.foldl Tape.write (screenTape con)).pos / 80 - 24) + w.length ≤
      (w.foldl Tape.write (screenTape con)).pos := by omega
  obtain ⟨hviews, hnone⟩ := htyped.views.backspaces attrib htyped.grid w.length hroom
  obtain ⟨hpos', hcell'⟩ := @Tape.iterate_erase _ EMPTY_SPACE
    (w.foldl Tape.write (screenTape con)) w.length (by omega)
  have hs : s = (w.foldl Tape.write (screenTape con)).pos / 80 - 24 := by
    have hsplit := scrolls_append attrib con w (List.replicate w.length BKSP_CHAR)
    rw [hnone] at hsplit
    change scrolls pageBus attrib con (w ++ List.replicate w.length BKSP_CHAR) = _
    omega
  rw [← hs, ← List.foldl_append] at hviews
  change Views _ s con' at hviews
  generalize (Tape.erase EMPTY_SPACE)^[w.length] (w.foldl Tape.write (screenTape con)) = t' at *
  generalize w.foldl Tape.write (screenTape con) = t at *
  have hback : t'.pos = (screenTape con).pos := by omega
  have hcolumn := hviews.column
  have hrow := hviews.row
  refine ⟨by omega, by omega, fun i hi => ?_⟩
  rw [hviews.cell i hi, hcell', hcell]
  have hlinear : 80 * con'.screenY + con'.screenX = (t'.pos : ℤ) - 80 * s := by omega
  rw [hlinear]
  by_cases hblank : t.pos - w.length ≤ 80 * s + i ∧ 80 * s + i < t.pos
  · rw [if_pos hblank, if_pos (by omega)]
  · rw [if_neg hblank, if_neg (by omega), if_neg (by omega), scrolledUp, screenTape]
    exact if_congr Iff.rfl (by push_cast; rfl) rfl

/-- Three characters in the last cell of the screen. -/
theorem backspace_undoes_last :
    let keys := [97, 98, 99] ++ List.replicate 3 BKSP_CHAR
    let con : Console := ⟨fun _ => 42, 79, 24⟩
    (keys.foldl (putcScreen pageBus 7) con).screenX = 79 := by
  have hgrid : Screen.OnGrid (⟨fun _ => 42, 79, 24⟩ : Console) :=
    ⟨by decide, by decide, by decide, by decide⟩
  exact (backspace_undoes 7 ⟨fun _ => 42, 79, 24⟩ hgrid [97, 98, 99] (by decide)
    (glyphs_of_all rfl)).1

end Backspace

end SnoopDos
