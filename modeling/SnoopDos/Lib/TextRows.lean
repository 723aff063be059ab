import Mathlib.Tactic

/-! Text in rows of a fixed width. A document is the list of its rows, the last of
which is being written. A tape is one array of cells without end, row after row, with
the position of the next character; it can also be erased backwards. -/

namespace TextRows

variable {α : Type*}

/-- The finished rows of a text, and the one being written. -/
structure Document (α : Type*) where
  above : List (List α)
  current : List α

namespace Document

def empty : Document α := ⟨[], []⟩

def rows (d : Document α) : List (List α) := d.above ++ [d.current]

def newRow (d : Document α) : Document α := ⟨d.rows, []⟩

/-- A character that fills the row starts a new one. -/
def write (cols : ℕ) (d : Document α) (c : α) : Document α :=
  if d.current.length + 1 < cols then { d with current := d.current ++ [c] }
  else ⟨d.above ++ [d.current ++ [c]], []⟩

/-- The text of a list of characters, some of which start a new row. -/
def layOut (cols : ℕ) (breaks : α → Prop) [DecidablePred breaks] (s : List α) : Document α :=
  s.foldl (fun d c => if breaks c then d.newRow else d.write cols c) empty

/-- The last `n` rows, or all there are. -/
def lastRows (n : ℕ) (d : Document α) : List (List α) := d.rows.drop (d.rows.length - n)

end Document

/-- A text as one array of cells, and where the next character goes. -/
structure Tape (α : Type*) where
  cell : ℕ → α
  pos : ℕ

namespace Tape

def write (t : Tape α) (c : α) : Tape α := ⟨Function.update t.cell t.pos c, t.pos + 1⟩

def newRow (cols : ℕ) (t : Tape α) : Tape α := { t with pos := cols * (t.pos / cols + 1) }

def erase (blank : α) (t : Tape α) : Tape α :=
  ⟨Function.update t.cell (t.pos - 1) blank, t.pos - 1⟩

variable {blank : α}

theorem foldl_write (t : Tape α) (w : List α) :
    (w.foldl write t).pos = t.pos + w.length ∧
      ∀ i, (w.foldl write t).cell i =
        if t.pos ≤ i ∧ i < t.pos + w.length then w.getD (i - t.pos) (t.cell i) else t.cell i := by
  induction w generalizing t with
  | nil => exact ⟨rfl, fun i => (if_neg (by simp)).symm⟩
  | cons c w ih =>
    obtain ⟨hpos, hcell⟩ := ih (t.write c)
    have hnext : (t.write c).pos = t.pos + 1 := rfl
    rw [List.foldl_cons, List.length_cons]
    refine ⟨by omega, fun i => ?_⟩
    rw [hcell i, hnext]
    simp only [write, Function.update_apply]
    rcases Nat.lt_trichotomy i t.pos with hlt | rfl | hgt
    · rw [if_neg (by omega), if_neg (by omega), if_neg (by omega)]
    · rw [if_neg (by omega), if_pos rfl, if_pos (by omega), Nat.sub_self, List.getD_cons_zero]
    · obtain ⟨j, rfl⟩ : ∃ j, i = t.pos + 1 + j := ⟨i - (t.pos + 1), by omega⟩
      rw [if_neg (by omega : ¬ t.pos + 1 + j = t.pos), Nat.add_sub_cancel_left,
        show t.pos + 1 + j - t.pos = j + 1 by omega, List.getD_cons_succ]
      exact if_congr (by omega) rfl rfl

theorem iterate_erase (t : Tape α) (n : ℕ) (hn : n ≤ t.pos) :
    ((erase blank)^[n] t).pos = t.pos - n ∧
      ∀ i, ((erase blank)^[n] t).cell i =
        if t.pos - n ≤ i ∧ i < t.pos then blank else t.cell i := by
  induction n with
  | zero => exact ⟨rfl, fun i => (if_neg (by omega)).symm⟩
  | succ n ih =>
    obtain ⟨hpos, hcell⟩ := ih (by omega)
    rw [Function.iterate_succ_apply']
    generalize (erase blank)^[n] t = t' at *
    refine ⟨?_, fun i => ?_⟩
    · simp only [erase, hpos]
      omega
    · simp only [erase, Function.update_apply, hpos, hcell i]
      split_ifs <;> first | rfl | omega

end Tape

/-- A tape that holds a document, row after row. -/
structure OnTape (cols : ℕ) (blank : α) (d : Document α) (t : Tape α) : Prop where
  width : d.current.length < cols
  pos : t.pos = cols * d.above.length + d.current.length
  cell : ∀ r x, x < cols → t.cell (cols * r + x) = (d.rows.getD r []).getD x blank

section OnTape

variable {cols : ℕ} {blank : α} {d : Document α} {t : Tape α}

theorem cell_inj {r r' x x' : ℕ} (hx : x < cols) (hx' : x' < cols) :
    cols * r + x = cols * r' + x' ↔ r = r' ∧ x = x' := by
  constructor
  · intro h
    have hr := congrArg (· / cols) h
    have hm := congrArg (· % cols) h
    have hcols : 0 < cols := by omega
    simp only [Nat.mul_add_div hcols, Nat.div_eq_of_lt hx, Nat.div_eq_of_lt hx', Nat.add_zero,
      Nat.mul_add_mod, Nat.mod_eq_of_lt hx, Nat.mod_eq_of_lt hx'] at hr hm
    exact ⟨hr, hm⟩
  · rintro ⟨rfl, rfl⟩
    rfl

theorem onTape_empty (hcols : 0 < cols) : OnTape cols blank Document.empty ⟨fun _ => blank, 0⟩ := by
  refine ⟨hcols, rfl, fun r x _ => ?_⟩
  cases r with
  | zero => rfl
  | succ r => rfl

theorem rows_newRow_getD (r : ℕ) : d.newRow.rows.getD r [] = d.rows.getD r [] := by
  simp only [Document.newRow, Document.rows, List.getD_eq_getElem?_getD]
  generalize d.above ++ [d.current] = rows
  rcases Nat.lt_trichotomy r rows.length with hlt | rfl | hgt
  · rw [List.getElem?_append_left hlt]
  · simp
  · rw [List.getElem?_eq_none (by simp; omega), List.getElem?_eq_none hgt.le]

theorem OnTape.row (h : OnTape cols blank d t) : t.pos / cols = d.above.length := by
  have hcols : 0 < cols := Nat.zero_lt_of_lt h.width
  rw [h.pos, Nat.mul_add_div hcols, Nat.div_eq_of_lt h.width, Nat.add_zero]

theorem OnTape.column (h : OnTape cols blank d t) : t.pos % cols = d.current.length := by
  rw [h.pos, Nat.mul_add_mod, Nat.mod_eq_of_lt h.width]

theorem OnTape.newRow (h : OnTape cols blank d t) : OnTape cols blank d.newRow (t.newRow cols) := by
  refine ⟨Nat.zero_lt_of_lt h.width, ?_, fun r x hx => ?_⟩
  · simp only [Tape.newRow, h.row, Document.newRow, Document.rows, List.length_append,
      List.length_singleton, List.length_nil, Nat.add_zero]
  · rw [rows_newRow_getD]
    exact h.cell r x hx

theorem rows_append_getD (c : α) {r x : ℕ} :
    (((d.above ++ [d.current ++ [c]]).getD r []).getD x blank) =
      if r = d.above.length ∧ x = d.current.length then c else (d.rows.getD r []).getD x blank := by
  simp only [Document.rows, List.getD_eq_getElem?_getD]
  rcases Nat.lt_trichotomy r d.above.length with hlt | rfl | hgt
  · rw [List.getElem?_append_left hlt, List.getElem?_append_left hlt, if_neg (by omega)]
  · simp only [List.getElem?_append_right le_rfl, Nat.sub_self, List.getElem?_cons_zero,
      Option.getD_some, true_and]
    rcases Nat.lt_trichotomy x d.current.length with hlt | rfl | hgt
    · rw [List.getElem?_append_left hlt, if_neg (by omega)]
    · simp
    · rw [List.getElem?_eq_none (by simp; omega), List.getElem?_eq_none hgt.le, if_neg (by omega)]
  · have hlength : ∀ row : List α, (d.above ++ [row]).length ≤ r := fun row => by simp; omega
    rw [List.getElem?_eq_none (hlength _), List.getElem?_eq_none (hlength _), if_neg (by omega)]

theorem OnTape.write (h : OnTape cols blank d t) (c : α) :
    OnTape cols blank (d.write cols c) (t.write c) := by
  have hcell (r x : ℕ) (hx : x < cols) : (t.write c).cell (cols * r + x) =
      ((d.above ++ [d.current ++ [c]]).getD r []).getD x blank := by
    simp only [rows_append_getD, Tape.write, Function.update_apply, h.pos, h.cell r x hx]
    exact if_congr (cell_inj hx h.width) rfl rfl
  have hpos : (t.write c).pos = cols * d.above.length + d.current.length + 1 := by
    rw [Tape.write, h.pos]
  unfold Document.write
  split_ifs with hroom
  · refine ⟨by simpa using hroom, ?_, hcell⟩
    rw [hpos, List.length_append]
    rfl
  · have hwidth := h.width
    have hcols : d.current.length + 1 = cols := by omega
    refine ⟨Nat.zero_lt_of_lt h.width, ?_, fun r x hx => ?_⟩
    · simp only [List.length_append, List.length_singleton, List.length_nil, Nat.add_zero]
      rw [hpos, Nat.mul_succ]
      omega
    · rw [hcell r x hx]
      exact congrArg (fun row => row.getD x blank)
        (rows_newRow_getD (d := ⟨d.above, d.current ++ [c]⟩) r).symm

end OnTape

theorem OnTape.lastRows {cols : ℕ} {blank : α} {d : Document α} {t : Tape α}
    (h : OnTape cols blank d t) (n : ℕ) {y x : ℕ} (hx : x < cols) :
    ((d.lastRows n).getD y []).getD x blank =
      t.cell (cols * (t.pos / cols + 1 - n + y) + x) := by
  have hlength : d.rows.length = t.pos / cols + 1 := by
    rw [h.row, Document.rows, List.length_append, List.length_singleton]
  rw [h.cell _ x hx, Document.lastRows, hlength, List.getD_eq_getElem?_getD,
    List.getD_eq_getElem?_getD, List.getElem?_drop, List.getD_eq_getElem?_getD,
    List.getD_eq_getElem?_getD]

end TextRows
