import SnoopDos.Proofs.Execute
import SnoopDos.Lib.Runs
import SnoopDos.Proofs.Switching

/-! The three virtual consoles. A console of its own is the screen code on a page
of its own; the code behind the page tables, on whatever page a terminal is shown
on, simulates it, and a switch of terminals moves pages and cursors consistently. -/

namespace SnoopDos

open Loops PageWalk

/-- A page of its own behind `video_mem`. -/
def pageBus : VideoBus (ℤ → UInt8) where
  load page i := page i
  store page i c := Function.update page i c

abbrev Console := Screen (ℤ → UInt8)

/-- What a console receives: a `write_terminal` or an echo. -/
inductive ConsoleOp
  | write (s : ℕ → UInt8) (nbytes : Word)
  | putc (c : UInt8)

def ConsoleOp.apply (attrib : UInt8) (con : Console) : ConsoleOp → Console
  | .write s nbytes =>
    if nbytes.toInt < 0 then con
    else (Id.run (putT pageBus attrib (fun i => (s i : Id UInt8)) nbytes.toNat 0 con)).2
  | .putc c => putcScreen pageBus attrib con c

section Strings

/-- `put_t` with any `putc` in the place of `putc_screen`. -/
def putTWith {m : Type → Type} [Monad m] {τ : Type} (putc : τ → UInt8 → τ) (s : ℕ → m UInt8) :
    ℕ → ℕ → τ → m (ℕ × τ)
  | 0, index, out => do
    let _ ← s index
    pure (index, out)
  | n + 1, index, out => do
    let c ← s index
    if c ≠ NULL_CHAR then putTWith putc s n (index + 1) (putc out c) else pure (index, out)

theorem putT_eq_with {m : Type → Type} [Monad m] {σ : Type} (bus : VideoBus σ) (attrib : UInt8)
    (s : ℕ → m UInt8) (n index : ℕ) (scr : Screen σ) :
    putT bus attrib s n index scr = putTWith (putcScreen bus attrib) s n index scr := by
  induction n generalizing index scr with
  | zero => rfl
  | succ n ih =>
    unfold putT putTWith
    simp only [ih]

theorem putTWith_run {τ : Type} (putc : τ → UInt8 → τ) (buf : ℕ → UInt8)
    (n i : ℕ) (out : τ) : (Id.run (putTWith putc (fun i => (buf i : Id UInt8)) n i out)).2 =
      (((List.range' i n).map buf).takeWhile (· ≠ NULL_CHAR)).foldl putc out := by
  induction n generalizing i out with
  | zero => rfl
  | succ n ih =>
    rw [putTWith, Id.run_bind, List.range'_succ, List.map_cons, List.takeWhile_cons]
    by_cases hc : buf i = NULL_CHAR
    · have hstop : ¬ Id.run (buf i : Id UInt8) ≠ NULL_CHAR := not_not.mpr hc
      rw [if_neg hstop, if_neg (by simp [hc])]
      rfl
    · have hgo : Id.run (buf i : Id UInt8) ≠ NULL_CHAR := hc
      rw [if_pos hgo, if_pos (by simp [hc]), ih (i + 1), List.foldl_cons]
      rfl

theorem putT_eq_foldl {σ : Type} (bus : VideoBus σ) (attrib : UInt8) (str : ℕ → UInt8) (n i : ℕ)
    (s : Screen σ) : (Id.run (putT bus attrib (fun i => (str i : Id UInt8)) n i s)).2 =
      (((List.range' i n).map str).takeWhile (· ≠ NULL_CHAR)).foldl (putcScreen bus attrib) s := by
  rw [putT_eq_with, putTWith_run]

end Strings

section Simulation

variable {σ τ : Type} {bus : VideoBus σ} {bus' : VideoBus τ} {R : σ → τ → Prop}

/-- Memories related by `R` hold the same screen and stay related under the same
stores to it. -/
structure VideoBus.Simulates (bus : VideoBus σ) (bus' : VideoBus τ) (R : σ → τ → Prop) : Prop where
  load : ∀ s t i, R s t → 0 ≤ i → i < 4000 → bus.load s i = bus'.load t i
  store : ∀ s t i c, R s t → 0 ≤ i → i < 4000 → R (bus.store s i c) (bus'.store t i c)

/-- The cursor is on the 80x25 grid. -/
structure Screen.OnGrid (s : Screen σ) : Prop where
  x_nonneg : 0 ≤ s.screenX
  x_lt : s.screenX < NUM_COLS
  y_nonneg : 0 ≤ s.screenY
  y_lt : s.screenY < NUM_ROWS

/-- Related memories, and the same cursor. -/
structure Alike (R : σ → τ → Prop) (s : Screen σ) (t : Screen τ) : Prop where
  mem : R s.mem t.mem
  screenX : s.screenX = t.screenX
  screenY : s.screenY = t.screenY

theorem Alike.onGrid {s : Screen σ} {t : Screen τ} (h : Alike R s t) (hs : s.OnGrid) : t.OnGrid :=
  ⟨h.screenX ▸ hs.x_nonneg, h.screenX ▸ hs.x_lt, h.screenY ▸ hs.y_nonneg, h.screenY ▸ hs.y_lt⟩

theorem putCell_rel (h : bus.Simulates bus' R) (attrib : UInt8) {s : σ} {t : τ} (hst : R s t) {i : ℤ}
    (h0 : 0 ≤ i) (h1 : i < 2000) (c : UInt8) :
    R (putCell bus attrib s i c) (putCell bus' attrib t i c) :=
  h.store _ _ _ _ (h.store _ _ _ _ hst (by omega) (by omega)) (by omega) (by omega)

theorem clear_rel (h : bus.Simulates bus' R) (attrib : UInt8) {s : σ} {t : τ} (hst : R s t) :
    R (clear bus attrib s) (clear bus' attrib t) := by
  unfold clear
  refine forRange_rel (fun i s t _ hi hst => ?_) hst
  exact putCell_rel h attrib hst (by omega) (by omega) _

theorem shiftScreenUp_alike (h : bus.Simulates bus' R) (attrib : UInt8) {s : Screen σ} {t : Screen τ}
    (hst : Alike R s t) : Alike R (shiftScreenUp bus attrib s) (shiftScreenUp bus' attrib t) := by
  refine ⟨?_, hst.screenX, by simp only [shiftScreenUp, hst.screenY]⟩
  simp only [shiftScreenUp]
  refine forRange_rel (fun i s t _ hi hst => ?_) (forRange_rel (fun i s t _ hi hst => ?_) hst.mem)
  · simp only [NUM_ROWS, NUM_COLS]
    exact putCell_rel h attrib hst (by omega) (by omega) _
  · simp only [NUM_COLS]
    have hchar := h.load s t (2 * (i + 80)) hst (by omega) (by omega)
    have hmid := h.store s t (2 * i) (bus.load s (2 * (i + 80))) hst (by omega) (by omega)
    rw [← hchar]
    have hattr := h.load _ _ (2 * (i + 80) + 1) hmid (by omega) (by omega)
    rw [← hattr]
    exact h.store _ _ _ _ hmid (by omega) (by omega)

theorem putcScreen_onGrid (bus : VideoBus σ) (attrib : UInt8) {s : Screen σ} (hs : s.OnGrid)
    (c : UInt8) : (putcScreen bus attrib s c).OnGrid := by
  obtain ⟨h1, h2, h3, h4⟩ := hs
  simp only [NUM_COLS, NUM_ROWS] at h2 h4
  have hdiv : (s.screenX + 1).tdiv 80 = if s.screenX = 79 then 1 else 0 := by
    rw [Int.tdiv_eq_ediv_of_nonneg (by omega)]
    split_ifs <;> omega
  have hmod : (s.screenX + 1).tmod 80 = if s.screenX = 79 then 0 else s.screenX + 1 := by
    rw [Int.tmod_eq_emod_of_nonneg (by omega)]
    split_ifs <;> omega
  rw [putcScreen]
  simp only [NUM_COLS, NUM_ROWS, hdiv, hmod]
  split_ifs <;> constructor <;> simp only [shiftScreenUp, NUM_COLS, NUM_ROWS] at * <;> omega

theorem scroll_alike (h : bus.Simulates bus' R) (attrib : UInt8) {smem : σ} {tmem : τ}
    (hmem : R smem tmem) (x y : ℤ) :
    Alike R (if y ≥ NUM_ROWS then shiftScreenUp bus attrib ⟨smem, x, y⟩ else ⟨smem, x, y⟩)
      (if y ≥ NUM_ROWS then shiftScreenUp bus' attrib ⟨tmem, x, y⟩ else ⟨tmem, x, y⟩) := by
  split_ifs
  · exact shiftScreenUp_alike h attrib ⟨hmem, rfl, rfl⟩
  · exact ⟨hmem, rfl, rfl⟩

theorem putcScreen_alike (h : bus.Simulates bus' R) (attrib : UInt8) {s : Screen σ} {t : Screen τ}
    (hst : Alike R s t) (hs : s.OnGrid) (c : UInt8) :
    Alike R (putcScreen bus attrib s c) (putcScreen bus' attrib t c) := by
  obtain ⟨smem, x, y⟩ := s
  obtain ⟨tmem, x', y'⟩ := t
  obtain ⟨h1, h2, h3, h4⟩ := hs
  obtain ⟨hmem, rfl, rfl⟩ : R smem tmem ∧ x = x' ∧ y = y' := ⟨hst.mem, hst.screenX, hst.screenY⟩
  simp only [NUM_COLS, NUM_ROWS] at h1 h2 h3 h4
  have hput : ∀ i c, 0 ≤ i → i < 2000 → R (putCell bus attrib smem i c) (putCell bus' attrib tmem i c) :=
    fun i c h0 h1 => putCell_rel h attrib hmem h0 h1 c
  rw [putcScreen, putcScreen]
  by_cases hline : c = NEW_LINE ∨ c = CARRIAGE_RETURN
  · simp only [if_pos hline]
    exact scroll_alike h attrib hmem _ _
  · by_cases hback : c = BKSP_CHAR
    · simp only [if_neg hline, if_pos hback]
      by_cases hx : x - 1 < 0
      · by_cases hy : y - 1 < 0
        · simp only [if_pos hx, if_pos hy, NUM_COLS]
          exact scroll_alike h attrib (hput _ _ (by omega) (by omega)) _ _
        · simp only [if_pos hx, if_neg hy, NUM_COLS]
          exact scroll_alike h attrib (hput _ _ (by omega) (by omega)) _ _
      · simp only [if_neg hx, NUM_COLS]
        exact scroll_alike h attrib (hput _ _ (by omega) (by omega)) _ _
    · simp only [if_neg hline, if_neg hback, NUM_COLS]
      exact scroll_alike h attrib (hput _ _ (by omega) (by omega)) _ _

theorem putT_alike (h : bus.Simulates bus' R) (attrib : UInt8) (str : ℕ → Id UInt8) (n i : ℕ)
    {s : Screen σ} {t : Screen τ} (hst : Alike R s t) (hs : s.OnGrid) :
    Alike R (Id.run (putT bus attrib str n i s)).2 (Id.run (putT bus' attrib str n i t)).2 ∧
      (Id.run (putT bus attrib str n i s)).2.OnGrid := by
  induction n generalizing i s t with
  | zero => exact ⟨hst, hs⟩
  | succ n ih =>
    rw [putT, putT, Id.run_bind, Id.run_bind]
    split_ifs
    · exact ih (i + 1) (putcScreen_alike h attrib hst hs _) (putcScreen_onGrid bus attrib hs _)
    · exact ⟨hst, hs⟩

end Simulation

section Pages

/-- Address of byte `i` of the page at `base`. -/
def pageAddr (base : ℕ) (i : ℤ) : Addr := BitVec.ofInt 32 (base + i)

theorem pageAddr_natCast (base i : ℕ) : pageAddr base i = BitVec.ofNat 32 (base + i) := by
  rw [pageAddr, ← Nat.cast_add, BitVec.ofInt_natCast]

theorem pageAddr_toNat {base : ℕ} (hbase : base + 4096 ≤ 2 ^ 32) {i : ℤ} (h0 : 0 ≤ i) (h1 : i < 4096) :
    (pageAddr base i).toNat = base + i.toNat := by
  obtain ⟨n, rfl⟩ := Int.eq_ofNat_of_zero_le h0
  rw [pageAddr_natCast, BitVec.toNat_ofNat, Int.toNat_natCast]
  omega

/-- The page at `base` holds `page`, and all memory outside of it is that of `mem₀`. -/
structure OnPage (mem₀ : Addr → UInt8) (base : ℕ) (mem : Addr → UInt8) (page : ℤ → UInt8) :
    Prop where
  inside : ∀ i, 0 ≤ i → i < 4096 → mem (pageAddr base i) = page i
  outside : ∀ a : Addr, ¬ (base ≤ a.toNat ∧ a.toNat < base + 4096) → mem a = mem₀ a

/-- `video_mem` shows the page at `base`. -/
def Kernel.Shows (k : Kernel) (base : ℕ) : Prop :=
  ∀ i, 0 ≤ i → i < 4096 →
    ∃ u, k.paging.translate k.cr3 (pageAddr VIDEO i) = some ⟨pageAddr base i, u⟩

/-- Behind the page tables the screen code works on the page that is shown. -/
theorem videoBus_simulates {k : Kernel} {base : ℕ} (hbase : base + 4096 ≤ 2 ^ 32)
    (hshows : k.Shows base) (mem₀ : Addr → UInt8) :
    k.videoBus.Simulates pageBus (OnPage mem₀ base) where
  load mem page i h h0 h1 := by
    obtain ⟨u, hu⟩ := hshows i h0 (by omega)
    have hload : k.videoBus.load mem i = mem (pageAddr base i) := by
      change k.loadByte mem (pageAddr VIDEO i) = _
      rw [Kernel.loadByte, hu]
    rw [hload]
    exact h.inside i h0 (by omega)
  store mem page i c h h0 h1 := by
    obtain ⟨u, hu⟩ := hshows i h0 (by omega)
    have hstore : k.videoBus.store mem i c = Function.update mem (pageAddr base i) c := by
      change k.storeByte mem (pageAddr VIDEO i) c = _
      rw [Kernel.storeByte, hu]
    have hi := pageAddr_toNat hbase h0 (show i < 4096 by omega)
    rw [hstore]
    refine ⟨fun j hj0 hj1 => ?_, fun a ha => ?_⟩
    · change _ = Function.update page i c j
      rcases eq_or_ne j i with rfl | hne
      · rw [Function.update_self, Function.update_self]
      · have hj := pageAddr_toNat hbase hj0 hj1
        have hne' : pageAddr base j ≠ pageAddr base i := fun heq => by
          rw [heq, hi] at hj
          omega
        rw [Function.update_of_ne hne', Function.update_of_ne hne]
        exact h.inside j hj0 hj1
    · have hne : a ≠ pageAddr base i := fun heq => by
        rw [heq, hi] at ha
        omega
      rw [Function.update_of_ne hne]
      exact h.outside a ha

theorem screenAddress_apart (visible : ℕ) {t t' : ℕ} (hne : t ≠ t') :
    screenAddress visible t + 4096 ≤ screenAddress visible t' ∨
      screenAddress visible t' + 4096 ≤ screenAddress visible t := by
  simp only [screenAddress, VIDEO, LITERAL_4KB]
  split_ifs <;> omega

theorem screenAddress_fits (visible : ℕ) {t : ℕ} (ht : t < NUM_TERMINALS) :
    screenAddress visible t + 4096 ≤ 2 ^ 32 := by
  simp only [screenAddress, VIDEO, LITERAL_4KB, NUM_TERMINALS] at *
  split_ifs <;> omega

theorem Paging.TaskPaging.shows {k : Kernel} {pid t : ℕ} {phys : Word} {granted : Bool}
    (h : k.paging.TaskPaging pid phys (screenPage k.terminalState t) granted)
    (hpid : pid < MAX_NUM_PROCS) (ht : t < NUM_TERMINALS) (hcr3 : k.cr3 = .user pid) :
    k.Shows (screenAddress k.terminalState t) := by
  intro i h0 h1
  have hv := pageAddr_toNat (show VIDEO + 4096 ≤ 2 ^ 32 by decide) h0 h1
  have hfits := screenAddress_fits k.terminalState ht
  have hnat : i.toNat < 4096 := by omega
  obtain ⟨⟨phys', u⟩, htr, -, hphys⟩ := h.translate_video hpid (v := pageAddr VIDEO i)
    (by rw [hv]; omega) (by rw [hv, LITERAL_4KB]; omega)
  refine ⟨u, ?_⟩
  rw [hcr3, htr]
  congr 2
  refine BitVec.eq_of_toNat_eq ?_
  rw [hphys, frame_screenPage _ ht, hv, pageAddr_toNat hfits h0 h1]
  simp only [VIDEO]
  omega

end Pages

namespace Kernel

variable (k : Kernel) (t : ℕ)

/-- The logical screen and the logical cursor of terminal `t`. -/
def logicalConsole : Console where
  mem i := k.mem (pageAddr (screenAddress k.terminalState t) i)
  screenX := if t = k.terminalState then k.screenX else (k.terminals t).screenX
  screenY := if t = k.terminalState then k.screenY else (k.terminals t).screenY

end Kernel

/-- The same bytes on the page, and the same cursor. -/
structure SameConsole (c c' : Console) : Prop where
  mem : ∀ i, 0 ≤ i → i < 4096 → c.mem i = c'.mem i
  screenX : c.screenX = c'.screenX
  screenY : c.screenY = c'.screenY

theorem SameConsole.trans {c c' c'' : Console} (h : SameConsole c c') (h' : SameConsole c' c'') :
    SameConsole c c'' :=
  ⟨fun i h0 h1 => (h.mem i h0 h1).trans (h'.mem i h0 h1), h.screenX.trans h'.screenX,
    h.screenY.trans h'.screenY⟩

/-- `k'` is `k` after output to terminal `t` that left `scr` behind. -/
structure Prints (k : Kernel) (t : ℕ) (scr : Screen (Addr → UInt8)) (k' : Kernel) : Prop where
  pidAvail : k'.pidAvail = k.pidAvail
  pcbs : k'.pcbs = k.pcbs
  paging : k'.paging = k.paging
  terminalState : k'.terminalState = k.terminalState
  currAttribute : k'.currAttribute = k.currAttribute
  mem : k'.mem = scr.mem
  screenX : ∀ t', (k'.logicalConsole t').screenX =
    if t' = t then scr.screenX else (k.logicalConsole t').screenX
  screenY : ∀ t', (k'.logicalConsole t').screenY =
    if t' = t then scr.screenY else (k.logicalConsole t').screenY

section Output

variable {k : Kernel} {t : ℕ}

/-- `write_terminal` once it has printed. -/
def Kernel.afterWrite (k : Kernel) (scr : Screen (Addr → UInt8)) : Kernel :=
  let k := ((k.saveScreenXY k.terminalState).setScreen scr).saveScreenXY k.terminalBeingServiced
  k.setScreenXY (k.terminals k.terminalState).screenX (k.terminals k.terminalState).screenY

/-- What `write_terminal` starts from is the logical console of the caller. -/
theorem writeTerminal_run (str : ℕ → Id UInt8) {nbytes : Word} (hn : ¬ nbytes.toInt < 0) :
    let con := k.logicalConsole k.terminalBeingServiced
    (Id.run (k.writeTerminal STDOUT str nbytes)).2 = k.afterWrite
      (Id.run (putT k.videoBus k.currAttribute str nbytes.toNat 0
        ⟨k.mem, con.screenX, con.screenY⟩)).2 := by
  intro con
  have hscreen : ((k.saveScreenXY k.terminalState).setScreenXY
      ((k.saveScreenXY k.terminalState).terminals k.terminalBeingServiced).screenX
      ((k.saveScreenXY k.terminalState).terminals k.terminalBeingServiced).screenY).screen =
      ⟨k.mem, con.screenX, con.screenY⟩ := by
    simp only [Kernel.screen, Kernel.setScreenXY, Kernel.saveScreenXY, Kernel.setTerminal,
      Function.update_apply, con, Kernel.logicalConsole]
    split_ifs <;> rfl
  rw [Kernel.writeTerminal, if_neg (not_not.mpr rfl), if_neg hn, ← hscreen]
  rfl

/-- Every cursor is in `terminals` once `write_terminal` has saved both. -/
theorem afterWrite_cursor (scr : Screen (Addr → UInt8)) (t' : ℕ) :
    ((k.afterWrite scr).logicalConsole t').screenX =
        (if t' = k.terminalBeingServiced then scr.screenX else (k.logicalConsole t').screenX) ∧
      ((k.afterWrite scr).logicalConsole t').screenY =
        if t' = k.terminalBeingServiced then scr.screenY else (k.logicalConsole t').screenY := by
  simp only [Kernel.logicalConsole, Kernel.afterWrite, Kernel.saveScreenXY, Kernel.setTerminal,
    Kernel.setScreen, Kernel.setScreenXY]
  by_cases hvis : t' = k.terminalState
  · subst hvis
    by_cases hserv : k.terminalState = k.terminalBeingServiced
    · simp [← hserv]
    · simp [hserv]
  · by_cases hserv : t' = k.terminalBeingServiced
    · subst hserv
      simp [hvis]
    · simp [hvis, hserv]

theorem afterWrite_prints (scr : Screen (Addr → UInt8)) :
    Prints k k.terminalBeingServiced scr (k.afterWrite scr) :=
  ⟨rfl, rfl, rfl, rfl, rfl, rfl, fun t' => (afterWrite_cursor scr t').1,
    fun t' => (afterWrite_cursor scr t').2⟩

theorem putcKbd_prints (c : UInt8) :
    Prints k k.terminalState (putcScreen k.videoBus k.currAttribute k.screen c) (k.putcKbd c) := by
  refine ⟨rfl, rfl, rfl, rfl, rfl, rfl, fun t' => ?_, fun t' => ?_⟩
  · by_cases hvis : t' = k.terminalState
    · exact (if_pos hvis).trans (if_pos hvis).symm
    · exact (if_neg hvis).trans ((if_neg hvis).trans (if_neg hvis)).symm
  · by_cases hvis : t' = k.terminalState
    · exact (if_pos hvis).trans (if_pos hvis).symm
    · exact (if_neg hvis).trans ((if_neg hvis).trans (if_neg hvis)).symm

/-- Output that a console of its own simulates reaches the logical console of its
terminal and no other. -/
theorem Prints.consoles {scr : Screen (Addr → UInt8)} {k' : Kernel} (h : Prints k t scr k')
    {con : Console} (hscr : Alike (OnPage k.mem (screenAddress k.terminalState t)) scr con) :
    SameConsole (k'.logicalConsole t) con ∧
      ∀ t' < NUM_TERMINALS, t' ≠ t → SameConsole (k'.logicalConsole t') (k.logicalConsole t') := by
  refine ⟨⟨fun i h0 h1 => ?_, ?_, ?_⟩, fun t' ht' hne => ⟨fun i h0 h1 => ?_, ?_, ?_⟩⟩
  · simp only [Kernel.logicalConsole, h.mem, h.terminalState]
    exact hscr.mem.inside i h0 h1
  · rw [h.screenX, if_pos rfl, hscr.screenX]
  · rw [h.screenY, if_pos rfl, hscr.screenY]
  · simp only [Kernel.logicalConsole, h.mem, h.terminalState]
    have happart := screenAddress_apart k.terminalState hne
    have haddr := pageAddr_toNat (screenAddress_fits k.terminalState ht') h0 h1
    exact hscr.mem.outside _ (by omega)
  · rw [h.screenX, if_neg hne]
  · rw [h.screenY, if_neg hne]

end Output

section Switch

variable {k : Kernel} {pid toT : ℕ} {phys : Word} {granted : Bool}

theorem backing_translate (h : k.paging.TaskPaging pid phys (screenPage k.terminalState k.terminalState)
      granted) (hpid : pid < MAX_NUM_PROCS) (hcr3 : k.cr3 = .user pid) {t i : ℕ}
    (ht : t < NUM_TERMINALS) (hi : i < LITERAL_4KB) :
    ∃ u, k.paging.translate k.cr3
        (BitVec.ofNat 32 (VIDEO + (t + 1) * LITERAL_4KB) + BitVec.ofNat 32 i) =
      some ⟨BitVec.ofNat 32 (VIDEO + (t + 1) * LITERAL_4KB + i), u⟩ := by
  simp only [NUM_TERMINALS, LITERAL_4KB] at ht hi
  rw [← BitVec.ofNat_add]
  have hv : (BitVec.ofNat 32 (VIDEO + (t + 1) * LITERAL_4KB + i)).toNat =
      VIDEO + (t + 1) * LITERAL_4KB + i := by
    rw [BitVec.toNat_ofNat, VIDEO, LITERAL_4KB]
    omega
  obtain ⟨⟨phys', u⟩, htr, hphys⟩ := h.translate_backing hpid
    (v := BitVec.ofNat 32 (VIDEO + (t + 1) * LITERAL_4KB + i))
    (by rw [hv, LITERAL_4KB]; omega) (by rw [hv, LITERAL_4KB]; omega)
  obtain rfl : phys' = _ := hphys
  exact ⟨u, by rw [hcr3, htr]⟩

theorem video_translate (h : k.paging.TaskPaging pid phys (screenPage k.terminalState k.terminalState)
      granted) (hpid : pid < MAX_NUM_PROCS) (hcr3 : k.cr3 = .user pid)
    (hvisible : k.terminalState < NUM_TERMINALS) {i : ℕ} (hi : i < LITERAL_4KB) :
    ∃ u, k.paging.translate k.cr3 (BitVec.ofNat 32 VIDEO + BitVec.ofNat 32 i) =
      some ⟨BitVec.ofNat 32 (VIDEO + i), u⟩ := by
  obtain ⟨u, hu⟩ := h.shows hpid hvisible hcr3 i (Int.natCast_nonneg i)
    (by exact_mod_cast hi)
  rw [pageAddr_natCast, pageAddr_natCast, screenAddress, if_pos rfl, BitVec.ofNat_add] at hu
  exact ⟨u, by rw [hu, BitVec.ofNat_add]⟩

/-- The two copies move the page of every terminal to where it is shown next. -/
theorem switchedMem_page
    (h : k.paging.TaskPaging pid phys (screenPage k.terminalState k.terminalState) granted)
    (hpid : pid < MAX_NUM_PROCS) (hcr3 : k.cr3 = .user pid)
    (hvisible : k.terminalState < NUM_TERMINALS) (hto : toT < NUM_TERMINALS)
    (hne : toT ≠ k.terminalState) {t : ℕ} (ht : t < NUM_TERMINALS) {i : ℤ} (h0 : 0 ≤ i)
    (h1 : i < 4096) :
    k.switchedMem k.terminalState toT (pageAddr (screenAddress toT t) i) =
      k.mem (pageAddr (screenAddress k.terminalState t) i) := by
  obtain ⟨n, rfl⟩ := Int.eq_ofNat_of_zero_le h0
  have hn : n < 4096 := by omega
  have hback : ∀ t < NUM_TERMINALS, VIDEO + (t + 1) * LITERAL_4KB + LITERAL_4KB ≤ 2 ^ 32 :=
    fun t ht => by simp only [NUM_TERMINALS, VIDEO, LITERAL_4KB] at *; omega
  have hnat : ∀ b, b + LITERAL_4KB ≤ 2 ^ 32 → (BitVec.ofNat 32 (b + n)).toNat = b + n :=
    fun b hb => by
      simp only [LITERAL_4KB] at hb
      rw [BitVec.toNat_ofNat]
      omega
  have habove : ∀ t, VIDEO + LITERAL_4KB ≤ VIDEO + (t + 1) * LITERAL_4KB := fun t => by
    simp only [VIDEO, LITERAL_4KB]
    omega
  have hapart : ∀ t' ≠ t, ¬ (VIDEO + (t' + 1) * LITERAL_4KB ≤ VIDEO + (t + 1) * LITERAL_4KB + n ∧
      VIDEO + (t + 1) * LITERAL_4KB + n < VIDEO + (t' + 1) * LITERAL_4KB + LITERAL_4KB) :=
    fun t' ht' => by
      simp only [LITERAL_4KB]
      omega
  set fromT := k.terminalState with hfrom
  have hfirst := k.memcpy_mem (d := BitVec.ofNat 32 (VIDEO + (fromT + 1) * LITERAL_4KB))
    (s := BitVec.ofNat 32 VIDEO) (hback fromT hvisible) (show VIDEO + LITERAL_4KB ≤ 2 ^ 32 by decide)
    (Or.inr (habove fromT)) (fun i hi => backing_translate h hpid hcr3 hvisible hi)
    fun i hi => video_translate h hpid hcr3 hvisible hi
  obtain ⟨mem₁, hmem₁⟩ := k.memcpy_frame (BitVec.ofNat 32 (VIDEO + (fromT + 1) * LITERAL_4KB))
    (BitVec.ofNat 32 VIDEO) LITERAL_4KB
  rw [hmem₁] at hfirst
  have hsecond := Kernel.memcpy_mem { k with mem := mem₁ } (d := BitVec.ofNat 32 VIDEO)
    (s := BitVec.ofNat 32 (VIDEO + (toT + 1) * LITERAL_4KB))
    (show VIDEO + LITERAL_4KB ≤ 2 ^ 32 by decide) (hback toT hto) (Or.inl (habove toT))
    (fun i hi => video_translate h hpid hcr3 hvisible hi)
    fun i hi => backing_translate h hpid hcr3 hto hi
  have hn' : n < LITERAL_4KB := hn
  simp only [pageAddr_natCast]
  rw [Kernel.switchedMem, hmem₁, hsecond]
  rcases eq_or_ne t toT with rfl | htoT
  · have hpage := hnat VIDEO (by decide)
    have hpage' := hnat _ (hback t hto)
    rw [screenAddress, if_pos rfl, screenAddress, if_neg hne, hpage, if_pos (by omega),
      Nat.add_sub_cancel_left, hfirst, hpage', if_neg (hapart fromT hne.symm)]
  · have hpage := hnat _ (hback t ht)
    rw [screenAddress, if_neg htoT, hpage, if_neg (by simp only [LITERAL_4KB]; omega), hfirst, hpage,
      screenAddress]
    rcases eq_or_ne t fromT with rfl | hfromT
    · rw [if_pos (by omega), if_pos rfl, Nat.add_sub_cancel_left]
    · rw [if_neg (hapart fromT hfromT.symm), if_neg hfromT]

theorem changeTerminalState_consoles
    (h : k.paging.TaskPaging pid phys (screenPage k.terminalState k.terminalState) granted)
    (hpid : pid < MAX_NUM_PROCS) (hcr3 : k.cr3 = .user pid)
    (hvisible : k.terminalState < NUM_TERMINALS) (hto : toT < NUM_TERMINALS)
    (hne : toT ≠ k.terminalState) {t : ℕ} (ht : t < NUM_TERMINALS) :
    SameConsole ((k.changeTerminalState k.terminalState toT).logicalConsole t)
      (k.logicalConsole t) := by
  obtain ⟨P, hk, -, -⟩ := k.changeTerminalState_spec k.terminalState toT
  have hcursor : ∀ t, ((k.saveScreenXY k.terminalState).terminals t).screenX =
      (k.logicalConsole t).screenX ∧ ((k.saveScreenXY k.terminalState).terminals t).screenY =
      (k.logicalConsole t).screenY := by
    intro t
    simp only [Kernel.saveScreenXY, Kernel.setTerminal, Kernel.logicalConsole]
    rcases eq_or_ne t k.terminalState with rfl | hne
    · simp
    · simp [hne]
  have hfinal : (k.changeTerminalState k.terminalState toT).logicalConsole t =
      { mem := fun i => k.switchedMem k.terminalState toT (pageAddr (screenAddress toT t) i)
        screenX := ((k.saveScreenXY k.terminalState).terminals t).screenX
        screenY := ((k.saveScreenXY k.terminalState).terminals t).screenY } := by
    rw [hk]
    simp only [Kernel.logicalConsole]
    rcases eq_or_ne t toT with rfl | hne
    · simp only [if_true]
    · simp only [if_neg hne]
  rw [hfinal]
  refine ⟨fun i h0 h1 => ?_, (hcursor t).1, (hcursor t).2⟩
  have hpage := switchedMem_page h hpid hcr3 hvisible hto hne ht h0 h1
  simp only [Kernel.logicalConsole, hpage]

end Switch

/-- Output by a process to its terminal, an echo, or a switch of terminals. The
keyboard handler runs under the directory of a process of the visible terminal. -/
inductive ConsoleEvent
  | write (pid : ℕ) (s : ℕ → UInt8) (nbytes : Word)
  | echo (pid : ℕ) (c : UInt8)
  | switch (pid : ℕ) (toT : ℕ)

/-- The kernel, and what each terminal has received so far. -/
structure Consoles where
  kernel : Kernel
  received : ℕ → List ConsoleOp

def Kernel.owner (k : Kernel) (pid : ℕ) : ℕ := (k.pcbs (pcbAddr pid)).ownedByTerminal

def consoleStep (s : Consoles) : ConsoleEvent → Consoles → Prop
  | .write pid str nbytes, s' =>
    let t := s.kernel.owner pid
    let k : Kernel := { s.kernel with terminalBeingServiced := t, cr3 := .user pid }
    s.kernel.Used pid ∧
      s'.kernel = (Id.run (k.writeTerminal STDOUT (fun i => (str i : Id UInt8)) nbytes)).2 ∧
      s'.received = Function.update s.received t (s.received t ++ [.write str nbytes])
  | .echo pid c, s' =>
    let t := s.kernel.terminalState
    s.kernel.Used pid ∧ s.kernel.owner pid = t ∧
      s'.kernel = ({ s.kernel with cr3 := .user pid } : Kernel).putcKbd c ∧
      s'.received = Function.update s.received t (s.received t ++ [.putc c])
  | .switch pid toT, s' =>
    s.kernel.Used pid ∧ s.kernel.owner pid = s.kernel.terminalState ∧ toT < NUM_TERMINALS ∧
      toT ≠ s.kernel.terminalState ∧
      s'.kernel = ({ s.kernel with cr3 := .user pid } : Kernel).changeTerminalState
        s.kernel.terminalState toT ∧
      s'.received = s.received

/-- Every process in use has the page of its terminal for its screen. -/
def Kernel.ScreensMapped (k : Kernel) : Prop :=
  ∀ p, k.Used p → k.owner p < NUM_TERMINALS ∧
    ∃ phys granted, k.paging.TaskPaging p phys (screenPage k.terminalState (k.owner p)) granted

/-- The logical consoles of `k` are those of consoles of their own, on the grid. -/
def Kernel.ShowsConsoles (k : Kernel) (con : ℕ → Console) : Prop :=
  ∀ t < NUM_TERMINALS, SameConsole (k.logicalConsole t) (con t) ∧ (k.logicalConsole t).OnGrid

/-- A console of its own on everything that terminal `t` has received. -/
def Consoles.isolated (s : Consoles) (attrib : UInt8) (con : ℕ → Console) (t : ℕ) : Console :=
  (s.received t).foldl (ConsoleOp.apply attrib) (con t)

structure Refines (attrib : UInt8) (con : ℕ → Console) (s : Consoles) : Prop where
  visible : s.kernel.terminalState < NUM_TERMINALS
  screens : s.kernel.ScreensMapped
  currAttribute : s.kernel.currAttribute = attrib
  consoles : s.kernel.ShowsConsoles (s.isolated attrib con)

section Run

variable {attrib : UInt8} {con : ℕ → Console} {s s' : Consoles}

theorem isolated_update {t : ℕ} {op : ConsoleOp}
    (h : s'.received = Function.update s.received t (s.received t ++ [op])) (t' : ℕ) :
    s'.isolated attrib con t' =
      if t' = t then op.apply attrib (s.isolated attrib con t) else s.isolated attrib con t' := by
  rw [Consoles.isolated, h]
  rcases eq_or_ne t' t with rfl | hne
  · rw [Function.update_self, if_pos rfl, List.foldl_append]
    rfl
  · rw [Function.update_of_ne hne, if_neg hne]
    rfl

theorem SameConsole.onGrid {c c' : Console} (h : SameConsole c c') (hc : c.OnGrid) : c'.OnGrid :=
  ⟨h.screenX ▸ hc.x_nonneg, h.screenX ▸ hc.x_lt, h.screenY ▸ hc.y_nonneg, h.screenY ▸ hc.y_lt⟩

theorem SameConsole.symm {c c' : Console} (h : SameConsole c c') : SameConsole c' c :=
  ⟨fun i h0 h1 => (h.mem i h0 h1).symm, h.screenX.symm, h.screenY.symm⟩

/-- Output to terminal `t` that the console of its own follows keeps the refinement. -/
theorem refines_of_prints {k k' : Kernel} {t : ℕ} {scr : Screen (Addr → UInt8)} {op : ConsoleOp}
    (h : Refines attrib con s) (hk : k.pidAvail = s.kernel.pidAvail ∧ k.pcbs = s.kernel.pcbs ∧
      k.paging = s.kernel.paging ∧ k.terminalState = s.kernel.terminalState ∧
      k.currAttribute = s.kernel.currAttribute ∧ k.logicalConsole = s.kernel.logicalConsole)
    (ht : t < NUM_TERMINALS) (hprints : Prints k t scr k')
    (halike : Alike (OnPage k.mem (screenAddress k.terminalState t)) scr
      (op.apply attrib (s.isolated attrib con t))) (hgrid : scr.OnGrid) (hkernel : s'.kernel = k')
    (hreceived : s'.received = Function.update s.received t (s.received t ++ [op])) :
    Refines attrib con s' := by
  obtain ⟨hpid, hpcbs, hpaging, hvis, hattr, hlog⟩ := hk
  obtain ⟨hsame, hothers⟩ := hprints.consoles halike
  have howner : ∀ p, s'.kernel.owner p = s.kernel.owner p := fun p => by
    rw [Kernel.owner, hkernel, hprints.pcbs, hpcbs, Kernel.owner]
  have hvis' : s'.kernel.terminalState = s.kernel.terminalState := by
    rw [hkernel, hprints.terminalState, hvis]
  refine ⟨hvis' ▸ h.visible, fun p hp => ?_, ?_, fun t' ht' => ?_⟩
  · have hused : s.kernel.Used p :=
      (Kernel.used_congr (by rw [hkernel, hprints.pidAvail, hpid])).mp hp
    rw [howner, hvis', hkernel, hprints.paging, hpaging]
    exact h.screens p hused
  · rw [hkernel, hprints.currAttribute, hattr, h.currAttribute]
  · rw [isolated_update hreceived, hkernel]
    rcases eq_or_ne t' t with rfl | hne
    · rw [if_pos rfl]
      exact ⟨hsame, hsame.symm.onGrid (halike.onGrid hgrid)⟩
    · rw [if_neg hne]
      have hold := hothers t' ht' hne
      rw [hlog] at hold
      exact ⟨hold.trans (h.consoles t' ht').1, hold.symm.onGrid (h.consoles t' ht').2⟩

/-- The logical console of a terminal, seen from the page it is shown on. -/
theorem SameConsole.alike {k : Kernel} {t : ℕ} {c : Console} (h : SameConsole (k.logicalConsole t) c) :
    Alike (OnPage k.mem (screenAddress k.terminalState t))
      ⟨k.mem, (k.logicalConsole t).screenX, (k.logicalConsole t).screenY⟩ c :=
  ⟨⟨h.mem, fun _ _ => rfl⟩, h.screenX, h.screenY⟩

theorem refines_write {pid : ℕ} {str : ℕ → UInt8} {nbytes : Word} (h : Refines attrib con s)
    (hstep : consoleStep s (.write pid str nbytes) s') : Refines attrib con s' := by
  obtain ⟨hpid, hkernel, hreceived⟩ := hstep
  obtain rfl := h.currAttribute
  obtain ⟨ht, phys, granted, htask⟩ := h.screens pid hpid
  set t := s.kernel.owner pid with hdef
  set k : Kernel := { s.kernel with terminalBeingServiced := t, cr3 := .user pid } with hk
  obtain ⟨hsame, hgrid⟩ := h.consoles t ht
  have hstart : Screen.OnGrid (⟨k.mem, (k.logicalConsole t).screenX, (k.logicalConsole t).screenY⟩ :
      Screen (Addr → UInt8)) := ⟨hgrid.x_nonneg, hgrid.x_lt, hgrid.y_nonneg, hgrid.y_lt⟩
  have hframe : k.pidAvail = s.kernel.pidAvail ∧ k.pcbs = s.kernel.pcbs ∧
      k.paging = s.kernel.paging ∧ k.terminalState = s.kernel.terminalState ∧
      k.currAttribute = s.kernel.currAttribute ∧ k.logicalConsole = s.kernel.logicalConsole :=
    ⟨rfl, rfl, rfl, rfl, rfl, rfl⟩
  have hshows : k.Shows (screenAddress k.terminalState t) :=
    Paging.TaskPaging.shows (k := k) htask hpid.1 ht rfl
  by_cases hn : nbytes.toInt < 0
  · have hsilent : (Id.run (k.writeTerminal STDOUT (fun i => (str i : Id UInt8)) nbytes)).2 = k := by
      rw [Kernel.writeTerminal, if_neg (not_not.mpr rfl), if_pos hn]
      rfl
    rw [hsilent] at hkernel
    have hprints : Prints k t ⟨k.mem, (k.logicalConsole t).screenX, (k.logicalConsole t).screenY⟩ k := by
      refine ⟨rfl, rfl, rfl, rfl, rfl, rfl, fun t' => ?_, fun t' => ?_⟩
      · split_ifs with heq <;> simp only [heq]
      · split_ifs with heq <;> simp only [heq]
    refine refines_of_prints h hframe ht hprints ?_ hstart hkernel hreceived
    rw [ConsoleOp.apply, if_pos hn]
    exact SameConsole.alike (k := k) hsame
  · have hprints := afterWrite_prints (k := k) (Id.run (putT k.videoBus k.currAttribute
      (fun i => (str i : Id UInt8)) nbytes.toNat 0
      ⟨k.mem, (k.logicalConsole t).screenX, (k.logicalConsole t).screenY⟩)).2
    rw [writeTerminal_run _ hn] at hkernel
    obtain ⟨halike, hgrid'⟩ := putT_alike
      (videoBus_simulates (screenAddress_fits k.terminalState ht) hshows k.mem) k.currAttribute
      (fun i => (str i : Id UInt8)) nbytes.toNat 0 (SameConsole.alike (k := k) hsame) hstart
    refine refines_of_prints h hframe ht hprints ?_ hgrid' hkernel hreceived
    rw [ConsoleOp.apply, if_neg hn]
    exact halike

theorem refines_echo {pid : ℕ} {c : UInt8} (h : Refines attrib con s)
    (hstep : consoleStep s (.echo pid c) s') : Refines attrib con s' := by
  obtain ⟨hpid, howner, hkernel, hreceived⟩ := hstep
  obtain rfl := h.currAttribute
  obtain ⟨ht, phys, granted, htask⟩ := h.screens pid hpid
  rw [howner] at ht htask
  set k : Kernel := { s.kernel with cr3 := .user pid } with hk
  obtain ⟨hsame, hgrid⟩ := h.consoles _ ht
  have hframe : k.pidAvail = s.kernel.pidAvail ∧ k.pcbs = s.kernel.pcbs ∧
      k.paging = s.kernel.paging ∧ k.terminalState = s.kernel.terminalState ∧
      k.currAttribute = s.kernel.currAttribute ∧ k.logicalConsole = s.kernel.logicalConsole :=
    ⟨rfl, rfl, rfl, rfl, rfl, rfl⟩
  have hshows : k.Shows (screenAddress k.terminalState k.terminalState) :=
    Paging.TaskPaging.shows (k := k) htask hpid.1 ht rfl
  have hscreen : k.screen = ⟨k.mem, (k.logicalConsole k.terminalState).screenX,
      (k.logicalConsole k.terminalState).screenY⟩ := by
    simp only [Kernel.screen, Kernel.logicalConsole, if_true]
  have hstart : Alike (OnPage k.mem (screenAddress k.terminalState k.terminalState)) k.screen
      (s.isolated s.kernel.currAttribute con k.terminalState) := by
    rw [hscreen]
    exact SameConsole.alike (k := k) hsame
  have hgrid' : k.screen.OnGrid := by
    rw [hscreen]
    exact ⟨hgrid.x_nonneg, hgrid.x_lt, hgrid.y_nonneg, hgrid.y_lt⟩
  have halike := putcScreen_alike
    (videoBus_simulates (screenAddress_fits k.terminalState ht) hshows k.mem) k.currAttribute hstart
    hgrid' c
  refine refines_of_prints h hframe ht (putcKbd_prints c) ?_
    (putcScreen_onGrid _ _ hgrid' c) hkernel hreceived
  exact halike

theorem refines_switch {pid toT : ℕ} (h : Refines attrib con s)
    (hstep : consoleStep s (.switch pid toT) s') : Refines attrib con s' := by
  obtain ⟨hpid, howner, hto, hne, hkernel, hreceived⟩ := hstep
  obtain ⟨ht, phys, granted, htask⟩ := h.screens pid hpid
  rw [howner] at ht htask
  set k : Kernel := { s.kernel with cr3 := .user pid } with hk
  have hsame : ∀ t < NUM_TERMINALS, SameConsole (s'.kernel.logicalConsole t)
      (s.kernel.logicalConsole t) := fun t ht' => by
    rw [hkernel]
    exact changeTerminalState_consoles (k := k) htask hpid.1 rfl h.visible hto hne ht'
  obtain ⟨P, hswitch, -, hP⟩ := k.changeTerminalState_spec s.kernel.terminalState toT
  rw [hswitch] at hkernel
  refine ⟨by rw [hkernel]; exact hto, fun p hp => ?_, by rw [hkernel]; exact h.currAttribute,
    fun t ht' => ?_⟩
  · have hused : s.kernel.Used p := (Kernel.used_congr (by rw [hkernel])).mp hp
    obtain ⟨hlt, phys', granted', htask'⟩ := h.screens p hused
    have howner' : s'.kernel.owner p = s.kernel.owner p := by
      rw [hkernel]
      rfl
    rw [howner', hkernel]
    refine ⟨hlt, phys', granted', ?_⟩
    have hremapped := hP p hused.1 phys' _ granted' htask'
    have hscreen := k.remappedScreen_screenPage s.kernel.terminalState toT
      ((Kernel.isPidUsed_iff (k := k) hused.1).mpr hused)
    change k.remappedScreen s.kernel.terminalState toT p
      (screenPage s.kernel.terminalState (s.kernel.owner p)) = screenPage toT (s.kernel.owner p)
      at hscreen
    rwa [hscreen] at hremapped
  · have hiso : s'.isolated attrib con t = s.isolated attrib con t := by
      rw [Consoles.isolated, hreceived, Consoles.isolated]
    rw [hiso]
    exact ⟨(hsame t ht').trans (h.consoles t ht').1, (hsame t ht').symm.onGrid (h.consoles t ht').2⟩

theorem consoleStep_refines (s : Consoles) (e : ConsoleEvent) (s' : Consoles)
    (h : Refines attrib con s) (hstep : consoleStep s e s') : Refines attrib con s' := by
  cases e with
  | write => exact refines_write h hstep
  | echo => exact refines_echo h hstep
  | switch => exact refines_switch h hstep

end Run

/-- Whatever interleaving of output, echoes and switches has happened, every
terminal shows what a console of its own would show that received only the output
and the echoes for that terminal, in order. -/
theorem virtual_consoles (k : Kernel) (hvisible : k.terminalState < NUM_TERMINALS)
    (hscreens : k.ScreensMapped) (hgrid : ∀ t < NUM_TERMINALS, (k.logicalConsole t).OnGrid)
    (p : List (ConsoleEvent × Consoles)) (hp : Runs.Path consoleStep ⟨k, fun _ => []⟩ p) :
    let s := Runs.final ⟨k, fun _ => []⟩ p
    ∀ t < NUM_TERMINALS, SameConsole (s.kernel.logicalConsole t)
      ((s.received t).foldl (ConsoleOp.apply k.currAttribute) (k.logicalConsole t)) := by
  intro s t ht
  have hrefines : Refines k.currAttribute k.logicalConsole s :=
    Runs.invariant_final (fun s e s' h _ => consoleStep_refines s e s' h)
      ⟨hvisible, hscreens, rfl, fun t ht => ⟨⟨fun _ _ _ => rfl, rfl, rfl⟩, hgrid t ht⟩⟩ hp
      (Runs.meets_true fun _ _ => trivial)
  exact (hrefines.consoles t ht).1

theorem shellKernel_screensMapped : shellKernel.ScreensMapped := by
  intro p hp
  rcases (shellKernel_starts.used_iff p).mp hp with rfl | hused
  · obtain ⟨args, mem, hk⟩ := shellKernel_starts.eq
    have htables := Paging.setupTaskPaging_taskPaging bootKernel.paging 0 (blockAddressForProcess 0)
    have hpaging : shellKernel.paging =
        bootKernel.paging.setupTaskPaging 0 (blockAddressForProcess 0) := by
      rw [hk]
      rfl
    rw [← hpaging] at htables
    exact ⟨by decide, _, _, htables⟩
  · exact absurd hused (bootKernel_not_used p)

theorem shellKernel_onGrid (t : ℕ) (ht : t < NUM_TERMINALS) : (shellKernel.logicalConsole t).OnGrid := by
  obtain rfl | rfl | rfl : t = 0 ∨ t = 1 ∨ t = 2 := by
    rw [NUM_TERMINALS] at ht
    omega
  all_goals exact ⟨by decide, by decide, by decide, by decide⟩

def consoleNext (s : Consoles) : ConsoleEvent → Consoles
  | .write pid str nbytes =>
    let t := s.kernel.owner pid
    let k : Kernel := { s.kernel with terminalBeingServiced := t, cr3 := .user pid }
    ⟨(Id.run (k.writeTerminal STDOUT (fun i => (str i : Id UInt8)) nbytes)).2,
      Function.update s.received t (s.received t ++ [.write str nbytes])⟩
  | .echo pid c =>
    let t := s.kernel.terminalState
    ⟨({ s.kernel with cr3 := .user pid } : Kernel).putcKbd c,
      Function.update s.received t (s.received t ++ [.putc c])⟩
  | .switch pid toT =>
    ⟨({ s.kernel with cr3 := .user pid } : Kernel).changeTerminalState s.kernel.terminalState toT,
      s.received⟩

def outputBc (i : ℕ) : UInt8 := [98, 99].getD i NULL_CHAR

/-- The first shell's terminal echoes `a`, -/
@[irreducible] def echoed : Consoles := consoleNext ⟨shellKernel, fun _ => []⟩ (.echo 0 97)

/-- the second terminal becomes visible, -/
@[irreducible] def echoedHidden : Consoles := consoleNext echoed (.switch 0 1)

@[irreducible] def wroteHidden : Consoles := consoleNext echoedHidden (.write 0 outputBc 2#32)

theorem consoleStep_write {s : Consoles} {pid : ℕ} (hpid : s.kernel.Used pid) (str : ℕ → UInt8)
    (nbytes : Word) : consoleStep s (.write pid str nbytes) (consoleNext s (.write pid str nbytes)) :=
  ⟨hpid, rfl, rfl⟩

theorem consoleStep_echo {s : Consoles} {pid : ℕ} (hpid : s.kernel.Used pid)
    (howner : s.kernel.owner pid = s.kernel.terminalState) (c : UInt8) :
    consoleStep s (.echo pid c) (consoleNext s (.echo pid c)) :=
  ⟨hpid, howner, rfl, rfl⟩

theorem consoleStep_switch {s : Consoles} {pid toT : ℕ} (hpid : s.kernel.Used pid)
    (howner : s.kernel.owner pid = s.kernel.terminalState) (hto : toT < NUM_TERMINALS)
    (hne : toT ≠ s.kernel.terminalState) :
    consoleStep s (.switch pid toT) (consoleNext s (.switch pid toT)) :=
  ⟨hpid, howner, hto, hne, rfl, rfl⟩

theorem wroteHidden_path : Runs.Path consoleStep ⟨shellKernel, fun _ => []⟩
    [(.echo 0 97, echoed), (.switch 0 1, echoedHidden), (.write 0 outputBc 2#32, wroteHidden)] := by
  have hechoed : echoed.kernel.Used 0 ∧ echoed.kernel.owner 0 = echoed.kernel.terminalState ∧
      1 ≠ echoed.kernel.terminalState := by decide +kernel
  have hhidden : echoedHidden.kernel.Used 0 := by decide +kernel
  have hecho : consoleStep ⟨shellKernel, fun _ => []⟩ (.echo 0 97) echoed := by
    rw [echoed]
    exact consoleStep_echo ((shellKernel_starts.used_iff 0).mpr (Or.inl rfl)) rfl 97
  have hswitch : consoleStep echoed (.switch 0 1) echoedHidden := by
    rw [echoedHidden]
    exact consoleStep_switch hechoed.1 hechoed.2.1 (by decide) hechoed.2.2
  have hwrite : consoleStep echoedHidden (.write 0 outputBc 2#32) wroteHidden := by
    rw [wroteHidden]
    exact consoleStep_write hhidden outputBc 2#32
  exact ⟨hecho, hswitch, hwrite, trivial⟩

theorem wroteHidden_received :
    wroteHidden.received 0 = [.putc 97, .write outputBc 2#32] ∧ wroteHidden.received 1 = [] := by
  have howner : echoedHidden.kernel.owner 0 = 0 := by decide +kernel
  have hbefore : echoedHidden.received = Function.update (fun _ => []) 0 [.putc 97] := by
    rw [echoedHidden, echoed]
    rfl
  have hreceived : wroteHidden.received = Function.update echoedHidden.received
      (echoedHidden.kernel.owner 0)
      (echoedHidden.received (echoedHidden.kernel.owner 0) ++ [.write outputBc 2#32]) := by
    rw [wroteHidden]
    rfl
  rw [hreceived, howner, hbefore]
  exact ⟨rfl, rfl⟩

/-- Both are on the first console then, and the second is what it was. -/
theorem virtual_consoles_hidden :
    SameConsole (wroteHidden.kernel.logicalConsole 0)
      ([.putc 97, .write outputBc 2#32].foldl (ConsoleOp.apply shellKernel.currAttribute)
        (shellKernel.logicalConsole 0)) ∧
    SameConsole (wroteHidden.kernel.logicalConsole 1) (shellKernel.logicalConsole 1) := by
  have h := virtual_consoles shellKernel (by decide) shellKernel_screensMapped
    shellKernel_onGrid _ wroteHidden_path
  have h0 := h 0 (by decide)
  have h1 := h 1 (by decide)
  simp only [Runs.final, wroteHidden_received.1, wroteHidden_received.2] at h0 h1
  exact ⟨h0, h1⟩

end SnoopDos
