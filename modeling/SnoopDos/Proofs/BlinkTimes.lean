import SnoopDos.Proofs.Blinkers

/-! A blinker keeps its own time. Whatever is added, removed and synchronised elsewhere,
its cell of the screen shows the two characters in turn, each for its length in ticks. -/

namespace SnoopDos

/-- For how many ticks a phase lasts: the countdown is compared as a signed number. -/
def duration (len : BitVec 16) : ℕ := if len = 0 ∨ 0x8000 < len.toNat then 1 else len.toNat

namespace Blinker

variable (b : Blinker)

def period : ℕ := duration b.onLength + duration b.offLength

/-- The character that a blinker shows `n` ticks after it has been added. -/
def shown (n : ℕ) : UInt8 :=
  if n % b.period < duration b.onLength then b.onChar else b.offChar

/-- A blinker `n` ticks after it has been added. -/
def aged (n : ℕ) : Blinker :=
  if n % b.period < duration b.onLength then
    { b with status := 1, countdown := b.onLength - BitVec.ofNat 16 (n % b.period) }
  else
    { b with
      status := 0
      countdown := b.offLength - BitVec.ofNat 16 (n % b.period - duration b.onLength) }

end Blinker

section Time

variable {b : Blinker} {n r : ℕ}

theorem duration_pos (len : BitVec 16) : 0 < duration len := by
  unfold duration
  split_ifs with h
  · exact Nat.one_pos
  · have hne : len.toNat ≠ 0 := fun h0 => h (Or.inl (BitVec.eq_of_toNat_eq h0))
    omega

theorem countdown_stays (len : BitVec 16) (hr : r < duration len) :
    0 < (len - BitVec.ofNat 16 r - 1).toInt ↔ r + 1 < duration len := by
  have hlt := len.isLt
  have hone : (1 : BitVec 16).toNat = 1 := rfl
  unfold duration at *
  split_ifs at * with h
  · obtain rfl : r = 0 := Nat.lt_one_iff.mp hr
    have hneg : ¬ 0 < (len - BitVec.ofNat 16 0 - 1).toInt := by
      rcases h with rfl | h
      · decide
      · rw [BitVec.toInt_eq_toNat_cond, BitVec.toNat_sub, BitVec.toNat_sub, BitVec.toNat_ofNat,
          hone]
        split_ifs with hhalf
        · omega
        · omega
    exact iff_of_false hneg (lt_irrefl 1)
  · have hle : len.toNat ≤ 0x8000 := not_lt.mp (not_or.mp h).2
    have hnat : (len - BitVec.ofNat 16 r - 1).toNat = len.toNat - r - 1 := by
      rw [BitVec.toNat_sub, BitVec.toNat_sub, BitVec.toNat_ofNat, hone]
      omega
    rw [BitVec.toInt_eq_toNat_of_lt (by omega), hnat]
    omega

end Time

namespace Blinker

variable {b : Blinker} {n : ℕ}

theorem started_eq (b : Blinker) : b.started = b.aged 0 := by
  have hon := duration_pos b.onLength
  rw [started, aged, Nat.zero_mod, if_pos hon]
  simp

theorem period_gt (b : Blinker) : duration b.onLength < b.period ∧ 1 < b.period := by
  have hon := duration_pos b.onLength
  have hoff := duration_pos b.offLength
  unfold period
  omega

theorem succ_mod_period (b : Blinker) (n : ℕ) :
    (n + 1) % b.period = if n % b.period + 1 = b.period then 0 else n % b.period + 1 := by
  have hpos := b.period_gt.2
  have hlt : n % b.period < b.period := Nat.mod_lt n (by omega)
  rw [Nat.add_mod_eq_ite, Nat.mod_eq_of_lt hpos]
  split_ifs with hle heq heq
  · omega
  · omega
  · omega
  · rfl

theorem aged_on (h : n % b.period < duration b.onLength) : b.aged n =
    { b with status := 1, countdown := b.onLength - BitVec.ofNat 16 (n % b.period) } := if_pos h

theorem aged_off (h : ¬ n % b.period < duration b.onLength) : b.aged n =
    { b with
      status := 0
      countdown := b.offLength - BitVec.ofNat 16 (n % b.period - duration b.onLength) } := if_neg h

theorem aged_stays (b : Blinker) (n : ℕ) : (b.aged n).Stays ↔
    if n % b.period < duration b.onLength then n % b.period + 1 < duration b.onLength
    else n % b.period + 1 < b.period := by
  have hoff := duration_pos b.offLength
  have hlt : n % b.period < b.period := Nat.mod_lt n (Nat.add_pos_right _ hoff)
  by_cases hphase : n % b.period < duration b.onLength
  · rw [aged_on hphase, if_pos hphase]
    exact countdown_stays b.onLength hphase
  · rw [aged_off hphase, if_neg hphase]
    have hr : n % b.period - duration b.onLength < duration b.offLength := by
      unfold period at *
      omega
    refine (countdown_stays b.offLength hr).trans ?_
    unfold period at *
    omega

theorem ticked_of_stays {c : Blinker} (h : c.Stays) :
    c.ticked = { c with countdown := c.countdown - 1 } := if_pos h

theorem ticked_of_on {c : Blinker} (h : ¬ c.Stays) (hon : c.status = 1) :
    c.ticked = { c with countdown := c.offLength, status := 0 } := by
  have hbit : ¬ (1 : BitVec 16) &&& 1 = 0 := by decide
  rw [ticked, if_neg h, hon, if_neg hbit]
  rfl

theorem ticked_of_off {c : Blinker} (h : ¬ c.Stays) (hoff : c.status = 0) :
    c.ticked = { c with countdown := c.onLength, status := 1 } := by
  have hbit : (0 : BitVec 16) &&& 1 = 0 := by decide
  rw [ticked, if_neg h, hoff, if_pos hbit]
  rfl

theorem sub_ofNat_succ (c : BitVec 16) (r : ℕ) :
    c - BitVec.ofNat 16 r - 1 = c - BitVec.ofNat 16 (r + 1) := by
  rw [BitVec.ofNat_add, BitVec.sub_sub]
  rfl

theorem ticked_aged (b : Blinker) (n : ℕ) : (b.aged n).ticked = b.aged (n + 1) := by
  have hstays := b.aged_stays n
  have hsucc := b.succ_mod_period n
  obtain ⟨hperiod, -⟩ := b.period_gt
  have hlt : n % b.period < b.period := Nat.mod_lt n (by omega)
  by_cases hphase : n % b.period < duration b.onLength
  · rw [if_pos hphase] at hstays
    by_cases hlast : n % b.period + 1 < duration b.onLength
    · rw [if_neg (by omega)] at hsucc
      rw [ticked_of_stays (hstays.mpr hlast), aged_on hphase, aged_on (by omega), hsucc,
        ← sub_ofNat_succ]
    · rw [if_neg (by omega)] at hsucc
      rw [ticked_of_on (mt hstays.mp hlast) (by rw [aged_on hphase]), aged_on hphase,
        aged_off (by omega), hsucc]
      have hzero : n % b.period + 1 - duration b.onLength = 0 := by omega
      rw [hzero]
      simp
  · rw [if_neg hphase] at hstays
    by_cases hlast : n % b.period + 1 < b.period
    · rw [if_neg (by omega)] at hsucc
      have hnext : n % b.period + 1 - duration b.onLength =
          n % b.period - duration b.onLength + 1 := by omega
      rw [ticked_of_stays (hstays.mpr hlast), aged_off hphase, aged_off (by omega), hsucc, hnext,
        ← sub_ofNat_succ]
    · rw [if_pos (by omega)] at hsucc
      have hon := duration_pos b.onLength
      rw [ticked_of_off (mt hstays.mp hlast) (by rw [aged_off hphase]), aged_off hphase,
        aged_on (by omega), hsucc]
      simp

theorem aged_location (b : Blinker) (n : ℕ) : (b.aged n).location = b.location := by
  unfold aged
  split_ifs <;> rfl

theorem aged_cell (b : Blinker) (n : ℕ) : (b.aged n).cell = b.cell := by
  rw [cell, aged_location, cell]

theorem draw_of_on {c : Blinker} (h : ¬ c.Stays) (hon : c.status = 1) (vmem : ℕ → UInt8) :
    c.draw vmem c.cell = c.offChar := by
  have hbit : ¬ (1 : BitVec 16) &&& 1 = 0 := by decide
  rw [draw, if_neg h, hon, if_neg hbit, Function.update_self]

theorem draw_of_off {c : Blinker} (h : ¬ c.Stays) (hoff : c.status = 0) (vmem : ℕ → UInt8) :
    c.draw vmem c.cell = c.onChar := by
  have hbit : (0 : BitVec 16) &&& 1 = 0 := by decide
  rw [draw, if_neg h, hoff, if_pos hbit, Function.update_self]

theorem draw_aged (b : Blinker) (n : ℕ) {vmem : ℕ → UInt8} (h : vmem b.cell = b.shown n) :
    (b.aged n).draw vmem b.cell = b.shown (n + 1) := by
  have hstays := b.aged_stays n
  have hsucc := b.succ_mod_period n
  obtain ⟨hperiod, -⟩ := b.period_gt
  have hlt : n % b.period < b.period := Nat.mod_lt n (by omega)
  have hkeep (hs : (b.aged n).Stays) : (b.aged n).draw vmem b.cell = b.shown n := by
    rw [draw, if_pos hs, h]
  by_cases hphase : n % b.period < duration b.onLength
  · rw [if_pos hphase] at hstays
    by_cases hlast : n % b.period + 1 < duration b.onLength
    · rw [if_neg (by omega)] at hsucc
      rw [hkeep (hstays.mpr hlast), shown, shown, hsucc, if_pos hphase, if_pos hlast]
    · rw [if_neg (by omega)] at hsucc
      rw [shown, hsucc, if_neg hlast, ← b.aged_cell n,
        draw_of_on (mt hstays.mp hlast) (by rw [aged_on hphase]), aged_on hphase]
  · rw [if_neg hphase] at hstays
    by_cases hlast : n % b.period + 1 < b.period
    · rw [if_neg (by omega)] at hsucc
      rw [hkeep (hstays.mpr hlast), shown, shown, hsucc, if_neg hphase, if_neg (by omega)]
    · rw [if_pos (by omega)] at hsucc
      rw [shown, hsucc, if_pos (duration_pos _), ← b.aged_cell n,
        draw_of_off (mt hstays.mp hlast) (by rw [aged_off hphase]), aged_off hphase]

end Blinker

/-- The call neither adds a blinker at a location, nor removes one there, nor
synchronises it. -/
def BlinkCall.Elsewhere (location : BitVec 16) : BlinkCall → Prop
  | .add b => b.location ≠ location
  | .remove arg => arg.setWidth 16 ≠ location
  | .sync arg => arg.setWidth 16 ≠ location
  | .find _ => True
  | .tasklet => True

namespace Board

variable {B : Board} {b : Blinker} {n : ℕ}

/-- The blinker `b`, added `n` ticks ago, is the only one at its location, and shows. -/
structure Runs (B : Board) (b : Blinker) (n : ℕ) : Prop where
  only : B.blinkers.filter (Blinker.isAt b.location) = [b.aged n]
  shows : B.vmem b.cell = b.shown n

theorem cell_ne {c : Blinker} (h : c.location ≠ b.location) : b.cell ≠ c.cell := by
  intro heq
  have hlt := b.location.isLt
  have hlt' := c.location.isLt
  simp only [Blinker.cell, Nat.shiftLeft_eq] at heq
  exact h (BitVec.eq_of_toNat_eq (by omega))

theorem isAt_iff {location : BitVec 16} {c : Blinker} :
    c.isAt location = true ↔ c.location = location := decide_eq_true_iff

theorem filter_eraseP {α : Type} {p q : α → Bool} (h : ∀ x, q x = true → p x = false) (l : List α) :
    (l.eraseP q).filter p = l.filter p := by
  induction l with
  | nil => rfl
  | cons x l ih =>
    cases hq : q x with
    | true => rw [List.eraseP_cons_of_pos hq, List.filter_cons_of_neg (by simp [h x hq])]
    | false => rw [List.eraseP_cons_of_neg (by simp [hq]), List.filter_cons, List.filter_cons, ih]

theorem filter_replaceF {α : Type} {p : α → Bool} {f : α → Option α}
    (h : ∀ x y, f x = some y → p x = false ∧ p y = false) (l : List α) :
    (l.replaceF f).filter p = l.filter p := by
  induction l with
  | nil => rfl
  | cons x l ih =>
    cases hf : f x with
    | some y =>
      obtain ⟨hx, hy⟩ := h x y hf
      rw [List.replaceF_cons_of_some _ hf, List.filter_cons_of_neg (by simp [hy]),
        List.filter_cons_of_neg (by simp [hx])]
    | none => rw [List.replaceF_cons_of_none _ hf, List.filter_cons, List.filter_cons, ih]

theorem draw_congr (c : Blinker) {vmem vmem' : ℕ → UInt8} {a : ℕ} (h : vmem a = vmem' a) :
    c.draw vmem a = c.draw vmem' a := by
  unfold Blinker.draw
  split_ifs
  · exact h
  · rw [Function.update_apply, Function.update_apply, h]
  · rw [Function.update_apply, Function.update_apply, h]

theorem draw_other {c : Blinker} {a : ℕ} (h : a ≠ c.cell) (vmem : ℕ → UInt8) :
    c.draw vmem a = vmem a := by
  unfold Blinker.draw
  split_ifs
  · rfl
  · exact Function.update_of_ne h _ _
  · exact Function.update_of_ne h _ _

/-- What a cell shows depends on the blinkers of its location alone. -/
theorem foldl_draw (b : Blinker) (l : List Blinker) {vmem vmem' : ℕ → UInt8}
    (h : vmem b.cell = vmem' b.cell) :
    l.foldl (fun vmem b => b.draw vmem) vmem b.cell =
      (l.filter (Blinker.isAt b.location)).foldl (fun vmem b => b.draw vmem) vmem' b.cell := by
  induction l generalizing vmem vmem' with
  | nil => exact h
  | cons c l ih =>
    by_cases hc : c.isAt b.location = true
    · rw [List.filter_cons_of_pos hc]
      exact ih (draw_congr c h)
    · rw [List.filter_cons_of_neg hc]
      exact ih ((draw_other (cell_ne (mt isAt_iff.mpr hc)) vmem).trans h)

theorem Runs.add (h : B.Runs b n) {c : Blinker} (hc : c.location ≠ b.location) :
    (B.add c).2.Runs b n := by
  rw [Board.add]
  split_ifs
  · exact h
  · refine ⟨?_, ?_⟩
    · have hnot : ¬ c.started.isAt b.location = true := mt isAt_iff.mp hc
      rw [List.filter_cons_of_neg hnot]
      exact h.only
    · exact (Function.update_of_ne (cell_ne hc) _ _).trans h.shows

theorem Runs.remove (h : B.Runs b n) {location : BitVec 16} (hc : location ≠ b.location) :
    (B.remove location).2.Runs b n := by
  rw [Board.remove]
  cases B.blinkers.find? (Blinker.isAt location) with
  | none => exact h
  | some c =>
    refine ⟨(filter_eraseP (fun x hx => ?_) _).trans h.only, h.shows⟩
    rw [isAt_iff] at hx
    exact decide_eq_false (hx ▸ hc)

theorem Runs.sync (h : B.Runs b n) {src dst : BitVec 16} (hc : dst ≠ b.location) :
    (B.sync src dst).2.Runs b n := by
  rw [Board.sync]
  cases B.blinkers.find? (Blinker.isAt src) with
  | none => exact h
  | some d =>
    cases hdst : B.blinkers.find? (Blinker.isAt dst) with
    | none => exact h
    | some c =>
      have hat : c.location = dst := isAt_iff.mp (List.find?_some hdst)
      refine ⟨(filter_replaceF (fun x y hxy => ?_) _).trans h.only,
        (Function.update_of_ne (cell_ne (hat ▸ hc)) _ _).trans h.shows⟩
      split_ifs at hxy with hx
      obtain rfl := Option.some.inj hxy
      have hne : x.location ≠ b.location := isAt_iff.mp hx ▸ hc
      exact ⟨decide_eq_false hne, decide_eq_false hne⟩

theorem Runs.tick (h : B.Runs b n) : B.tick.Runs b (n + 1) := by
  refine ⟨?_, ?_⟩
  · have hsame : (Blinker.isAt b.location) ∘ Blinker.ticked = Blinker.isAt b.location :=
      funext fun c => congrArg (fun x : BitVec 16 => decide (x = b.location))
        (Blinker.ticked_location c)
    change (B.blinkers.map Blinker.ticked).filter _ = _
    rw [List.filter_map, hsame, h.only, List.map_singleton, b.ticked_aged]
  · change B.blinkers.foldl _ B.vmem b.cell = _
    rw [foldl_draw b B.blinkers rfl, h.only]
    exact b.draw_aged n h.shows

theorem Runs.calls (h : B.Runs b n) {cs : List BlinkCall}
    (hcs : ∀ c ∈ cs, c.Elsewhere b.location) :
    (B.calls cs).2.Runs b (n + cs.count .tasklet) := by
  induction cs generalizing B n with
  | nil => exact h
  | cons c cs ih =>
    have hc := hcs c List.mem_cons_self
    have hrest {m : ℕ} (hcall : (B.call c).2.Runs b m) :
        (B.calls (c :: cs)).2.Runs b (m + cs.count .tasklet) :=
      ih hcall fun d hd => hcs d (List.mem_cons_of_mem c hd)
    cases c with
    | add d => exact hrest (h.add hc)
    | remove arg => exact hrest (h.remove hc)
    | find location => exact hrest h
    | sync arg => exact hrest (h.sync hc)
    | tasklet =>
      rw [List.count_cons_self, Nat.add_comm (cs.count _), ← Nat.add_assoc]
      exact hrest h.tick

theorem runs_added (hnew : ∀ c ∈ B.blinkers, c.location ≠ b.location)
    (hin : b.location.toNat < BLINK_CELLS) (hroom : B.blinkers.length < BLINK_CELLS) :
    (B.add b).2.Runs b 0 := by
  have hnone : B.blinkers.filter (Blinker.isAt b.location) = [] :=
    List.filter_eq_nil_iff.mpr fun c hc hat => hnew c hc (isAt_iff.mp hat)
  have hat : b.started.isAt b.location = true := isAt_iff.mpr rfl
  rw [Board.add_eq hin hroom]
  refine ⟨?_, ?_⟩
  · rw [List.filter_cons_of_pos hat, hnone, b.started_eq]
  · rw [Blinker.shown, Nat.zero_mod, if_pos (duration_pos _)]
    exact Function.update_self _ _ _

end Board

/-- Once a blinker has been added at a location that has none, its cell of the screen
shows the two characters in turn, each for its length in ticks, whatever is added,
removed, looked up and synchronised at other locations meanwhile. -/
theorem blinker_keeps_time (s : Fish) (l : List ℕ) (B : Board) (h : s.Represents l B)
    (b : Blinker) (hzero : b.location ≠ 0) (hin : b.location.toNat < BLINK_CELLS)
    (hroom : l.length < BLINK_CELLS) (hnew : ∀ c ∈ B.blinkers, c.location ≠ b.location)
    (cs : List BlinkCall) (hcs : ∀ c ∈ cs, c.Located ∧ c.Elsewhere b.location) (fuel : ℕ)
    (hfuel : BLINK_CELLS < fuel) :
    ∃ rs s', s.calls fuel (.add b :: cs) = some (rs, s') ∧
      s'.vmem b.cell = b.shown (cs.count .tasklet) := by
  have hlocated : ∀ c ∈ BlinkCall.add b :: cs, c.Located := by
    intro c hc
    rcases List.mem_cons.mp hc with rfl | hc
    · exact hzero
    · exact (hcs c hc).1
  obtain ⟨s', l', hcalls, hl'⟩ := h.calls hfuel hlocated
  have hruns := (Board.runs_added hnew hin (h.length_eq.trans_lt hroom)).calls
    fun c hc => (hcs c hc).2
  refine ⟨_, s', hcalls, ?_⟩
  rw [hl'.vmem, ← Nat.zero_add (cs.count _)]
  exact hruns.shows

/-- One phase of seven ticks and three of the next. -/
theorem blinker_keeps_time_ten : ∃ rs s',
    clearedFish.calls 2001 (.add ⟨540, 73, 77, 7, 6, 0, 0⟩ :: List.replicate 10 .tasklet) =
      some (rs, s') ∧ s'.vmem 1080 = 77 := by
  have hcs : ∀ c ∈ List.replicate 10 BlinkCall.tasklet, c.Located ∧ c.Elsewhere 540 := by
    intro c hc
    rw [List.eq_of_mem_replicate hc]
    exact ⟨trivial, trivial⟩
  exact blinker_keeps_time clearedFish [] _ (Fish.Cleared.represents ⟨fun _ _ => rfl, rfl⟩)
    ⟨540, 73, 77, 7, 6, 0, 0⟩ (by decide) (by decide) (by decide)
    (fun c hc => absurd hc List.not_mem_nil) _ hcs 2001 (by decide)

end SnoopDos
