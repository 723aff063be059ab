import SnoopDos.Proofs.Blinkers
import SnoopDos.Proofs.FilePrograms
import SnoopDos.Spec.Frames

/-! `add_frames` lays two text files over each other: a blinker for every cell that one
of them fills, row by row, whatever the lengths of the lines and of the files. -/

namespace SnoopDos

open Kernel UserMem Command FishProcess

section SideBySide

variable {α β : Type}

/-- What `f` makes of two lists side by side, the shorter one filled up with blanks. The
positions count from `start`. -/
def sideBySide (f : ℕ → α → α → List β) (blank : α) (start : ℕ) (l m : List α) : List β :=
  (List.range (max l.length m.length)).flatMap fun j =>
    f (start + j) (l.getD j blank) (m.getD j blank)

theorem getD_tail (l : List α) (j : ℕ) (blank : α) :
    l.tail.getD j blank = l.getD (j + 1) blank := by
  cases l with
  | nil => rfl
  | cons a l => rfl

theorem sideBySide_step (f : ℕ → α → α → List β) (blank : α) (start : ℕ) {l m : List α}
    (h : l ≠ [] ∨ m ≠ []) : sideBySide f blank start l m =
      f start (l.headD blank) (m.headD blank) ++ sideBySide f blank (start + 1) l.tail m.tail := by
  have hlength : max l.length m.length = max l.tail.length m.tail.length + 1 := by
    have hpos : 0 < max l.length m.length := by
      rcases h with hl | hm
      · exact lt_max_of_lt_left (List.length_pos_iff.mpr hl)
      · exact lt_max_of_lt_right (List.length_pos_iff.mpr hm)
    rw [List.length_tail, List.length_tail]
    omega
  have hhead (l : List α) : l.getD 0 blank = l.headD blank := by
    cases l with
    | nil => rfl
    | cons a l => rfl
  rw [sideBySide, hlength, List.range_succ_eq_map, List.flatMap_cons, List.flatMap_map, sideBySide,
    Nat.add_zero, hhead, hhead]
  congr 2
  funext j
  rw [getD_tail, getD_tail, Nat.succ_eq_add_one, show start + (j + 1) = start + 1 + j by omega]

end SideBySide

/-- The call for a cell with these characters in the two frames. -/
def cellCalls (b : Blinker) (row col : ℕ) (on off : UInt8) : List BlinkCall :=
  if on ≠ SPACE ∨ off ≠ SPACE then
    [.add { b with location := BitVec.ofNat 16 (row * 80 + col + 40), onChar := on, offChar := off }]
  else []

def rowCalls (b : Blinker) (row col : ℕ) (l m : List UInt8) : List BlinkCall :=
  sideBySide (cellCalls b row) SPACE col l m

/-- The calls for two frames, given by their lines. -/
def frameCalls (b : Blinker) (row : ℕ) (l m : List (List UInt8)) : List BlinkCall :=
  sideBySide (fun row => rowCalls b row 0) [] row l m

/-- How far one of the files has been read: its `c` and its `eof`, what is left, and whether
its descriptor has been closed. -/
structure Cursor where
  char : UInt8
  rest : List UInt8
  eof : Bool
  shut : Bool

namespace Cursor

variable (c : Cursor)

def read : Cursor :=
  if c.char = NEW_LINE then c
  else
    match c.rest with
    | [] => ⟨NEW_LINE, [], true, c.shut⟩
    | x :: rest => ⟨x, rest, c.eof, c.shut⟩

/-- After a row, at the start of the next. -/
def next : Cursor := { c with char := if c.eof then NEW_LINE else DIGIT_ZERO, shut := c.eof }

def line : List UInt8 := if c.char = NEW_LINE then [] else c.rest.takeWhile (· ≠ NEW_LINE)

/-- When all of the line has been read. -/
def lineEnd : Cursor :=
  if c.char = NEW_LINE then c
  else
    match c.rest.dropWhile (· ≠ NEW_LINE) with
    | [] => ⟨NEW_LINE, [], true, c.shut⟩
    | _ :: rest => ⟨NEW_LINE, rest, c.eof, c.shut⟩

/-- What is left of the file at the start of a row. -/
def lines : List (List UInt8) := if c.eof then [] else c.rest.splitOn NEW_LINE

variable {c}

theorem line_read : c.line = if c.read.char = NEW_LINE then [] else c.read.char :: c.read.line := by
  unfold read line
  by_cases hc : c.char = NEW_LINE
  · rw [if_pos hc, if_pos hc, if_pos hc]
  · rw [if_neg hc, if_neg hc]
    cases c.rest with
    | nil => rfl
    | cons x rest =>
      dsimp only
      by_cases hx : x = NEW_LINE
      · rw [if_pos hx, List.takeWhile_cons_of_neg (by simpa using hx)]
      · rw [if_neg hx, if_neg hx, List.takeWhile_cons_of_pos (by simpa using hx)]

theorem lineEnd_read : c.read.lineEnd = c.lineEnd := by
  unfold read lineEnd
  by_cases hc : c.char = NEW_LINE
  · rw [if_pos hc, if_pos hc]
  · rw [if_neg hc, if_neg hc]
    cases c.rest with
    | nil => rfl
    | cons x rest =>
      dsimp only
      by_cases hx : x = NEW_LINE
      · rw [if_pos hx, List.dropWhile_cons_of_neg (by simpa using hx), hx]
      · rw [if_neg hx, List.dropWhile_cons_of_pos (by simpa using hx)]

theorem lineEnd_of_newLine (h : c.char = NEW_LINE) : c.lineEnd = c := if_pos h

theorem read_lt (h : c.read.char ≠ NEW_LINE) : c.read.rest.length < c.rest.length := by
  unfold read at h ⊢
  by_cases hc : c.char = NEW_LINE
  · rw [if_pos hc] at h
    exact absurd hc h
  · rw [if_neg hc] at h ⊢
    cases hrest : c.rest with
    | nil =>
      rw [hrest] at h
      exact absurd rfl h
    | cons x rest => exact Nat.lt_succ_self _

theorem read_le : c.read.rest.length ≤ c.rest.length := by
  by_cases h : c.read.char = NEW_LINE
  · unfold read at h ⊢
    split_ifs
    · exact le_rfl
    · cases c.rest with
      | nil => exact le_rfl
      | cons x rest => exact Nat.le_succ _
  · exact (read_lt h).le

/-- A file at the start of a row. -/
structure AtRow (c : Cursor) : Prop where
  newLine : c.char = NEW_LINE ↔ c.eof = true
  shut : c.shut = c.eof

theorem atRow_next (c : Cursor) : c.next.AtRow := by
  refine ⟨?_, rfl⟩
  unfold next
  cases c.eof with
  | false => exact iff_of_false (show DIGIT_ZERO ≠ NEW_LINE by decide) Bool.false_ne_true
  | true => exact iff_of_true rfl rfl

theorem AtRow.lines (h : c.AtRow) : c.line = c.lines.headD [] ∧ c.lineEnd.next.lines = c.lines.tail := by
  unfold Cursor.lines line lineEnd
  cases heof : c.eof with
  | true =>
    have hc : c.char = NEW_LINE := h.newLine.mpr heof
    rw [if_pos hc, if_pos hc, if_pos rfl]
    exact ⟨rfl, if_pos heof⟩
  | false =>
    have hc : c.char ≠ NEW_LINE := fun hc => by
      rw [h.newLine.mp hc] at heof
      cases heof
    have hsplit : c.rest = c.rest.takeWhile (· ≠ NEW_LINE) ++ c.rest.dropWhile (· ≠ NEW_LINE) :=
      List.takeWhile_append_dropWhile.symm
    have hline : NEW_LINE ∉ c.rest.takeWhile (· ≠ NEW_LINE) := fun hmem => by
      simpa using List.mem_takeWhile_imp hmem
    rw [if_neg hc, if_neg hc, if_neg Bool.false_ne_true]
    cases hdrop : c.rest.dropWhile (· ≠ NEW_LINE) with
    | nil =>
      rw [hdrop, List.append_nil] at hsplit
      rw [← hsplit] at hline ⊢
      rw [List.splitOn_eq_singleton hline]
      exact ⟨rfl, rfl⟩
    | cons x rest =>
      have hx : x = NEW_LINE := by
        have hhead := List.head?_dropWhile_not (· ≠ NEW_LINE) c.rest
        rw [hdrop] at hhead
        simpa using hhead
      subst hx
      rw [hdrop] at hsplit
      have hsplitOn : c.rest.splitOn NEW_LINE =
          c.rest.takeWhile (· ≠ NEW_LINE) :: rest.splitOn NEW_LINE := by
        conv_lhs => rw [hsplit]
        exact List.splitOn_append_cons_self_of_not_mem hline rest
      rw [hsplitOn]
      refine ⟨rfl, ?_⟩
      exact if_neg Bool.false_ne_true

theorem lineEnd_le : c.lineEnd.rest.length ≤ c.rest.length := by
  unfold lineEnd
  have hle := (List.dropWhile_sublist (· ≠ NEW_LINE) (l := c.rest)).length_le
  split_ifs
  · exact le_rfl
  · cases hdrop : c.rest.dropWhile (· ≠ NEW_LINE) with
    | nil => exact Nat.zero_le _
    | cons x rest =>
      rw [hdrop] at hle
      exact (Nat.le_succ _).trans hle

theorem length_splitOn_le (l : List UInt8) : (l.splitOn NEW_LINE).length ≤ l.length + 1 := by
  induction l with
  | nil => exact le_rfl
  | cons x l ih =>
    rw [List.splitOn_cons_eq_if_modifyHead]
    split_ifs
    · rw [List.length_cons, List.length_cons]
      omega
    · rw [List.length_modifyHead, List.length_cons]
      omega

theorem length_lines_le (c : Cursor) : c.lines.length ≤ c.rest.length + 1 := by
  unfold lines
  split_ifs
  · exact Nat.zero_le _
  · exact length_splitOn_le c.rest

theorem lines_eq_nil : c.lines = [] ↔ c.eof = true := by
  unfold Cursor.lines
  cases c.eof with
  | true => exact iff_of_true (if_pos rfl) rfl
  | false =>
    rw [if_neg Bool.false_ne_true]
    exact iff_of_false (List.splitOn_ne_nil _ _) Bool.false_ne_true

end Cursor

section Files

variable {w : World} {inode fd : ℕ} {a : Addr} {p p' p'' : Process} {c : Cursor}

/-- The process has read a file, on descriptor `fd` and into its variable at `a`, as far as
`c` says. -/
structure Process.HasRead (w : World) (inode fd : ℕ) (a : Addr) (p : Process) (c : Cursor) :
    Prop where
  char : p.user.bytes a = c.char
  ended : c.eof = true → c.char = NEW_LINE
  file : c.eof = false → OpenAs p.kernel.fds fd .regularFile ∧
    (getInodeNum w.fs (p.kernel.fds fd).inode).toNat = inode ∧
    ∃ before, w.fs.contents inode = before ++ c.rest ∧
      (p.kernel.fds fd).position = BitVec.ofNat 32 before.length
  shut : c.shut = true → (p.kernel.fds fd).flags = 0#32
  «open» : c.shut = false → OpenAs p.kernel.fds fd .regularFile

/-- Nothing but descriptor `fd` and the byte at `a` has changed. -/
structure Process.Only (fd : ℕ) (a : Addr) (p p' : Process) : Prop where
  shown : p'.shown = p.shown
  fds : ∀ j ≠ fd, p'.kernel.fds j = p.kernel.fds j
  bytes : ∀ b ≠ a, p'.user.bytes b = p.user.bytes b

theorem Process.Only.trans (h : p.Only fd a p') (h' : p'.Only fd a p'') : p.Only fd a p'' :=
  ⟨h'.shown.trans h.shown, fun j hj => (h'.fds j hj).trans (h.fds j hj),
    fun b hb => (h'.bytes b hb).trans (h.bytes b hb)⟩

theorem Process.HasRead.other {fd' : ℕ} {a' : Addr} (h : p.HasRead w inode fd a c)
    (honly : p.Only fd' a' p') (hfd : fd ≠ fd') (ha : a ≠ a') : p'.HasRead w inode fd a c := by
  have hfds := honly.fds fd hfd
  refine ⟨(honly.bytes a ha).trans h.char, h.ended, fun heof => ?_, fun hshut => ?_,
    fun hshut => (h.open hshut).congr hfds⟩
  · obtain ⟨hopen, hinode, hposition⟩ := h.file heof
    rw [hfds]
    exact ⟨hopen.congr hfds, hinode, hposition⟩
  · rw [hfds]
    exact h.shut hshut

theorem Process.only_of_goes {fds : ℕ → FileInfo} {bytes : Addr → UInt8}
    (h : p.Goes [] fds bytes p') (hfds : ∀ j ≠ fd, fds j = p.kernel.fds j)
    (hbytes : ∀ b ≠ a, bytes b = p.user.bytes b) : p.Only fd a p' := by
  refine ⟨by rw [h.shown, List.append_nil], fun j hj => ?_, fun b hb => ?_⟩
  · rw [h.fds]
    exact hfds j hj
  · rw [h.bytes]
    exact hbytes b hb

theorem store_returns (fd : ℕ) (a : Addr) (v : UInt8) (p : Process) :
    Returns (inMemory (store a v)) p fun _ p' => p.Only fd a p' ∧ p'.user.bytes a = v ∧
      p'.kernel.fds = p.kernel.fds := by
  refine (returns_inMemory (store a v) p).mono fun _ p' h => ⟨?_, ?_, h.2.fds⟩
  · exact Process.only_of_goes h.2 (fun _ _ => rfl) fun b hb => Function.update_of_ne hb _ _
  · rw [h.2.bytes]
    exact Function.update_self _ _ _

theorem withPosition_ne (fds : ℕ → FileInfo) (pos : Word) {j : ℕ} (hj : j ≠ fd) :
    withPosition fds fd pos j = fds j := Function.update_of_ne hj _ _

theorem World.frameRead_returns (hw : w.SparesFds) (hvalid : w.fs.ValidFile inode) (ha : Spans a 1)
    (h : p.HasRead w inode fd a c) : Returns (w.frameRead (BitVec.ofNat 32 fd) a c.eof) p
      fun eof p' => eof = c.read.eof ∧ p'.HasRead w inode fd a c.read ∧ p.Only fd a p' := by
  unfold World.frameRead
  refine (returns_inMemory (load a) p).bind fun x p₁ h₁ => ?_
  obtain ⟨hx, hgo₁⟩ := h₁
  have hbytes₁ : p₁.user.bytes = p.user.bytes := hgo₁.bytes
  have honly₁ : p.Only fd a p₁ := Process.only_of_goes hgo₁ (fun _ _ => rfl) fun _ _ => rfl
  have hread₁ : p₁.HasRead w inode fd a c :=
    ⟨by rw [hbytes₁]; exact h.char, h.ended, by rw [hgo₁.fds]; exact h.file,
      by rw [hgo₁.fds]; exact h.shut, by rw [hgo₁.fds]; exact h.open⟩
  have hchar : x = c.char := hx.trans h.char
  rw [hchar]
  by_cases hline : c.char = NEW_LINE
  · have hsame : c.read = c := if_pos hline
    rw [if_neg (not_not.mpr hline), hsame]
    exact returns_pure ⟨rfl, hread₁, honly₁⟩
  rw [if_pos hline]
  have heof : c.eof = false := Bool.eq_false_iff.mpr fun heof => hline (h.ended heof)
  obtain ⟨hopen, hinode, before, hcontents, hposition⟩ := hread₁.file heof
  have hnat : (BitVec.ofNat 32 fd).toNat = fd := (ofNat_toNat_of_lt hopen.lt).1
  have hlength := congrArg List.length hcontents
  rw [List.length_append] at hlength
  have hsmall : (w.fs.contents inode).length ≤ 1023 * 4096 :=
    hvalid.contents_length.le.trans hvalid.length_le
  have hpos : (BitVec.ofNat 32 before.length).toNat = before.length := by
    rw [BitVec.toNat_ofNat]
    omega
  have hfile := World.read_file_returns hw (p := p₁) (BitVec.ofNat 32 fd) (by rwa [hnat])
    (ha.inWindow (by decide)) 1#32 (by rw [hnat, hinode]; exact hvalid)
  simp only [hnat, hinode, hposition, hcontents, hpos, List.drop_left, List.length_append,
    Nat.add_sub_cancel_left] at hfile
  refine hfile.bind fun ret p₂ h₂ => ?_
  obtain ⟨hret, hbytes, bytes, hchanged, hgo₂⟩ := h₂
  have honly₂ : p.Only fd a p₂ := honly₁.trans (Process.only_of_goes hgo₂
    (fun j hj => withPosition_ne _ _ hj) fun b hb => hchanged b fun i hi => by
      obtain rfl : i = 0 := Nat.lt_one_iff.mp hi
      rwa [show a + BitVec.ofNat 32 0 = a from BitVec.add_zero a])
  have hopen₂ : OpenAs p₂.kernel.fds fd .regularFile := by
    rw [hgo₂.fds]
    exact hopen.withPosition _ _
  have hshut₂ (hshut : c.shut = true) : (p₂.kernel.fds fd).flags = 0#32 := by
    rw [hgo₂.fds, withPosition, Function.update_self]
    exact hread₁.shut hshut
  unfold Cursor.read
  rw [if_neg hline]
  cases hrest : c.rest with
  | nil =>
    rw [hrest] at hret
    rw [if_pos (show ret = 0#32 from hret)]
    refine (store_returns fd a NEW_LINE p₂).bind fun _ p₃ h₃ => ?_
    obtain ⟨honly₃, hchar₃, hfds₃⟩ := h₃
    refine returns_pure ⟨rfl, ⟨hchar₃, fun _ => rfl, fun hf => absurd hf Bool.noConfusion, ?_, ?_⟩,
      honly₂.trans honly₃⟩
    · rw [hfds₃]
      exact hshut₂
    · rw [hfds₃]
      exact fun _ => hopen₂
  | cons y rest =>
    have hone : ret = 1#32 := by
      rw [hret, hrest, List.length_cons, show (1#32 : Word).toNat = 1 from rfl,
        Nat.min_eq_left (by omega)]
    rw [hone, if_neg (by decide)]
    have hy : p₂.user.bytes a = y := by
      rw [hone, hrest] at hbytes
      have hget := congrArg (List.getD · 0 NULL_CHAR) hbytes
      rw [returned_getD (by decide), charAt,
        show a + BitVec.ofNat 32 0 = a from BitVec.add_zero a] at hget
      exact hget
    refine returns_pure ⟨rfl, ⟨hy, fun ht => ?_, fun _ => ⟨hopen₂, ?_, before ++ [y], ?_, ?_⟩,
      hshut₂, fun _ => hopen₂⟩, honly₂⟩
    · rw [heof] at ht
      cases ht
    · rw [hgo₂.fds, withPosition, Function.update_self]
      exact hinode
    · rw [hcontents, hrest, List.append_assoc, List.singleton_append]
    · rw [hgo₂.fds, withPosition, Function.update_self, hone, List.length_append,
        List.length_singleton, BitVec.ofNat_add]

/-- A `close` of a descriptor that is open, or that has been closed before. -/
theorem World.close_again (hw : w.SparesFds) (hlo : MIN_FD_PER_PROCESS ≤ fd)
    (hhi : fd < MAX_FD_PER_PROCESS)
    (h : OpenAs p.kernel.fds fd .regularFile ∨ (p.kernel.fds fd).flags = 0#32) (a : Addr) :
    Returns (w.ece391Close (BitVec.ofNat 32 fd)) p fun _ p' => p.Only fd a p' ∧
      p'.user.bytes = p.user.bytes ∧ (p'.kernel.fds fd).flags = 0#32 := by
  have hfds := hw.entered_fds (p := p)
  have hnat : (BitVec.ofNat 32 fd).toNat = fd := (ofNat_toNat_of_lt hhi).1
  have hrange : ¬ ((BitVec.ofNat 32 fd).toInt < MIN_FD_PER_PROCESS ∨
      MAX_FD_PER_PROCESS ≤ (BitVec.ofNat 32 fd).toInt) := by
    simp only [MIN_FD_PER_PROCESS, MAX_FD_PER_PROCESS] at hlo hhi ⊢
    rw [BitVec.toInt_eq_toNat_of_lt (by omega), hnat]
    omega
  have hentered : (w.entered p).currentPcb.fdArray = p.kernel.fds := hfds
  by_cases hflags : (p.kernel.fds fd).flags = 0#32
  · have hclose : (w.entered p).close (BitVec.ofNat 32 fd) = some (FAILURE, w.entered p) := by
      rw [Kernel.close, if_neg hrange, hnat, hentered]
      exact if_pos hflags
    have hgoes := hw.goes_same (p := p) p.user
    refine ⟨FAILURE, _, by rw [World.ece391Close, Process.resume, hclose]; rfl,
      Process.only_of_goes hgoes (fun _ _ => rfl) fun _ _ => rfl, hgoes.bytes, ?_⟩
    rw [hgoes.fds]
    exact hflags
  · have hclose : (w.entered p).close (BitVec.ofNat 32 fd) =
        some (0#32, (w.entered p).setFd fd fun f => { f with flags := 0#32 }) := by
      have htable := (h.resolve_right hflags).table
      rw [Kernel.close, if_neg hrange, hnat, hentered]
      simp only [if_neg hflags, htable]
    have hgoes := hw.goes (p := p) (setFd_withFds (k := w.entered p) fd
      fun f => { f with flags := 0#32 }) p.user
    rw [hfds] at hgoes
    refine ⟨0#32, _, by rw [World.ece391Close, Process.resume, hclose]; rfl,
      Process.only_of_goes hgoes (fun j hj => Function.update_of_ne hj _ _) fun _ _ => rfl,
      hgoes.bytes, ?_⟩
    rw [hgoes.fds, Function.update_self]

theorem World.frameRowEnd_returns (hw : w.SparesFds) (hlo : MIN_FD_PER_PROCESS ≤ fd)
    (hhi : fd < MAX_FD_PER_PROCESS) (h : p.HasRead w inode fd a c) :
    Returns (w.frameRowEnd (BitVec.ofNat 32 fd) a c.eof) p fun _ p' =>
      p'.HasRead w inode fd a c.next ∧ p.Only fd a p' := by
  unfold World.frameRowEnd Cursor.next
  cases heof : c.eof with
  | true =>
    rw [if_pos rfl]
    refine (store_returns fd a NEW_LINE p).bind fun _ p₁ h₁ => ?_
    obtain ⟨honly₁, hchar₁, hfds₁⟩ := h₁
    have hagain : OpenAs p₁.kernel.fds fd .regularFile ∨ (p₁.kernel.fds fd).flags = 0#32 := by
      rw [hfds₁]
      cases hshut : c.shut with
      | false => exact Or.inl (h.open hshut)
      | true => exact Or.inr (h.shut hshut)
    refine (World.close_again hw hlo hhi hagain a).bind fun _ p₂ h₂ => ?_
    obtain ⟨honly₂, hbytes₂, hflags₂⟩ := h₂
    exact returns_pure ⟨⟨by rw [hbytes₂]; exact hchar₁, fun _ => rfl,
      fun hf => absurd hf Bool.noConfusion, fun _ => hflags₂,
      fun hf => absurd hf Bool.noConfusion⟩, honly₁.trans honly₂⟩
  | false =>
    rw [if_neg Bool.false_ne_true]
    refine (store_returns fd a DIGIT_ZERO p).mono fun _ p₁ h₁ => ?_
    obtain ⟨honly₁, hchar₁, hfds₁⟩ := h₁
    refine ⟨⟨hchar₁, fun ht => absurd ht Bool.noConfusion, fun _ => ?_,
      fun ht => absurd ht Bool.noConfusion, fun _ => ?_⟩, honly₁⟩
    · rw [hfds₁]
      exact h.file heof
    · rw [hfds₁]
      exact (h.file heof).1

end Files

section Calls

variable {s s' : FishProcess} {fuel : ℕ}

theorem returns_apart {α : Type} {c : Command Process α} {Q : α → Process → Prop}
    (h : Returns c s.process Q) :
    Returns (apart c) s fun a s' => Q a s'.process ∧ s'.fish = s.fish := by
  obtain ⟨a, p', hrun, hq⟩ := h
  refine ⟨a, { s with process := p' }, ?_, hq, rfl⟩
  rw [apart, hrun]
  rfl

/-- These calls have been made of the blinkers. -/
def Fish.Makes (fuel : ℕ) (s : Fish) (cs : List BlinkCall) (s' : Fish) : Prop :=
  ∃ replies, s.calls fuel cs = some (replies, s')

theorem Fish.makes_nil (fuel : ℕ) (s : Fish) : s.Makes fuel [] s := ⟨[], rfl⟩

theorem Fish.Makes.trans {s s' s'' : Fish} {cs cs' : List BlinkCall} (h : s.Makes fuel cs s')
    (h' : s'.Makes fuel cs' s'') : s.Makes fuel (cs ++ cs') s'' := by
  obtain ⟨replies, hrun⟩ := h
  obtain ⟨replies', hrun'⟩ := h'
  exact ⟨replies ++ replies', Fish.calls_append hrun hrun'⟩

/-- The character that stands for the end of a line in a cell. -/
def cellChar (char : UInt8) : UInt8 := if char = NEW_LINE then SPACE else char

theorem cellChar_ne (char : UInt8) : cellChar char ≠ SPACE ↔ char ≠ SPACE ∧ char ≠ NEW_LINE := by
  unfold cellChar
  split_ifs with h
  · exact iff_of_false (not_not.mpr rfl) fun hc => hc.2 h
  · exact (and_iff_left h).symm

theorem frameCell_returns (b : Blinker) (row col : ℕ) (char0 char1 : UInt8) :
    Returns (World.frameCell fuel b row col char0 char1) s fun _ s' => s'.process = s.process ∧
      s.fish.Makes fuel (cellCalls b row col (cellChar char0) (cellChar char1)) s'.fish := by
  unfold World.frameCell cellCalls
  by_cases hfilled : cellChar char0 ≠ SPACE ∨ cellChar char1 ≠ SPACE
  · rw [if_pos (hfilled.imp (cellChar_ne _).mp (cellChar_ne _).mp), if_pos hfilled]
    exact ⟨(), _, rfl, rfl, _, rfl⟩
  · have hblank : ¬ (char0 ≠ SPACE ∧ char0 ≠ NEW_LINE ∨ char1 ≠ SPACE ∧ char1 ≠ NEW_LINE) :=
      fun h => hfilled (h.imp (cellChar_ne _).mpr (cellChar_ne _).mpr)
    rw [if_neg hblank, if_neg hfilled]
    exact returns_pure ⟨rfl, Fish.makes_nil fuel _⟩

end Calls

/-- Two files that are being read, and the variables of `add_frames` for them. -/
structure FramePair (w : World) where
  inode0 : ℕ
  inode1 : ℕ
  fd0 : ℕ
  fd1 : ℕ
  c0 : Addr
  c1 : Addr
  valid0 : w.fs.ValidFile inode0
  valid1 : w.fs.ValidFile inode1
  lo0 : MIN_FD_PER_PROCESS ≤ fd0
  lo1 : MIN_FD_PER_PROCESS ≤ fd1
  hi0 : fd0 < MAX_FD_PER_PROCESS
  hi1 : fd1 < MAX_FD_PER_PROCESS
  fd_ne : fd0 ≠ fd1
  spans0 : Spans c0 1
  spans1 : Spans c1 1
  c_ne : c0 ≠ c1

namespace FramePair

variable {w : World} (F : FramePair w)

/-- The files have been read as far as these cursors say. -/
structure At (s : FishProcess) (k0 k1 : Cursor) : Prop where
  file0 : s.process.HasRead w F.inode0 F.fd0 F.c0 k0
  file1 : s.process.HasRead w F.inode1 F.fd1 F.c1 k1

/-- Nothing but the descriptors and the variables of the files, and the blinkers, has
changed. -/
structure KeepsRest (p p' : Process) : Prop where
  shown : p'.shown = p.shown
  fds : ∀ j, j ≠ F.fd0 → j ≠ F.fd1 → p'.kernel.fds j = p.kernel.fds j
  bytes : ∀ b, b ≠ F.c0 → b ≠ F.c1 → p'.user.bytes b = p.user.bytes b

variable {F} {s s' s'' : FishProcess} {p p' p'' : Process} {k0 k1 : Cursor} {fuel : ℕ} {b : Blinker}

theorem KeepsRest.trans (h : F.KeepsRest p p') (h' : F.KeepsRest p' p'') : F.KeepsRest p p'' :=
  ⟨h'.shown.trans h.shown, fun j h0 h1 => (h'.fds j h0 h1).trans (h.fds j h0 h1),
    fun b h0 h1 => (h'.bytes b h0 h1).trans (h.bytes b h0 h1)⟩

theorem KeepsRest.refl (p : Process) : F.KeepsRest p p := ⟨rfl, fun _ _ _ => rfl, fun _ _ _ => rfl⟩

theorem keeps_of_only0 (h : p.Only F.fd0 F.c0 p') : F.KeepsRest p p' :=
  ⟨h.shown, fun j h0 _ => h.fds j h0, fun b h0 _ => h.bytes b h0⟩

theorem keeps_of_only1 (h : p.Only F.fd1 F.c1 p') : F.KeepsRest p p' :=
  ⟨h.shown, fun j _ h1 => h.fds j h1, fun b _ h1 => h.bytes b h1⟩

theorem returns_both {β γ : Type} {x0 x1 : Command Process β} {f : β → β → Command FishProcess γ}
    (Q0 Q1 : β → Prop) {k0' k1' : Cursor} {R : γ → FishProcess → Prop} (h : F.At s k0 k1)
    (h0 : ∀ p, p.HasRead w F.inode0 F.fd0 F.c0 k0 → Returns x0 p fun r p' =>
      Q0 r ∧ p'.HasRead w F.inode0 F.fd0 F.c0 k0' ∧ p.Only F.fd0 F.c0 p')
    (h1 : ∀ p, p.HasRead w F.inode1 F.fd1 F.c1 k1 → Returns x1 p fun r p' =>
      Q1 r ∧ p'.HasRead w F.inode1 F.fd1 F.c1 k1' ∧ p.Only F.fd1 F.c1 p')
    (hrest : ∀ r0 r1 s', Q0 r0 → Q1 r1 → F.At s' k0' k1' → F.KeepsRest s.process s'.process →
      s'.fish = s.fish → Returns (f r0 r1) s' R) :
    Returns (apart x0 >>= fun r0 => apart x1 >>= fun r1 => f r0 r1) s R := by
  refine (returns_apart (h0 s.process h.file0)).bind fun r0 s₁ h₁ => ?_
  obtain ⟨⟨hq0, hread0, honly0⟩, hfish₁⟩ := h₁
  have hother := h.file1.other honly0 F.fd_ne.symm F.c_ne.symm
  refine (returns_apart (h1 s₁.process hother)).bind fun r1 s₂ h₂ => ?_
  obtain ⟨⟨hq1, hread1, honly1⟩, hfish₂⟩ := h₂
  exact hrest r0 r1 s₂ hq0 hq1 ⟨hread0.other honly1 F.fd_ne F.c_ne, hread1⟩
    ((keeps_of_only0 honly0).trans (keeps_of_only1 honly1)) (hfish₂.trans hfish₁)

theorem load_returns {inode fd : ℕ} {a : Addr} {c : Cursor} (p : Process)
    (h : p.HasRead w inode fd a c) : Returns (inMemory (load a)) p fun char p' =>
      char = c.char ∧ p'.HasRead w inode fd a c ∧ p.Only fd a p' :=
  ⟨_, _, rfl, h.char, ⟨h.char, h.ended, h.file, h.shut, h.open⟩, rfl, fun _ _ => rfl, fun _ _ => rfl⟩

theorem column_returns (fuel : ℕ) (b : Blinker) (hw : w.SparesFds) (h : F.At s k0 k1)
    (row col : ℕ) :
    Returns (w.frameColumn fuel b (BitVec.ofNat 32 F.fd0) (BitVec.ofNat 32 F.fd1) F.c0 F.c1 row
      (col, k0.eof, k1.eof)) s fun r s' => F.At s' k0.read k1.read ∧
      F.KeepsRest s.process s'.process ∧
      if k0.read.char = NEW_LINE ∧ k1.read.char = NEW_LINE then
        r = .inl (k0.read.eof, k1.read.eof) ∧ s'.fish = s.fish
      else r = .inr (col + 1, k0.read.eof, k1.read.eof) ∧ s.fish.Makes fuel
        (cellCalls b row col (cellChar k0.read.char) (cellChar k1.read.char)) s'.fish := by
  unfold World.frameColumn
  refine returns_both (· = k0.read.eof) (· = k1.read.eof) h
    (fun p hp => w.frameRead_returns hw F.valid0 F.spans0 hp)
    (fun p hp => w.frameRead_returns hw F.valid1 F.spans1 hp) ?_
  rintro eof0 eof1 s₁ rfl rfl h₁ hkeeps₁ hfish₁
  refine returns_both (· = k0.read.char) (· = k1.read.char) h₁
    (fun p hp => load_returns p hp) (fun p hp => load_returns p hp) ?_
  rintro char0 char1 s₂ rfl rfl h₂ hkeeps₂ hfish₂
  rw [← hfish₁, ← hfish₂]
  by_cases hline : k0.read.char = NEW_LINE ∧ k1.read.char = NEW_LINE
  · rw [if_pos hline]
    refine returns_pure ⟨h₂, hkeeps₁.trans hkeeps₂, ?_⟩
    rw [if_pos hline]
    exact ⟨rfl, rfl⟩
  · rw [if_neg hline]
    refine (frameCell_returns b row col k0.read.char k1.read.char).bind fun _ s₃ h₃ => ?_
    obtain ⟨hprocess, hgoes⟩ := h₃
    refine returns_pure ⟨⟨?_, ?_⟩, ?_, ?_⟩
    · rw [hprocess]
      exact h₂.file0
    · rw [hprocess]
      exact h₂.file1
    · rw [hprocess]
      exact hkeeps₁.trans hkeeps₂
    · rw [if_neg hline]
      exact ⟨rfl, hgoes⟩

theorem rowCalls_read (b : Blinker) (row col : ℕ) (k0 k1 : Cursor) :
    rowCalls b row col k0.line k1.line =
      if k0.read.char = NEW_LINE ∧ k1.read.char = NEW_LINE then []
      else cellCalls b row col (cellChar k0.read.char) (cellChar k1.read.char) ++
        rowCalls b row (col + 1) k0.read.line k1.read.line := by
  have hhead (k : Cursor) : k.line.headD SPACE = cellChar k.read.char := by
    rw [Cursor.line_read, cellChar]
    split_ifs
    · rfl
    · rfl
  have htail (k : Cursor) : k.line.tail = k.read.line := by
    rw [Cursor.line_read]
    split_ifs with hc
    · exact (if_pos hc).symm
    · rfl
  have hnil (k : Cursor) : k.line = [] ↔ k.read.char = NEW_LINE := by
    rw [Cursor.line_read]
    by_cases hc : k.read.char = NEW_LINE
    · rw [if_pos hc]
      exact iff_of_true rfl hc
    · rw [if_neg hc]
      exact iff_of_false (List.cons_ne_nil _ _) hc
  split_ifs with hline
  · rw [(hnil k0).mpr hline.1, (hnil k1).mpr hline.2]
    rfl
  · have hmore : k0.line ≠ [] ∨ k1.line ≠ [] := by
      rw [Ne, Ne, hnil, hnil]
      exact not_and_or.mp hline
    rw [rowCalls, sideBySide_step _ _ _ hmore, hhead, hhead, htail, htail]
    rfl

/-- Where the inner loop is before column `col` of a row that began in `s`. -/
structure ColumnsDone (F : FramePair w) (fuel : ℕ) (b : Blinker) (s : FishProcess) (k0 k1 : Cursor)
    (row col : ℕ) (j0 j1 : Cursor) (s' : FishProcess) : Prop where
  files : F.At s' j0 j1
  keeps : F.KeepsRest s.process s'.process
  ends0 : j0.lineEnd = k0.lineEnd
  ends1 : j1.lineEnd = k1.lineEnd
  drawn : ∃ cs, s.fish.Makes fuel cs s'.fish ∧
    cs ++ rowCalls b row col j0.line j1.line = rowCalls b row 0 k0.line k1.line

theorem columns_returns (hw : w.SparesFds) (h : F.At s k0 k1) (row : ℕ)
    (hfuel : k0.rest.length + k1.rest.length < fuel) :
    Returns (Command.loop (w.frameColumn fuel b (BitVec.ofNat 32 F.fd0) (BitVec.ofNat 32 F.fd1)
      F.c0 F.c1 row) fuel (0, k0.eof, k1.eof)) s fun eofs s' =>
        eofs = (k0.lineEnd.eof, k1.lineEnd.eof) ∧ F.At s' k0.lineEnd k1.lineEnd ∧
        F.KeepsRest s.process s'.process ∧
        s.fish.Makes fuel (rowCalls b row 0 k0.line k1.line) s'.fish := by
  refine returns_loop (fun n st s' => ∃ j0 j1, n = j0.rest.length + j1.rest.length ∧
      st.2 = (j0.eof, j1.eof) ∧ F.ColumnsDone fuel b s k0 k1 row st.1 j0 j1 s') ?_ hfuel
    ⟨k0, k1, rfl, rfl, h, .refl _, rfl, rfl, [], Fish.makes_nil fuel _, List.nil_append _⟩
  rintro n ⟨col, eofs⟩ s₁ ⟨j0, j1, rfl, heofs, hdone⟩
  obtain rfl : eofs = (j0.eof, j1.eof) := heofs
  obtain ⟨hfiles₁, hkeeps₁, hend0, hend1, cs, hgoes₁, hcalls⟩ := hdone
  refine (column_returns fuel b hw hfiles₁ row col).mono fun r s₂ h₂ => ?_
  obtain ⟨hfiles₂, hkeeps₂, hround⟩ := h₂
  rw [rowCalls_read] at hcalls
  rw [← Cursor.lineEnd_read] at hend0 hend1
  by_cases hline : j0.read.char = NEW_LINE ∧ j1.read.char = NEW_LINE
  · rw [if_pos hline] at hround hcalls
    obtain ⟨rfl, hfish⟩ := hround
    refine ⟨fun a ha => ?_, fun st hst => absurd hst Sum.inl_ne_inr⟩
    obtain rfl := Sum.inl.inj ha
    rw [Cursor.lineEnd_of_newLine hline.1] at hend0
    rw [Cursor.lineEnd_of_newLine hline.2] at hend1
    rw [List.append_nil] at hcalls
    rw [← hend0, ← hend1, ← hcalls, hfish]
    exact ⟨rfl, hfiles₂, hkeeps₁.trans hkeeps₂, hgoes₁⟩
  · rw [if_neg hline] at hround hcalls
    obtain ⟨rfl, hgoes₂⟩ := hround
    refine ⟨fun a ha => absurd ha Sum.inr_ne_inl, fun st hst => ?_⟩
    obtain rfl := Sum.inr.inj hst
    have hless : j0.read.rest.length + j1.read.rest.length < j0.rest.length + j1.rest.length := by
      have hle0 := j0.read_le
      have hle1 := j1.read_le
      rcases not_and_or.mp hline with hmore | hmore
      · have hlt := Cursor.read_lt hmore
        omega
      · have hlt := Cursor.read_lt hmore
        omega
    refine ⟨_, hless, j0.read, j1.read, rfl, rfl, hfiles₂, hkeeps₁.trans hkeeps₂, hend0, hend1, _,
      hgoes₁.trans hgoes₂, ?_⟩
    rw [List.append_assoc]
    exact hcalls

theorem frameCalls_step (b : Blinker) (row : ℕ) (l m : List (List UInt8)) : frameCalls b row l m =
    if l = [] ∧ m = [] then []
    else rowCalls b row 0 (l.headD []) (m.headD []) ++ frameCalls b (row + 1) l.tail m.tail := by
  by_cases hnone : l = [] ∧ m = []
  · rw [if_pos hnone, hnone.1, hnone.2]
    rfl
  · rw [if_neg hnone, frameCalls, sideBySide_step _ _ _ (not_and_or.mp hnone)]
    rfl

theorem row_returns (hw : w.SparesFds) (h : F.At s k0 k1) (hk0 : k0.AtRow) (hk1 : k1.AtRow) (row : ℕ)
    (hfuel : k0.rest.length + k1.rest.length < fuel) :
    Returns (w.frameRow fuel b (BitVec.ofNat 32 F.fd0) (BitVec.ofNat 32 F.fd1) F.c0 F.c1
      (row, k0.eof, k1.eof)) s fun r s' =>
        if k0.lines = [] ∧ k1.lines = [] then r = .inl () ∧ s' = s
        else r = .inr (row + 1, k0.lineEnd.next.eof, k1.lineEnd.next.eof) ∧
          F.At s' k0.lineEnd.next k1.lineEnd.next ∧ F.KeepsRest s.process s'.process ∧
          s.fish.Makes fuel (rowCalls b row 0 (k0.lines.headD []) (k1.lines.headD [])) s'.fish := by
  have hmore (k : Cursor) : k.eof = false ↔ k.lines ≠ [] := by
    rw [Ne, Cursor.lines_eq_nil, Bool.not_eq_true]
  unfold World.frameRow
  dsimp only
  by_cases hnone : k0.lines = [] ∧ k1.lines = []
  · rw [if_neg (by rw [hmore, hmore]; exact fun hor => hor.elim (· hnone.1) (· hnone.2))]
    refine returns_pure ?_
    rw [if_pos hnone]
    exact ⟨rfl, rfl⟩
  rw [if_pos (by rw [hmore, hmore]; exact not_and_or.mp hnone)]
  refine (columns_returns hw h row hfuel).bind fun eofs s₁ h₁ => ?_
  obtain ⟨rfl, hat₁, hkeeps₁, hgoes₁⟩ := h₁
  refine returns_both (fun _ => True) (fun _ => True) hat₁
    (fun p hp => (w.frameRowEnd_returns hw F.lo0 F.hi0 hp).mono fun _ _ h => ⟨trivial, h⟩)
    (fun p hp => (w.frameRowEnd_returns hw F.lo1 F.hi1 hp).mono fun _ _ h => ⟨trivial, h⟩) ?_
  rintro - - s₂ - - hat₂ hkeeps₂ hfish₂
  refine returns_pure ?_
  rw [if_neg hnone, ← hk0.lines.1, ← hk1.lines.1, hfish₂]
  exact ⟨rfl, hat₂, hkeeps₁.trans hkeeps₂, hgoes₁⟩

/-- Where the outer loop is before row `row`. -/
structure RowsDone (F : FramePair w) (fuel : ℕ) (b : Blinker) (s : FishProcess) (k0 k1 : Cursor)
    (row : ℕ) (j0 j1 : Cursor) (s' : FishProcess) : Prop where
  files : F.At s' j0 j1
  atRow0 : j0.AtRow
  atRow1 : j1.AtRow
  small : j0.rest.length + j1.rest.length < fuel
  keeps : F.KeepsRest s.process s'.process
  drawn : ∃ cs, s.fish.Makes fuel cs s'.fish ∧
    cs ++ frameCalls b row j0.lines j1.lines = frameCalls b 0 k0.lines k1.lines

theorem RowsDone.next {row : ℕ} {j0 j1 : Cursor} (h : F.RowsDone fuel b s k0 k1 row j0 j1 s')
    (hmore : ¬ (j0.lines = [] ∧ j1.lines = [])) (hfiles : F.At s'' j0.lineEnd.next j1.lineEnd.next)
    (hkeeps : F.KeepsRest s'.process s''.process) (hgoes : s'.fish.Makes fuel
      (rowCalls b row 0 (j0.lines.headD []) (j1.lines.headD [])) s''.fish) :
    F.RowsDone fuel b s k0 k1 (row + 1) j0.lineEnd.next j1.lineEnd.next s'' := by
  obtain ⟨cs, hdone, hcalls⟩ := h.drawn
  refine ⟨hfiles, Cursor.atRow_next _, Cursor.atRow_next _, ?_, h.keeps.trans hkeeps, _,
    hdone.trans hgoes, ?_⟩
  · have hsmall := h.small
    have hle0 := j0.lineEnd_le
    have hle1 := j1.lineEnd_le
    change j0.lineEnd.rest.length + j1.lineEnd.rest.length < fuel
    omega
  · rw [← hcalls, frameCalls_step b row, if_neg hmore, h.atRow0.lines.2, h.atRow1.lines.2,
      List.append_assoc]

theorem rows_returns (hw : w.SparesFds) (h : F.At s k0 k1) (hk0 : k0.AtRow) (hk1 : k1.AtRow)
    (hfuel : k0.rest.length + k1.rest.length + 2 < fuel) :
    Returns (Command.loop (w.frameRow fuel b (BitVec.ofNat 32 F.fd0) (BitVec.ofNat 32 F.fd1)
      F.c0 F.c1) fuel (0, k0.eof, k1.eof)) s fun _ s' => F.KeepsRest s.process s'.process ∧
        (s'.process.kernel.fds F.fd0).flags = 0#32 ∧ (s'.process.kernel.fds F.fd1).flags = 0#32 ∧
        s.fish.Makes fuel (frameCalls b 0 k0.lines k1.lines) s'.fish := by
  have hstart : k0.lines.length + k1.lines.length < fuel := by
    have h0 := k0.length_lines_le
    have h1 := k1.length_lines_le
    omega
  have hfirst : F.RowsDone fuel b s k0 k1 0 k0 k1 s :=
    ⟨h, hk0, hk1, by omega, .refl _, [], Fish.makes_nil fuel _, List.nil_append _⟩
  refine returns_loop (fun n st s' => ∃ j0 j1, n = j0.lines.length + j1.lines.length ∧
      st.2 = (j0.eof, j1.eof) ∧ F.RowsDone fuel b s k0 k1 st.1 j0 j1 s') ?_ hstart
    ⟨k0, k1, rfl, rfl, hfirst⟩
  rintro n ⟨row, eofs⟩ s₁ ⟨j0, j1, rfl, heofs, hdone⟩
  obtain rfl : eofs = (j0.eof, j1.eof) := heofs
  refine (row_returns (b := b) hw hdone.files hdone.atRow0 hdone.atRow1 row hdone.small).mono
    fun r s₂ hround => ?_
  by_cases hnone : j0.lines = [] ∧ j1.lines = []
  · rw [if_pos hnone] at hround
    obtain ⟨rfl, rfl⟩ := hround
    obtain ⟨cs, hgoes, hcalls⟩ := hdone.drawn
    rw [frameCalls_step b row, if_pos hnone, List.append_nil] at hcalls
    rw [← hcalls]
    have hshut0 := hdone.atRow0.shut.trans (Cursor.lines_eq_nil.mp hnone.1)
    have hshut1 := hdone.atRow1.shut.trans (Cursor.lines_eq_nil.mp hnone.2)
    exact ⟨fun _ _ => ⟨hdone.keeps, hdone.files.file0.shut hshut0, hdone.files.file1.shut hshut1,
      hgoes⟩, fun st hst => absurd hst Sum.inl_ne_inr⟩
  · rw [if_neg hnone] at hround
    obtain ⟨rfl, hfiles, hkeeps, hgoes⟩ := hround
    refine ⟨fun a ha => absurd ha Sum.inr_ne_inl, fun st hst => ?_⟩
    obtain rfl := Sum.inr.inj hst
    have hless : j0.lineEnd.next.lines.length + j1.lineEnd.next.lines.length <
        j0.lines.length + j1.lines.length := by
      rw [hdone.atRow0.lines.2, hdone.atRow1.lines.2, List.length_tail, List.length_tail]
      rcases not_and_or.mp hnone with hmore | hmore
      · have hpos := List.length_pos_iff.mpr hmore
        omega
      · have hpos := List.length_pos_iff.mpr hmore
        omega
    exact ⟨_, hless, _, _, rfl, rfl, hdone.next hnone hfiles hkeeps hgoes⟩

end FramePair

section Opened

variable {w : World} {p p' : Process} {c0 c1 f : Addr} {name : List UInt8} {e : ℕ}

theorem Tracks.reclosed_both {opened : Finset ℕ} {fds fds' : ℕ → FileInfo} (h : Tracks opened fds)
    {i j : ℕ} (hi : i ∉ opened) (hj : j ∉ opened) (hne : j ≠ i)
    (hother : ∀ d, d ≠ i → d ≠ j → fds' d = fds d) (hi0 : (fds' i).flags = 0#32)
    (hj0 : (fds' j).flags = 0#32) : Tracks opened fds' := by
  -- `j` as it was: so far only `i` has changed
  have hfirst : Tracks opened (Function.update fds' j (fds j)) := by
    refine h.reclosed hi (fun d hd => ?_) ?_
    · rcases eq_or_ne d j with rfl | hdj
      · exact Function.update_self _ _ _
      · rw [Function.update_of_ne hdj]
        exact hother d hd hdj
    · rw [Function.update_of_ne hne.symm]
      exact hi0
  exact hfirst.reclosed hj (fun d hd => (Function.update_of_ne hd _ _).symm) hj0

/-- `name`, at `f`, is the name of a regular file, and away from the variables. -/
structure World.FrameFile (w : World) (bytes : Addr → UInt8) (c0 c1 f : Addr) (name : List UInt8)
    (e : ℕ) : Prop where
  spans : Spans f (name.length + 1)
  holds : HoldsName ⟨bytes, []⟩ f name
  nul : NulFree name
  apart0 : Apart f (name.length + 1) c0 1
  apart1 : Apart f (name.length + 1) c1 1
  finds : w.fs.Finds name e
  regular : (w.fs.files e).filetype = FILETYPE_REGULAR
  inode_lt : (w.fs.files e).inode.toNat < 128
  valid : w.fs.ValidFile (w.fs.files e).inode.toNat

theorem World.FrameFile.changed {bytes bytes' : Addr → UInt8} (h : w.FrameFile bytes c0 c1 f name e)
    (h0 : Spans c0 1) (h1 : Spans c1 1)
    (hbytes : ∀ b, b ≠ c0 → b ≠ c1 → bytes' b = bytes b) : w.FrameFile bytes' c0 c1 f name e := by
  refine ⟨h.spans, h.holds.congr fun j hj => hbytes _ ?_ ?_, h.nul, h.apart0, h.apart1, h.finds,
    h.regular, h.inode_lt, h.valid⟩
  · have hne := h.apart0.ne h.spans h0 (Nat.lt_succ_of_le hj) Nat.zero_lt_one
    rwa [show c0 + BitVec.ofNat 32 0 = c0 from BitVec.add_zero c0] at hne
  · have hne := h.apart1.ne h.spans h1 (Nat.lt_succ_of_le hj) Nat.zero_lt_one
    rwa [show c1 + BitVec.ofNat 32 0 = c1 from BitVec.add_zero c1] at hne

def Cursor.opened (contents : List UInt8) : Cursor := ⟨DIGIT_ZERO, contents, false, false⟩

theorem Cursor.atRow_opened (contents : List UInt8) : (Cursor.opened contents).AtRow :=
  ⟨iff_of_false (show DIGIT_ZERO ≠ NEW_LINE by decide) Bool.false_ne_true, rfl⟩

theorem World.open_frame (hw : w.SparesFds) {opened : Finset ℕ} {i : ℕ}
    (htracks : Tracks opened p.kernel.fds) (hi : LeastFree opened i)
    (h : w.FrameFile p.user.bytes c0 c1 f name e) {c : Addr} (hc : p.user.bytes c = DIGIT_ZERO) :
    Returns (w.ece391Open f) p fun ret p' => ret = BitVec.ofNat 32 i ∧
      p'.HasRead w (w.fs.files e).inode.toNat i c
        (.opened (w.fs.contents (w.fs.files e).inode.toNat)) ∧
      Tracks (insert i opened) p'.kernel.fds ∧ p'.shown = p.shown ∧
      p'.user.bytes = p.user.bytes ∧ ∀ j ≠ i, p'.kernel.fds j = p.kernel.fds j := by
  refine (World.opens_returns hw htracks (h.spans.inWindow (Nat.succ_pos _))
    (h.finds.firstMatch h.nul (h.holds.congr fun _ _ => rfl)) (by rw [h.regular]; rfl) hi).mono
    fun ret p' hret => ?_
  obtain ⟨rfl, hopens⟩ := hret
  refine ⟨rfl, ⟨?_, fun ht => absurd ht Bool.noConfusion, fun _ => ⟨hopens.file,
    hopens.number h.regular h.inode_lt h.valid, [], rfl, hopens.position⟩,
    fun ht => absurd ht Bool.noConfusion, fun _ => hopens.file⟩, hopens.tracks, ?_,
    hopens.goes.bytes, hopens.others⟩
  · rw [hopens.goes.bytes]
    exact hc
  · rw [hopens.goes.shown, List.append_nil]

end Opened

/-- On blinkers that nothing has been added to, calls make a board. -/
theorem Fish.Makes.represents {s s' : Fish} {fuel : ℕ} {cs : List BlinkCall} (h : s.Makes fuel cs s')
    (hs : s.Cleared) (hcs : ∀ c ∈ cs, c.Located) (hfuel : BLINK_CELLS < fuel) :
    ∃ l, s'.Represents l ((⟨[], s.vmem⟩ : Board).calls cs).2 := by
  obtain ⟨replies, hrun⟩ := h
  obtain ⟨s'', l, hcalls, hl⟩ := hs.represents.calls hfuel hcs
  rw [hrun] at hcalls
  obtain ⟨-, rfl⟩ := Prod.mk.inj (Option.some.inj hcalls)
  exact ⟨l, hl⟩

def frameBlinkers (garbage : Blinker) (contents0 contents1 : List UInt8) : List BlinkCall :=
  frameCalls { garbage with onLength := 15, offLength := 15 } 0 (contents0.splitOn NEW_LINE)
    (contents1.splitOn NEW_LINE)

/-- `add_frames` adds a blinker for every cell that one of the two files fills, row by row,
and for no other; the lines are filled up with blanks, and the shorter file with empty
lines. On cleared memory what there is then is the board of these calls. It leaves the
terminal, the descriptors in use and the rest of the memory alone. -/
theorem frames_added (w : World) (hw : w.SparesFds) (s : FishProcess) (opened : Finset ℕ)
    (htracks : Tracks opened s.process.kernel.fds) (i j : ℕ) (hi : LeastFree opened i)
    (hj : LeastFree (insert i opened) j) (c0 c1 : Addr) (h0 : Spans c0 1) (h1 : Spans c1 1)
    (hne : c0 ≠ c1) (f0 f1 : Addr) (name0 name1 : List UInt8) (e0 e1 : ℕ)
    (hf0 : w.FrameFile s.process.user.bytes c0 c1 f0 name0 e0)
    (hf1 : w.FrameFile s.process.user.bytes c0 c1 f1 name1 e1) (garbage : Blinker) (fuel : ℕ)
    (hfuel : (w.fs.contents (w.fs.files e0).inode.toNat).length +
      (w.fs.contents (w.fs.files e1).inode.toNat).length + 2 < fuel) :
    Returns (w.addFrames fuel c0 c1 garbage f0 f1) s fun r s' => r = true ∧
      s.fish.Makes fuel (frameBlinkers garbage (w.fs.contents (w.fs.files e0).inode.toNat)
        (w.fs.contents (w.fs.files e1).inode.toNat)) s'.fish ∧
      (s.fish.Cleared → BLINK_CELLS < fuel →
        (∀ c ∈ frameBlinkers garbage (w.fs.contents (w.fs.files e0).inode.toNat)
          (w.fs.contents (w.fs.files e1).inode.toNat), c.Located) →
        ∃ l, s'.fish.Represents l ((⟨[], s.fish.vmem⟩ : Board).calls
          (frameBlinkers garbage (w.fs.contents (w.fs.files e0).inode.toNat)
            (w.fs.contents (w.fs.files e1).inode.toNat))).2) ∧
      Tracks opened s'.process.kernel.fds ∧ s'.process.shown = s.process.shown ∧
      ∀ b, b ≠ c0 → b ≠ c1 → s'.process.user.bytes b = s.process.user.bytes b := by
  have hji : j ≠ i := fun heq => hj.2.2.1 (heq ▸ Finset.mem_insert_self i opened)
  let F : FramePair w :=
    { inode0 := (w.fs.files e0).inode.toNat
      inode1 := (w.fs.files e1).inode.toNat
      fd0 := i
      fd1 := j
      c0 := c0
      c1 := c1
      valid0 := hf0.valid
      valid1 := hf1.valid
      lo0 := hi.1
      lo1 := hj.1
      hi0 := hi.2.1
      hi1 := hj.2.1
      fd_ne := hji.symm
      spans0 := h0
      spans1 := h1
      c_ne := hne }
  have hnotneg {d : ℕ} (hd : d < MAX_FD_PER_PROCESS) : ¬ (BitVec.ofNat 32 d).toInt < 0 := by
    rw [MAX_FD_PER_PROCESS] at hd
    rw [BitVec.toInt_eq_toNat_of_lt (by rw [BitVec.toNat_ofNat]; omega), BitVec.toNat_ofNat]
    omega
  unfold World.addFrames
  refine (returns_apart (store_returns i c0 DIGIT_ZERO s.process)).bind fun _ s₁ hs₁ => ?_
  obtain ⟨⟨honly₁, hchar₁, hfds₁⟩, hfish₁⟩ := hs₁
  refine (returns_apart (store_returns j c1 DIGIT_ZERO s₁.process)).bind fun _ s₂ hs₂ => ?_
  obtain ⟨⟨honly₂, hchar₂, hfds₂⟩, hfish₂⟩ := hs₂
  have hbytes₂ (b : Addr) (hb0 : b ≠ c0) (hb1 : b ≠ c1) :
      s₂.process.user.bytes b = s.process.user.bytes b :=
    (honly₂.bytes b hb1).trans (honly₁.bytes b hb0)
  have htracks₂ : Tracks opened s₂.process.kernel.fds := by
    rw [hfds₂, hfds₁]
    exact htracks
  refine (returns_apart (World.open_frame hw htracks₂ hi (hf0.changed h0 h1 hbytes₂)
    (c := c0) ((honly₂.bytes c0 hne).trans hchar₁))).bind fun fd0 s₃ hs₃ => ?_
  obtain ⟨⟨rfl, hread₃, htracks₃, hshown₃, hbytes₃, hother₃⟩, hfish₃⟩ := hs₃
  rw [if_neg (hnotneg hi.2.1)]
  have hfile₃ : w.FrameFile s₃.process.user.bytes c0 c1 f1 name1 e1 := by
    rw [hbytes₃]
    exact hf1.changed h0 h1 hbytes₂
  refine (returns_apart (World.open_frame hw htracks₃ hj hfile₃ (c := c1)
    (by rw [hbytes₃]; exact hchar₂))).bind fun fd1 s₄ hs₄ => ?_
  obtain ⟨⟨rfl, hread₄, htracks₄, hshown₄, hbytes₄, hother₄⟩, hfish₄⟩ := hs₄
  rw [if_neg (hnotneg hj.2.1)]
  have hat : F.At s₄ (.opened (w.fs.contents F.inode0)) (.opened (w.fs.contents F.inode1)) :=
    ⟨hread₃.other ⟨hshown₄, hother₄, fun b _ => congrFun hbytes₄ b⟩ hji.symm hne, hread₄⟩
  refine (FramePair.rows_returns hw hat (Cursor.atRow_opened _) (Cursor.atRow_opened _)
    hfuel).bind fun _ s₅ hs₅ => ?_
  obtain ⟨hkeeps, hflags0, hflags1, hgoes⟩ := hs₅
  rw [hfish₄, hfish₃, hfish₂, hfish₁] at hgoes
  refine returns_pure ⟨rfl, hgoes, fun hclear hlarge hlocated =>
    hgoes.represents hclear hlocated hlarge, ?_, ?_, fun b hb0 hb1 => ?_⟩
  · have hnot : j ∉ opened := fun hmem => hj.2.2.1 (Finset.mem_insert_of_mem hmem)
    refine htracks.reclosed_both hi.2.2.1 hnot hji (fun d hdi hdj => ?_) hflags0 hflags1
    rw [hkeeps.fds d hdi hdj, hother₄ d hdj, hother₃ d hdi, hfds₂, hfds₁]
  · rw [hkeeps.shown, hshown₄, hshown₃, honly₂.shown, honly₁.shown]
  · rw [hkeeps.bytes b hb0 hb1, hbytes₄, hbytes₃, hbytes₂ b hb0 hb1]

/-- The constants of the programs on that image, with the name of its file. -/
def framesBytes (a : Addr) : UInt8 := if a = 0x8052000#32 then 97 else docsBytes a

theorem frames_added_docs : Returns (docsWorld.addFrames 2001 0x8051000#32 0x8051001#32
    ⟨0, 0, 0, 0, 0, 0, 0⟩ 0x8052000#32 0x8052000#32)
    ⟨{ docsProcess [] with user := ⟨framesBytes, []⟩ }, clearedFish⟩ fun r s' => r = true ∧
      ∃ l, s'.fish.Represents l
        ⟨[⟨41, 105, 105, 15, 15, 15, 1⟩, ⟨40, 104, 104, 15, 15, 15, 1⟩],
          Function.update (Function.update (fun _ => 0) 80 104) 82 105⟩ := by
  have hcontents : docsWorld.fs.contents (docsWorld.fs.files 1).inode.toNat = [104, 105, 10] :=
    docsFs_contents
  have hfile : docsWorld.FrameFile framesBytes 0x8051000#32 0x8051001#32 0x8052000#32 [97] 1 := by
    have hname : HoldsName ⟨framesBytes, []⟩ 0x8052000#32 [97] := by
      unfold HoldsName
      decide
    refine ⟨spans_docs (by decide) (by decide), hname, by decide, Or.inr (by decide),
      Or.inr (by decide), ⟨by decide, by decide, fun e' he' => ?_⟩, by decide, by decide,
      docsFs_validFile⟩
    obtain rfl : e' = 0 := by omega
    decide
  have h := frames_added docsWorld docsWorld_quiet
    ⟨{ docsProcess [] with user := ⟨framesBytes, []⟩ }, clearedFish⟩ {0, 1}
    (docsProcess_fresh []).tracks 2 3 leastFree_two
    (by rw [show insert 2 {0, 1} = {0, 1, 2} by decide]; exact leastFree_three) 0x8051000#32 0x8051001#32
    (spans_docs (by decide) (by decide)) (spans_docs (by decide) (by decide)) (by decide)
    0x8052000#32 0x8052000#32 [97] [97] 1 1 hfile hfile ⟨0, 0, 0, 0, 0, 0, 0⟩ 2001
    (by rw [hcontents]; decide)
  rw [hcontents] at h
  have hcalls : frameBlinkers ⟨0, 0, 0, 0, 0, 0, 0⟩ [104, 105, 10] [104, 105, 10] =
      [.add ⟨40, 104, 104, 15, 15, 0, 0⟩, .add ⟨41, 105, 105, 15, 15, 0, 0⟩] := by decide
  rw [hcalls] at h
  exact h.mono fun r s' hs' => ⟨hs'.1, hs'.2.2.1 ⟨fun _ _ => rfl, rfl⟩ (by decide) (by decide)⟩

end SnoopDos
