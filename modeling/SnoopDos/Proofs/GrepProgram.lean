import SnoopDos.Proofs.ProgramStrings

/-! What `grep` shows: of every file, in the order of the directory, the lines that
hold its argument. A line that does not fit the buffer is cut into pieces. -/

namespace SnoopDos

open Kernel UserMem Command

/-- The next piece of a text: a line, or the first kilobyte of a longer one. -/
def pieceOf (l : List UInt8) : List UInt8 := (l.take 1024).takeWhile (· ≠ NEW_LINE)

/-- How far the piece after it begins. -/
def pieceStep (l : List UInt8) : ℕ :=
  if (pieceOf l).length = 1024 then 1024 else (pieceOf l).length + 1

theorem pieceStep_pos (l : List UInt8) : 0 < pieceStep l := by
  unfold pieceStep
  split_ifs
  · omega
  · omega

/-- The pieces in which `grep` searches a file. -/
def pieces (l : List UInt8) : List (List UInt8) :=
  if l = [] then [] else pieceOf l :: pieces (l.drop (pieceStep l))
termination_by l.length
decreasing_by
  have hpos := List.length_pos_iff.mpr ‹_›
  have hstep := pieceStep_pos l
  rw [List.length_drop]
  omega

/-- What `grep` prints of a piece of the file with this name. -/
def matchText (m name piece : List UInt8) : List UInt8 :=
  if m ≠ [] ∧ m <:+: piece then name ++ COLON ++ piece ++ LINE_BREAK else []

def grepText (m name l : List UInt8) : List UInt8 := (pieces l).flatMap (matchText m name)

/-- Where `do_one_file` has its strings and its local array. -/
structure GrepSpace (s fname data : Addr) : Prop where
  pattern : Spans s 1024
  name : Spans fname 33
  buffer : Spans data 1025
  patternApart : Apart s 1024 data 1025
  nameApart : Apart fname 33 data 1025

/-- What `do_one_file` finds in memory, besides the text in its buffer. -/
structure World.GrepHolds (w : World) (s fname data : Addr) (m name : List UInt8) (u : UserMem) :
    Prop where
  pattern : HoldsName u s m
  name : HoldsName u fname name
  texts : w.HoldsTexts [COLON, LINE_BREAK] data 1025 u.bytes
  guard : charAt u data 1024 ≠ NEW_LINE

section Pieces

variable {m name l : List UInt8}

end Pieces

/-- The buffer of `do_one_file` in its inner loop: from `lineStart` up to `last` it holds
the beginning of `l`, and all of it unless the buffer is full. -/
structure LineAt (data : Addr) (last lineStart : ℕ) (l : List UInt8) (u : UserMem) : Prop where
  le : lineStart ≤ last
  last_le : last ≤ 1024
  length : last - lineStart ≤ l.length
  full : last = 1024 ∨ l.length = last - lineStart
  cells : ∀ j < last - lineStart, charAt u data (lineStart + j) = l.getD j NULL_CHAR

/-- The line that begins at `lineStart`, as far as the buffer holds it. -/
def lineIn (last lineStart : ℕ) (l : List UInt8) : List UInt8 :=
  (l.take (last - lineStart)).takeWhile (· ≠ NEW_LINE)

section Window

variable {data : Addr} {last lineStart : ℕ} {l : List UInt8} {u u' : UserMem}

theorem LineAt.lineEnd (h : LineAt data last lineStart l u) :
    (lineEndLoop data (last - lineStart) lineStart u).1 =
      lineStart + (lineIn last lineStart l).length := by
  have hlen : (l.take (last - lineStart)).length = last - lineStart := by
    rw [List.length_take, Nat.min_eq_left h.length]
  have hfst := lineEndLoop_fst data (l.take (last - lineStart)) lineStart u fun j hj => by
    rw [hlen] at hj
    rw [h.cells j hj, List.getD_eq_getElem?_getD, List.getD_eq_getElem?_getD,
      List.getElem?_take_of_lt hj]
  rwa [hlen] at hfst

theorem LineAt.next (h : LineAt data last lineStart l u) {k : ℕ} (hk : lineStart + k ≤ last)
    (hcells : ∀ j, k ≤ j → j < last - lineStart →
      charAt u' data (lineStart + j) = charAt u data (lineStart + j)) :
    LineAt data last (lineStart + k) (l.drop k) u' := by
  have hlen := h.length
  refine ⟨hk, h.last_le, by rw [List.length_drop]; omega, ?_, fun j hj => ?_⟩
  · rw [List.length_drop]
    exact h.full.imp_right fun _ => by omega
  · rw [Nat.add_assoc, hcells (k + j) (by omega) (by omega), h.cells (k + j) (by omega),
      List.getD_eq_getElem?_getD, List.getD_eq_getElem?_getD, List.getElem?_drop]

theorem LineAt.of_bytes (h : LineAt data last lineStart l u) (hbytes : u'.bytes = u.bytes) :
    LineAt data last lineStart l u' :=
  ⟨h.le, h.last_le, h.length, h.full, fun j hj => by rw [charAt, hbytes]; exact h.cells j hj⟩

end Window

section Line

variable {w : World} {s fname data : Addr} {m name : List UInt8} {u u' : UserMem}

theorem World.GrepHolds.changed (hspace : GrepSpace s fname data) (hm : m.length < 1024)
    (hname : name.length < 33) (h : w.GrepHolds s fname data m name u)
    (hchanged : ChangedIn data 1025 u.bytes u'.bytes) (hguard : charAt u' data 1024 ≠ NEW_LINE) :
    w.GrepHolds s fname data m name u' where
  pattern := h.pattern.congr fun _ _ =>
    hchanged.charAt hspace.patternApart hspace.buffer hspace.pattern (by omega)
  name := h.name.congr fun _ _ =>
    hchanged.charAt hspace.nameApart hspace.buffer hspace.name (by omega)
  texts := h.texts.changed hspace.buffer hchanged
  guard := hguard

end Line

section File

variable {w : World} {s fname data : Addr} {m name : List UInt8} {p p₁ : Process} {fd inode : ℕ}

/-- Where `do_one_file` is before a round of its outer loop: the text up to `o` is done,
and the buffer holds the `last` bytes from there on. -/
structure GrepAt (w : World) (p : Process) (s fname data : Addr) (m name : List UInt8)
    (fd inode o last : ℕ) (p' : Process) : Prop where
  goes : ∃ text, p.Goes text (withPosition p.kernel.fds fd (BitVec.ofNat 32 (o + last)))
      p'.user.bytes p' ∧
    text ++ grepText m name ((w.fs.contents inode).drop o) = grepText m name (w.fs.contents inode)
  holds : w.GrepHolds s fname data m name p'.user
  le : o + last ≤ (w.fs.contents inode).length
  last_lt : last < 1024
  cells : ∀ j < last, charAt p'.user data j = ((w.fs.contents inode).drop o).getD j NULL_CHAR

theorem GrepAt.line_read {o last d : ℕ} (h : GrepAt w p s fname data m name fd inode o last p₁)
    (hspace : GrepSpace s fname data)
    (hd : d = min (1024 - last) ((w.fs.contents inode).length - (o + last))) {u : UserMem}
    (hchanged : ChangedIn (data + BitVec.ofNat 32 last) (1024 - last) p₁.user.bytes u.bytes)
    (hbytes : ∀ j < d, charAt u (data + BitVec.ofNat 32 last) j =
      ((w.fs.contents inode).drop (o + last)).getD j NULL_CHAR) :
    LineAt data (last + d) 0 ((w.fs.contents inode).drop o) u := by
  have hlast := h.last_lt
  have hle := h.le
  refine ⟨Nat.zero_le _, by omega, by rw [List.length_drop]; omega, ?_, fun j hj => ?_⟩
  · rw [List.length_drop]
    omega
  · rw [Nat.zero_add]
    rcases lt_or_ge j last with hlt | hge
    · rw [hchanged.charAt_outside hspace.buffer (by omega) (by omega) (Or.inl hlt)]
      exact h.cells j hlt
    · have hcell := hbytes (j - last) (by omega)
      rw [charAt_add, Nat.add_sub_cancel' hge] at hcell
      rw [hcell, List.getD_eq_getElem?_getD, List.getD_eq_getElem?_getD, List.getElem?_drop,
        List.getElem?_drop, show o + last + (j - last) = o + j by omega]

end File

section Main

variable {w : World} {s buf data : Addr} {m : List UInt8} {p p₁ : Process}

/-- What `grep` shows of an entry of the directory. -/
def entryText (fs : Fs) (m : List UInt8) (e : ℕ) : List UInt8 :=
  if (fs.files e).name.head? = some 46 then []
  else grepText m (fs.files e).name (fs.contents (fs.files e).inode.toNat)

/-- Where `grep` is before it reads entry `c`. -/
structure GrepMainAt (w : World) (p : Process) (s data : Addr) (m : List UInt8) (c : ℕ)
    (p' : Process) : Prop where
  tracks : Tracks {0, 1, 2} p'.kernel.fds
  directory : OpenAs p'.kernel.fds 2 .directory
  stdout : OpenAs p'.kernel.fds 1 .terminal
  position : (p'.kernel.fds 2).position = BitVec.ofNat 32 c
  le : c ≤ w.fs.direntries.toNat
  names : ∀ e < c, (w.fs.files e).name ≠ []
  pattern : HoldsName p'.user s m
  texts : w.HoldsTexts [COLON, LINE_BREAK] data 1025 p'.user.bytes
  guard : charAt p'.user data 1024 ≠ NEW_LINE
  shown : p'.shown = p.shown ++ (List.range c).flatMap (entryText w.fs m)

/-- The name of the next entry takes nothing of what `grep` needs. -/
theorem GrepMainAt.kept {c : ℕ} (h : GrepMainAt w p s data m c p₁) (hspace : GrepSpace s buf data)
    (hapart : Apart s 1024 buf 33) (htexts : ∀ t ∈ [COLON, LINE_BREAK],
      Apart (w.constant t) (t.length + 1) buf 33) (hmLen : m.length < 1024) {u : UserMem}
    (hu : ChangedIn buf 33 p₁.user.bytes u.bytes) :
    HoldsName u s m ∧ w.HoldsTexts [COLON, LINE_BREAK] data 1025 u.bytes ∧
      charAt u data 1024 ≠ NEW_LINE := by
  refine ⟨h.pattern.congr fun j hj => hu.charAt hapart hspace.name hspace.pattern (by omega),
    ⟨h.texts.spans, h.texts.apart, fun t ht => (h.texts.holds t ht).congr fun j hj => ?_⟩, ?_⟩
  · have hsame : charAt u (w.constant t) j = charAt p₁.user (w.constant t) j :=
      hu.charAt (htexts t ht) hspace.name (h.texts.spans t ht) (by omega)
    exact hsame
  · rw [hu.charAt hspace.nameApart.symm hspace.name hspace.buffer (by omega)]
    exact h.guard

theorem GrepMainAt.succ {c : ℕ} (h : GrepMainAt w p s data m c p₁)
    (hmore : c < w.fs.direntries.toNat) (hne : (w.fs.files c).name ≠ []) {p' : Process}
    (htracks : Tracks {0, 1, 2} p'.kernel.fds)
    (hfds : ∀ fd ≠ 3, p'.kernel.fds fd = withPosition p₁.kernel.fds 2 (BitVec.ofNat 32 (c + 1)) fd)
    (hkept : HoldsName p'.user s m ∧ w.HoldsTexts [COLON, LINE_BREAK] data 1025 p'.user.bytes ∧
      charAt p'.user data 1024 ≠ NEW_LINE)
    (hshown : p'.shown = p₁.shown ++ entryText w.fs m c) :
    GrepMainAt w p s data m (c + 1) p' where
  tracks := htracks
  directory := (h.directory.withPosition 2 _).congr (hfds 2 (by decide))
  stdout := (h.stdout.withPosition 2 _).congr (hfds 1 (by decide))
  position := by rw [hfds 2 (by decide), withPosition, Function.update_self]
  le := hmore
  names e he := by
    rcases (Nat.lt_succ_iff.mp he).eq_or_lt with rfl | hlt
    · exact hne
    · exact h.names e hlt
  pattern := hkept.1
  texts := hkept.2.1
  guard := hkept.2.2
  shown := by
    rw [hshown, h.shown, List.range_succ, List.flatMap_append, List.flatMap_singleton,
      List.append_assoc]

/-- The entry stays read while the program only looks at its memory. -/
theorem Process.ReadsEntry.trans {c : ℕ} {cnt : Word} {p₂ p₃ : Process}
    (h : p₁.ReadsEntry w buf 2 c cnt p₂) (hgo : p₂.Goes [] p₂.kernel.fds p₂.user.bytes p₃) :
    p₁.ReadsEntry w buf 2 c cnt p₃ where
  lt := h.lt
  named := h.named
  count := h.count
  chars j hj := by
    rw [charAt, hgo.bytes]
    exact h.chars j hj
  changed := hgo.bytes ▸ h.changed
  goes := by
    have hall := h.goes.trans hgo
    rw [List.append_nil, h.goes.fds] at hall
    exact ⟨hall.shown, hall.fds, hall.args, rfl⟩

end Main

end SnoopDos
