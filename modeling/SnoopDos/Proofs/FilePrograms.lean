import SnoopDos.Proofs.NameLookup
import SnoopDos.Proofs.ProgramCalls

/-! What `cat` and `ls` show, whatever the rest of the system does between their
calls: `cat` the file that its argument names, `ls` the names of the directory. -/

namespace SnoopDos

open Kernel UserMem Command

/-- Entry `e` is the first that a call with this name finds. -/
def Fs.Finds (fs : Fs) (name : List UInt8) (e : ℕ) : Prop :=
  e < fs.direntries.toInt.toNat ∧ name.take FILE_NAME_SIZE = (fs.files e).name ∧
    ∀ e' < e, name.take FILE_NAME_SIZE ≠ (fs.files e').name

def Fs.Lacks (fs : Fs) (name : List UInt8) : Prop :=
  ∀ e < fs.direntries.toInt.toNat, name.take FILE_NAME_SIZE ≠ (fs.files e).name

/-- The string constants lie in the program's image, away from its local array. -/
structure World.HoldsTexts (w : World) (texts : List (List UInt8)) (buf : Addr) (n : ℕ)
    (bytes : Addr → UInt8) : Prop where
  spans : ∀ s ∈ texts, Spans (w.constant s) (s.length + 1)
  apart : ∀ s ∈ texts, Apart (w.constant s) (s.length + 1) buf n
  holds : ∀ s ∈ texts, HoldsName ⟨bytes, []⟩ (w.constant s) s

/-- A program that `execute` has started and that has opened nothing itself. -/
structure Process.Fresh (p : Process) : Prop where
  tracks : Tracks {0, 1} p.kernel.fds
  stdout : OpenAs p.kernel.fds 1 .terminal

section Names

variable {fs : Fs} {u : UserMem} {a : Addr} {name : List UInt8}

theorem Fs.Finds.firstMatch {e : ℕ} (h : fs.Finds name e) (hnul : NulFree name)
    (hname : HoldsName u a name) : fs.FirstMatch u a e := by
  have hfield := fieldString_take_of_holdsName hname hnul FILE_NAME_SIZE
  refine ⟨h.1, (entryMatches_iff fs u a e).mpr (hfield.trans h.2.1), fun e' he' hmatch => ?_⟩
  exact h.2.2 e' he' (hfield.symm.trans ((entryMatches_iff fs u a e').mp hmatch))

theorem Fs.Lacks.no_match (h : fs.Lacks name) (hnul : NulFree name) (hname : HoldsName u a name) :
    ∀ e < fs.direntries.toInt.toNat, ¬ fs.EntryMatches u a e := by
  intro e he hmatch
  have hfield := fieldString_take_of_holdsName hname hnul FILE_NAME_SIZE
  exact h e he (hfield.symm.trans ((entryMatches_iff fs u a e).mp hmatch))

theorem HoldsName.congr {u' : UserMem} (h : HoldsName u a name)
    (heq : ∀ j ≤ name.length, charAt u' a j = charAt u a j) : HoldsName u' a name :=
  fun j hj => (heq j hj).trans (h j hj)

end Names

section Calls

variable {w : World} {p : Process} {buf : Addr} {n : ℕ} {texts : List (List UInt8)}

theorem World.HoldsTexts.changed {bytes bytes' : Addr → UInt8} (h : w.HoldsTexts texts buf n bytes)
    (hbuf : Spans buf n) (hchanged : ChangedIn buf n bytes bytes') :
    w.HoldsTexts texts buf n bytes' := by
  refine ⟨h.spans, h.apart, fun s hs => (h.holds s hs).congr fun j hj => ?_⟩
  have hcell : charAt ⟨bytes', []⟩ (w.constant s) j = charAt ⟨bytes, []⟩ (w.constant s) j :=
    ChangedIn.charAt hchanged (h.apart s hs) hbuf (h.spans s hs) (by omega)
  exact hcell

theorem strlen_returns {s : Addr} {l : List UInt8} (hname : HoldsName p.user s l) (hnul : NulFree l)
    (hlen : l.length < 2 ^ 32) :
    Returns (ece391Strlen s) p fun len p' =>
      len = l.length ∧ p.Goes [] p.kernel.fds p.user.bytes p' := by
  have hget (j : ℕ) (hj : j < l.length) : charAt p.user s j = l[j] := by
    rw [hname j hj.le, List.getD_eq_getElem?_getD, List.getElem?_eq_getElem hj, Option.getD_some]
  have hrun := strlen_user_fst p.user s (Nat.zero_le l.length) (show l.length < 0 + 2 ^ 32 by omega)
    (fun j _ hj => by
      rw [hget j hj]
      exact fun hnull => hnul (hnull ▸ List.getElem_mem hj))
    (by rw [hname _ le_rfl, List.getD_eq_getElem?_getD, List.getElem?_eq_none le_rfl, Option.getD_none])
  refine (returns_inMemory? hrun).mono fun len p' h => ⟨h.1, ?_⟩
  rw [strlen_user_bytes] at h
  exact h.2

theorem World.fdputs_returns (hw : w.SparesFds) (hout : OpenAs p.kernel.fds 1 .terminal) {s : Addr}
    {l : List UInt8} (hspan : Spans s (l.length + 1)) (hname : HoldsName p.user s l)
    (hnul : NulFree l) : Returns (w.ece391Fdputs 1#32 s) p fun _ p' =>
      p.Goes l p.kernel.fds p.user.bytes p' := by
  have hhi := hspan.hi
  simp only [WINDOW_END, TASK_VIRTUAL_BASE_ADDRESS, LITERAL_4MB] at hhi
  have hnat : (BitVec.ofNat 32 l.length).toNat = l.length := by
    rw [BitVec.toNat_ofNat]
    omega
  refine (strlen_returns hname hnul (by omega)).bind fun len p₁ h₁ => ?_
  obtain ⟨rfl, hgo₁⟩ := h₁
  have hint : 0 ≤ (BitVec.ofNat 32 l.length).toInt := by
    rw [BitVec.toInt_eq_toNat_of_lt (by omega)]
    omega
  refine (World.write_returns hw (by rwa [hgo₁.fds]) (hspan.inWindow (by omega)) _ hint).bind
    fun ret p₂ h₂ => returns_pure ?_
  have hsame : charAt p₁.user s = charAt p.user s := by
    funext j
    rw [charAt, hgo₁.bytes]
    rfl
  have hgo := hgo₁.trans h₂.2
  rw [hnat, hsame, fieldString_take_of_holdsName hname hnul, List.take_length, hgo₁.fds, hgo₁.bytes] at hgo
  exact hgo

theorem World.complain_returns {α : Type} (hw : w.SparesFds) (hout : OpenAs p.kernel.fds 1 .terminal)
    (hholds : w.HoldsTexts texts buf n p.user.bytes) {s : List UInt8} (hs : s ∈ texts)
    (hnul : NulFree s) (a : α) : Returns (w.complain s a) p fun a' p' =>
      a' = a ∧ p.Goes s p.kernel.fds p.user.bytes p' :=
  (World.fdputs_returns hw hout (hholds.spans s hs) (hholds.holds s hs) hnul).bind
    fun _ _ h => returns_pure ⟨rfl, h⟩

end Calls

/-- From `p` to `p'` the program has opened entry `e` on descriptor `i`. -/
structure Process.Opens (p : Process) (w : World) (opened : Finset ℕ) (e i : ℕ) (table : FopsTable)
    (p' : Process) : Prop where
  goes : p.Goes [] p'.kernel.fds p.user.bytes p'
  file : OpenAs p'.kernel.fds i table
  position : (p'.kernel.fds i).position = 0#32
  inode : (w.fs.files e).filetype = FILETYPE_REGULAR →
    (p'.kernel.fds i).inode = getInodePtr w.fs (w.fs.files e).inode
  tracks : Tracks (insert i opened) p'.kernel.fds
  others : ∀ j ≠ i, p'.kernel.fds j = p.kernel.fds j

section Entries

variable {w : World} {p p' : Process} {opened : Finset ℕ} {e i : ℕ} {table : FopsTable}

theorem typed_of_tableOf {filetype : Word} (h : tableOf filetype = some table) :
    filetype = FILETYPE_DEVICE ∨ filetype = FILETYPE_DIRECTORY ∨ filetype = FILETYPE_REGULAR := by
  rw [tableOf] at h
  split_ifs at h with h0 h1 h2
  · exact Or.inl h0
  · exact Or.inr (Or.inl h1)
  · exact Or.inr (Or.inr h2)

theorem World.opens_returns (hw : w.SparesFds) (htracks : Tracks opened p.kernel.fds)
    {filename : Addr} (hin : inWindow filename) (hmatch : w.fs.FirstMatch p.user filename e)
    (htable : tableOf (w.fs.files e).filetype = some table) (hi : LeastFree opened i) :
    Returns (w.ece391Open filename) p fun ret p' =>
      ret = BitVec.ofNat 32 i ∧ p.Opens w opened e i table p' := by
  have htyped := typed_of_tableOf htable
  refine (World.open_returns hw htracks hin hmatch htyped hi).mono fun ret p' h => ?_
  obtain ⟨rfl, hgo⟩ := h
  obtain ⟨htable', hnull⟩ := tableOf_openedFd w.fs (p.kernel.fds i) htyped
  have hself : p'.kernel.fds i = openedFd w.fs (w.fs.files e) (p.kernel.fds i) := by
    rw [hgo.fds, Function.update_self]
  refine ⟨rfl, ⟨hgo.shown, rfl, hgo.args, hgo.bytes⟩, ⟨hi.2.1, ?_, ?_⟩, ?_, fun hregular => ?_, ?_,
    fun j hj => ?_⟩
  · rw [hself]
    exact show (1#32 : Word) &&& 1#32 ≠ 0#32 by decide
  · rw [hself]
    exact Option.some.inj (htable'.symm.trans htable)
  · rw [hself]
    rfl
  · rw [hself]
    exact if_neg (not_not.mpr hregular)
  · rw [hgo.fds]
    exact htracks.insert hi.2.1 _ rfl hnull
  · rw [hgo.fds, Function.update_of_ne hj]

/-- The inode of a regular file is found again when its index is below 128. -/
theorem Process.Opens.number (h : p.Opens w opened e i table p')
    (hregular : (w.fs.files e).filetype = FILETYPE_REGULAR)
    (hlt : (w.fs.files e).inode.toNat < 128) (hvalid : w.fs.ValidFile (w.fs.files e).inode.toNat) :
    (getInodeNum w.fs (p'.kernel.fds i).inode).toNat = (w.fs.files e).inode.toNat := by
  rw [h.inode hregular, (getInodeNum_eq_iff hvalid.inode_lt).mpr (Or.inl hlt)]

theorem Process.Opens.openAs (h : p.Opens w opened e i table p') {fd : ℕ} (hne : fd ≠ i)
    {table' : FopsTable} (hfd : OpenAs p.kernel.fds fd table') : OpenAs p'.kernel.fds fd table' :=
  hfd.congr (h.others fd hne)

/-- From `p` to `p'` the program has read entry `c` of the directory, which has a name. -/
structure Process.ReadsEntry (p : Process) (w : World) (buf : Addr) (fd c : ℕ) (cnt : Word)
    (p' : Process) : Prop where
  lt : c < w.fs.direntries.toNat
  named : (w.fs.files c).name ≠ []
  count : cnt = BitVec.ofNat 32 (w.fs.files c).name.length
  chars : ∀ j < FILE_NAME_SIZE, charAt p'.user buf j = (w.fs.files c).name.getD j NULL_CHAR
  changed : ChangedIn buf 32 p.user.bytes p'.user.bytes
  goes : p.Goes [] (withPosition p.kernel.fds fd (BitVec.ofNat 32 (c + 1))) p'.user.bytes p'

theorem World.next_entry_returns (hw : w.SparesFds) {buf : Addr} (hin : inWindow buf)
    (hcount : w.fs.direntries.toNat ≤ NUM_FILES_CAP) {fd c : ℕ}
    (hdir : OpenAs p.kernel.fds fd .directory)
    (hpos : (p.kernel.fds fd).position = BitVec.ofNat 32 c) (hle : c ≤ w.fs.direntries.toNat) :
    Returns (w.ece391Read (BitVec.ofNat 32 fd) buf 32#32) p fun cnt p' =>
      (cnt = 0#32 ∧ p'.shown = p.shown ∧
        (c < w.fs.direntries.toNat → (w.fs.files c).name = [])) ∨
      p.ReadsEntry w buf fd c cnt p' := by
  have hnat : (BitVec.ofNat 32 fd).toNat = fd := (ofNat_toNat_of_lt hdir.lt).1
  have hint := direntries_toInt w.fs hcount
  rcases hle.eq_or_lt with hdone | hmore
  · refine (World.read_directory_end hw (BitVec.ofNat 32 fd) (by rwa [hnat]) hin 32#32 ?_).mono
      fun cnt p' h => Or.inl ⟨h.1, by rw [h.2.shown, List.append_nil], fun hlt => by omega⟩
    rw [hnat, hpos, hdone, BitVec.ofNat_toNat, BitVec.setWidth_eq]
  · refine (World.read_entry_returns hw (BitVec.ofNat 32 fd) (by rwa [hnat]) hin (by rwa [hnat])
      (hmore.trans_le hcount) (by omega)).mono fun cnt p' h => ?_
    obtain ⟨hcnt, hchars, bytes, hchanged, hgo⟩ := h
    rw [hnat] at hgo
    by_cases hempty : (w.fs.files c).name = []
    · exact Or.inl ⟨by rw [hcnt, hempty, List.length_nil], by rw [hgo.shown, List.append_nil],
        fun _ => hempty⟩
    · exact Or.inr ⟨hmore, hempty, hcnt, hchars, hgo.bytes ▸ hchanged,
        ⟨hgo.shown, hgo.fds, hgo.args, rfl⟩⟩

variable {buf : Addr} {fd c : ℕ} {cnt : Word}

theorem Process.ReadsEntry.count_toNat (h : p.ReadsEntry w buf fd c cnt p') :
    cnt.toNat = (w.fs.files c).name.length ∧ 0 < cnt.toNat ∧ cnt.toNat ≤ FILE_NAME_SIZE := by
  have hle : (w.fs.files c).name.length ≤ FILE_NAME_SIZE := fieldString_length_le _ _
  have hpos : 0 < (w.fs.files c).name.length := List.length_pos_iff.mpr h.named
  have hnat : cnt.toNat = (w.fs.files c).name.length := by
    rw [h.count, BitVec.toNat_ofNat]
    simp only [FILE_NAME_SIZE] at hle
    omega
  exact ⟨hnat, hnat ▸ hpos, hnat ▸ hle⟩

theorem Process.ReadsEntry.count_ne (h : p.ReadsEntry w buf fd c cnt p') :
    cnt ≠ 0#32 ∧ cnt ≠ -1#32 := by
  obtain ⟨-, hpos, hle⟩ := h.count_toNat
  simp only [FILE_NAME_SIZE] at hle
  refine ⟨?_, ne_failure_of_lt (by omega)⟩
  rintro rfl
  exact absurd hpos (by decide)

theorem Process.ReadsEntry.charAt_store (h : p.ReadsEntry w buf fd c cnt p') (d : UInt8)
    {u : UserMem} (hu : u.bytes = (UserMem.store (buf + cnt) d p'.user).2.bytes) {j : ℕ}
    (hj : j ≤ (w.fs.files c).name.length) :
    charAt u buf j = ((w.fs.files c).name ++ [d]).getD j NULL_CHAR := by
  obtain ⟨hnat, -, hle⟩ := h.count_toNat
  simp only [FILE_NAME_SIZE] at hle
  have hcell : buf + cnt = buf + BitVec.ofNat 32 (w.fs.files c).name.length := by rw [h.count]
  have hstored : charAt u buf j =
      charAt (UserMem.store (buf + BitVec.ofNat 32 (w.fs.files c).name.length) d p'.user).2 buf j := by
    rw [charAt, hu, hcell]
    rfl
  rw [hstored, SnoopDos.charAt_store _ _ (by omega) (by omega)]
  rcases hj.eq_or_lt with rfl | hlt
  · rw [if_pos rfl, List.getD_eq_getElem?_getD, List.getElem?_append_right le_rfl, Nat.sub_self]
    rfl
  · rw [if_neg hlt.ne, h.chars j (by simp only [FILE_NAME_SIZE]; omega),
      List.getD_eq_getElem?_getD, List.getD_eq_getElem?_getD, List.getElem?_append_left hlt]

end Entries

section Cat

/-- The text before the first NUL of kilobyte `c` of a file. -/
def kilobyteText (l : List UInt8) (c : ℕ) : List UInt8 :=
  ((l.drop (1024 * c)).take 1024).takeWhile (· ≠ NULL_CHAR)

/-- What `cat` shows of a file: of every kilobyte the text before its first NUL. -/
def catText (l : List UInt8) : List UInt8 :=
  (List.range (l.length / 1024 + 1)).flatMap (kilobyteText l)

/-- A file without NULs is shown as it is. -/
theorem catText_of_nulFree {l : List UInt8} (hnul : NulFree l) : catText l = l := by
  have hpieces (m : ℕ) : (List.range m).flatMap (kilobyteText l) = l.take (1024 * m) := by
    induction m with
    | zero => rfl
    | succ m ih =>
      have hblock : kilobyteText l m = (l.drop (1024 * m)).take 1024 := by
        refine List.takeWhile_eq_self_iff.mpr fun c hc => decide_eq_true fun hnull => hnul ?_
        exact hnull ▸ List.mem_of_mem_drop (List.mem_of_mem_take hc)
      rw [List.range_succ, List.flatMap_append, ih, List.flatMap_singleton, hblock, Nat.mul_succ,
        List.take_add]
  rw [catText, hpieces]
  exact List.take_of_length_le (by omega)

variable {w : World}

/-- Where `cat` is before round `c`: it has read and shown `c` kilobytes. -/
structure CatAt (w : World) (p : Process) (fd inode : ℕ) (c : ℕ) (p' : Process) : Prop where
  file : OpenAs p'.kernel.fds fd .regularFile
  stdout : OpenAs p'.kernel.fds 1 .terminal
  number : (getInodeNum w.fs (p'.kernel.fds fd).inode).toNat = inode
  position : (p'.kernel.fds fd).position =
    BitVec.ofNat 32 (min (1024 * c) (w.fs.contents inode).length)
  shown : p'.shown = p.shown ++ (List.range c).flatMap (kilobyteText (w.fs.contents inode))

theorem catRound_returns (hw : w.SparesFds) {p : Process} {buf : Addr} (hbuf : Spans buf 1024)
    {fd inode : ℕ} (hvalid : w.fs.ValidFile inode) {c : ℕ} {p₁ : Process}
    (h : CatAt w p fd inode c p₁) :
    Returns (w.catRound (BitVec.ofNat 32 fd) buf) p₁ fun r p₂ =>
      (∀ a, r = .inl a → a = 0#32 ∧ (w.fs.contents inode).length ≤ 1024 * c ∧ p₂.shown = p₁.shown) ∧
      ∀ b, r = .inr b → 1024 * c < (w.fs.contents inode).length ∧ CatAt w p fd inode (c + 1) p₂ := by
  set l := w.fs.contents inode with hl
  have hlen : l.length ≤ 1023 * 4096 := by
    rw [hl, hvalid.contents_length]
    exact hvalid.length_le
  have hnat : (BitVec.ofNat 32 fd).toNat = fd := (ofNat_toNat_of_lt h.file.lt).1
  have hread := World.read_file_returns hw (p := p₁) (BitVec.ofNat 32 fd)
    (by rw [hnat]; exact h.file) (hbuf.inWindow (by omega)) 1024#32 (by rw [hnat, h.number]; exact hvalid)
  simp only [hnat, h.number, h.position, ← hl] at hread
  have hpos : (BitVec.ofNat 32 (min (1024 * c) l.length)).toNat = min (1024 * c) l.length := by
    rw [BitVec.toNat_ofNat]
    omega
  refine hread.bind fun cnt p₂ h₂ => ?_
  obtain ⟨hcnt, hbytes, bytes, -, hgo⟩ := h₂
  rw [hpos, show (1024#32 : Word).toNat = 1024 from rfl] at hcnt
  have hcnt' : cnt.toNat = min 1024 (l.length - min (1024 * c) l.length) := by
    rw [hcnt, BitVec.toNat_ofNat]
    omega
  by_cases hmore : 1024 * c < l.length
  · have hzero : cnt ≠ 0#32 := fun hz => by
      rw [hz, BitVec.toNat_zero] at hcnt'
      omega
    have hfail : cnt ≠ -1#32 := ne_failure_of_lt (by omega)
    rw [if_neg hzero, if_neg hfail]
    have hint : 0 ≤ cnt.toInt := by
      rw [BitVec.toInt_eq_toNat_of_lt (by omega)]
      omega
    have hout : OpenAs p₂.kernel.fds 1 .terminal := by
      rw [hgo.fds]
      exact h.stdout.withPosition _ _
    refine (World.write_returns hw hout (hbuf.inWindow (by omega)) cnt hint).bind fun ret p₃ h₃ => ?_
    obtain ⟨hret, hgo₃⟩ := h₃
    rw [hret, if_neg hfail]
    refine returns_pure ⟨fun a ha => by simp at ha, fun b _ => ⟨hmore, ?_⟩⟩
    have hfds : p₃.kernel.fds = withPosition p₁.kernel.fds fd
        (BitVec.ofNat 32 (min (1024 * c) l.length) + cnt) := hgo₃.fds.trans hgo.fds
    have htext : fieldString (charAt p₂.user buf) cnt.toNat = kilobyteText l c := by
      have htake : fieldString (charAt p₂.user buf) cnt.toNat =
          (returned p₂.user buf cnt).takeWhile (· ≠ NULL_CHAR) := rfl
      rw [htake, hbytes, hpos, min_eq_left hmore.le]
      rfl
    refine ⟨?_, ?_, ?_, ?_, ?_⟩
    · rw [hfds]
      exact h.file.withPosition _ _
    · rw [hfds]
      exact h.stdout.withPosition _ _
    · rw [hfds, withPosition, Function.update_self]
      exact h.number
    · rw [hfds, withPosition, Function.update_self]
      refine BitVec.eq_of_toNat_eq ?_
      rw [BitVec.toNat_add, hpos, hcnt', BitVec.toNat_ofNat, ← hl]
      omega
    · rw [hgo₃.shown, hgo.shown, h.shown, htext, List.append_nil, List.range_succ,
        List.flatMap_append, List.flatMap_singleton, List.append_assoc]
  · have hzero : cnt = 0#32 := BitVec.eq_of_toNat_eq (by rw [hcnt', BitVec.toNat_zero]; omega)
    rw [if_pos hzero]
    refine returns_pure ⟨fun a ha => ⟨(Sum.inl.inj ha).symm, by omega, ?_⟩, fun b hb => by simp at hb⟩
    rw [hgo.shown, List.append_nil]

theorem catLoop_returns (hw : w.SparesFds) {p : Process} {buf : Addr} (hbuf : Spans buf 1024)
    {fd inode : ℕ} (hvalid : w.fs.ValidFile inode) {p₁ : Process}
    (h : CatAt w p fd inode 0 p₁) {fuel : ℕ} (hfuel : (w.fs.contents inode).length / 1024 + 1 < fuel) :
    Returns (Command.loop (fun _ => w.catRound (BitVec.ofNat 32 fd) buf) fuel ()) p₁ fun r p₂ =>
      r = 0#32 ∧ p₂.shown = p.shown ++ catText (w.fs.contents inode) := by
  set l := w.fs.contents inode with hl
  refine returns_loop (fun n _ p' => ∃ c, n + c = l.length / 1024 + 1 ∧ CatAt w p fd inode c p')
    (fun n b p' hdone => ?_) hfuel ⟨0, rfl, h⟩
  obtain ⟨c, hn, hc⟩ := hdone
  refine (catRound_returns hw hbuf hvalid hc).mono fun r p₂ hr => ⟨fun a ha => ?_, fun b hb => ?_⟩
  · obtain ⟨rfl, hend, hshown⟩ := hr.1 a ha
    refine ⟨rfl, ?_⟩
    have hsplit : l.length / 1024 + 1 = c + n := by omega
    rw [hshown, hc.shown, catText, hsplit, List.range_add, List.flatMap_append]
    have hnone : ((List.range n).map (c + ·)).flatMap (kilobyteText l) = [] := by
      refine List.flatMap_eq_nil_iff.mpr fun d hd => ?_
      obtain ⟨d', -, rfl⟩ := List.mem_map.mp hd
      rw [kilobyteText, List.drop_eq_nil_of_le (by rw [← hl] at hend; omega)]
      rfl
    rw [hnone, List.append_nil]
  · obtain ⟨hmore, hnext⟩ := hr.2 b hb
    exact ⟨n - 1, by rw [← hl] at hmore; omega, c + 1, by rw [← hl] at hmore; omega, hnext⟩

/-- `cat` shows the file that its argument names and exits with 0. A name that is not in
the directory makes it exit with 2. -/
theorem cat_shows (w : World) (hw : w.SparesFds) (p : Process) (hp : p.Fresh) (name : List UInt8)
    (hargs : p.kernel.currentPcb.args = some name) (hnul : NulFree name) (hlen : name.length < 1024)
    (buf : Addr) (hbuf : Spans buf 1024) (fuel : ℕ) :
    (∀ e, w.fs.Finds name e → (w.fs.files e).filetype = FILETYPE_REGULAR →
      (w.fs.files e).inode.toNat < 128 → w.fs.ValidFile (w.fs.files e).inode.toNat →
      (w.fs.contents (w.fs.files e).inode.toNat).length / 1024 + 1 < fuel →
      Returns (w.catMain buf fuel) p fun r p' => r = 0#32 ∧
        p'.shown = p.shown ++ catText (w.fs.contents (w.fs.files e).inode.toNat)) ∧
    (w.fs.Lacks name → w.HoldsTexts [FILE_NOT_FOUND] buf 1024 p.user.bytes →
      Returns (w.catMain buf fuel) p fun r p' => r = 2#32 ∧ p'.shown = p.shown ++ FILE_NOT_FOUND) := by
  have hin := hbuf.inWindow (by omega)
  have hgetargs := World.getargs_returns hw hargs hnul hin 1024#32
    (by rw [show (1024#32 : Word).toInt = 1024 from rfl]; omega)
  refine ⟨fun e hfinds hregular hinode hvalid hfuel => ?_, fun hlacks hholds => ?_⟩
  · refine hgetargs.bind fun r p₁ h₁ => ?_
    obtain ⟨rfl, hname, bytes, -, hgo₁⟩ := h₁
    rw [if_neg (by decide)]
    refine (World.opens_returns hw (by rw [hgo₁.fds]; exact hp.tracks) hin
      (hfinds.firstMatch hnul hname) (by rw [hregular]; rfl)
      leastFree_two).bind fun fd p₂ h₂ => ?_
    obtain ⟨rfl, hopens⟩ := h₂
    rw [if_neg (by decide)]
    have hout : OpenAs p₂.kernel.fds 1 .terminal :=
      hopens.openAs (by decide) (by rw [hgo₁.fds]; exact hp.stdout)
    refine catLoop_returns hw hbuf hvalid ⟨hopens.file, hout, hopens.number hregular hinode hvalid,
      hopens.position, ?_⟩ hfuel
    rw [hopens.goes.shown, hgo₁.shown, List.append_nil]
    rfl
  · refine hgetargs.bind fun r p₁ h₁ => ?_
    obtain ⟨rfl, hname, bytes, hchanged, hgo₁⟩ := h₁
    rw [if_neg (by decide)]
    refine (World.open_missing hw hin (hlacks.no_match hnul hname)).bind fun fd p₂ h₂ => ?_
    obtain ⟨rfl, hgo₂⟩ := h₂
    rw [if_pos (show FAILURE = -1#32 from rfl)]
    have hholds₂ : w.HoldsTexts [FILE_NOT_FOUND] buf 1024 p₂.user.bytes := by
      rw [hgo₂.bytes, hgo₁.bytes]
      exact hholds.changed hbuf hchanged
    have hout : OpenAs p₂.kernel.fds 1 .terminal := by
      rw [hgo₂.fds, hgo₁.fds]
      exact hp.stdout
    refine (World.complain_returns hw hout hholds₂ List.mem_cons_self (by decide) 2#32).mono
      fun r p' h => ⟨h.1, ?_⟩
    rw [h.2.shown, hgo₂.shown, hgo₁.shown, List.append_nil, List.append_nil]

theorem leastFree_three : LeastFree {0, 1, 2} 3 := by
  refine ⟨by decide, by decide, by decide, fun j hmin hj => ?_⟩
  rw [MIN_FD_PER_PROCESS] at hmin
  obtain rfl : j = 2 := by omega
  decide

/-- An image with a directory `.` and a file `a` that holds `"hi\n"`. -/
def docsFs : Fs where
  image a := (List.lookup a
    [(0, 2), (4, 1), (8, 1), (64, 46), (96, 1), (128, 97), (160, 2), (4096, 3), (8192, 104),
     (8193, 105), (8194, 10)]).getD 0
  inodesAddr := 0x441000#32

/-- Programs on that image that nothing interrupts, with their constants at the start of
their pages. -/
def docsWorld : World where
  fs := docsFs
  constant text := if text = DOT then 0x8050100#32 else if text = COLON then 0x8050102#32
    else if text = LINE_BREAK then 0x8050104#32 else 0x8050000#32
  before _ k := k
  stdin _ _ := NULL_CHAR

/-- Memory that holds those constants. -/
def docsBytes (a : Addr) : UInt8 :=
  if a = 0x8050100#32 then 46 else if a = 0x8050102#32 then 58 else if a = 0x8050104#32 then 10
  else FILE_NOT_FOUND.getD (a - 0x8050000#32).toNat NULL_CHAR

/-- The first process with arguments of its own. -/
def docsProcess (args : List UInt8) : Process where
  kernel := shellKernel.setPcb shellKernel.pcbCurr fun p => { p with args := some args }
  user := ⟨docsBytes, []⟩
  calls := 0
  shown := []

theorem docsWorld_quiet : docsWorld.SparesFds := ⟨fun _ _ => rfl, fun _ _ => rfl⟩

theorem docsProcess_pcb (args : List UInt8) :
    (docsProcess args).kernel.currentPcb = { shellKernel.currentPcb with args := some args } :=
  Function.update_self _ _ _

theorem docsProcess_fresh (args : List UInt8) : (docsProcess args).Fresh := by
  have hfds : (docsProcess args).kernel.fds = shellKernel.fds :=
    (congrArg Pcb.fdArray (docsProcess_pcb args)).trans rfl
  refine ⟨?_, ?_⟩
  · rw [hfds]
    exact shellKernel_starts.tracks
  · rw [hfds]
    exact ⟨by decide, by decide, by decide⟩

theorem docsFs_validFile : docsFs.ValidFile 0 where
  inode_lt := by decide
  length_le := by decide
  block_lt b hb := by
    rw [show (docsFs.length 0).toNat = 3 by decide] at hb
    obtain rfl : b = 0 := by
      rw [FS_BLOCK_LENGTH] at hb
      omega
    decide
  datablocks_le := by decide

theorem spans_docs {p : Addr} {n : ℕ} (hlo : 0x8050000 ≤ p.toNat) (hhi : p.toNat + n ≤ 0x8060000) :
    Spans p n :=
  ⟨by rw [TASK_VIRTUAL_BASE_ADDRESS]; omega, by
    rw [WINDOW_END, TASK_VIRTUAL_BASE_ADDRESS, LITERAL_4MB]
    omega⟩

theorem docsWorld_holds (args : List UInt8) {buf : Addr} (hbuf : 0x8051000 ≤ buf.toNat) (n : ℕ)
    {texts : List (List UInt8)} (htexts : texts ⊆ [FILE_NOT_FOUND, DOT, COLON, LINE_BREAK]) :
    docsWorld.HoldsTexts texts buf n (docsProcess args).user.bytes := by
  have hends : ∀ t ∈ [FILE_NOT_FOUND, DOT, COLON, LINE_BREAK],
      0x8050000 ≤ (docsWorld.constant t).toNat ∧
        (docsWorld.constant t).toNat + (t.length + 1) ≤ 0x8051000 := by decide
  have hcells : ∀ t ∈ [FILE_NOT_FOUND, DOT, COLON, LINE_BREAK], ∀ j ≤ t.length,
      docsBytes (docsWorld.constant t + BitVec.ofNat 32 j) = t.getD j NULL_CHAR := by decide
  refine ⟨fun t ht => ?_, fun t ht => ?_, fun t ht => hcells t (htexts ht)⟩
  · obtain ⟨hlo, hhi⟩ := hends t (htexts ht)
    exact spans_docs hlo (by omega)
  · exact Or.inl ((hends t (htexts ht)).2.trans hbuf)

theorem docsFs_contents : docsFs.contents 0 = [104, 105, 10] := by
  have hlen : (docsFs.contents 0).length = 3 := by
    rw [docsFs_validFile.contents_length]
    decide
  have hbyte : ∀ i < 3, docsFs.fileByte 0 i = [104, 105, 10].getD i NULL_CHAR := by decide
  refine List.ext_getElem (hlen.trans rfl) fun i hi h3 => ?_
  rw [Fs.contents_getElem, hbyte i h3, List.getD_eq_getElem?_getD, List.getElem?_eq_getElem h3,
    Option.getD_some]

theorem cat_shows_docs :
    Returns (docsWorld.catMain 0x8051000#32 10) (docsProcess [97]) (fun r p' =>
      r = 0#32 ∧ p'.shown = [104, 105, 10]) ∧
    Returns (docsWorld.catMain 0x8051000#32 10) (docsProcess [98]) fun r p' =>
      r = 2#32 ∧ p'.shown = FILE_NOT_FOUND := by
  have hargs (args : List UInt8) : (docsProcess args).kernel.currentPcb.args = some args := by
    rw [docsProcess_pcb]
  have hcontents : docsFs.contents (docsFs.files 1).inode.toNat = [104, 105, 10] := docsFs_contents
  refine ⟨?_, ?_⟩
  · have hshows := (cat_shows docsWorld docsWorld_quiet (docsProcess [97]) (docsProcess_fresh [97])
      [97] (hargs _) (by decide) (by decide) 0x8051000#32 (spans_docs (by decide) (by decide)) 10).1
      1 ⟨by decide, by decide, fun e' he' => by
        obtain rfl : e' = 0 := by omega
        decide⟩ (by decide) (by decide) docsFs_validFile
    rw [show docsWorld.fs = docsFs from rfl, hcontents] at hshows
    exact hshows (by decide)
  · exact (cat_shows docsWorld docsWorld_quiet (docsProcess [98]) (docsProcess_fresh [98]) [98]
      (hargs _) (by decide) (by decide) 0x8051000#32 (spans_docs (by decide) (by decide)) 10).2
      (fun e he => by
        obtain rfl | rfl : e = 0 ∨ e = 1 := by
          rw [show docsWorld.fs.direntries.toInt.toNat = 2 by decide] at he
          omega
        · decide
        · decide) (docsWorld_holds [98] (by decide) 1024 (by simp))

end Cat

section Ls

/-- What `ls` shows of a directory: the names up to the first empty one, a line each. -/
def lsText (fs : Fs) : List UInt8 :=
  ((List.range fs.direntries.toNat).takeWhile fun e => (fs.files e).name ≠ []).flatMap
    fun e => (fs.files e).name ++ [NEW_LINE]

variable {w : World} {fs : Fs}

theorem takeWhile_range {q : ℕ → Bool} {c n : ℕ} (hle : c ≤ n) (h : ∀ i < c, q i = true)
    (hend : c < n → q c = false) : (List.range n).takeWhile q = List.range c := by
  have hall : (List.range c).takeWhile q = List.range c :=
    List.takeWhile_eq_self_iff.mpr fun i hi => h i (List.mem_range.mp hi)
  rcases hle.eq_or_lt with rfl | hlt
  · exact hall
  · obtain ⟨d, rfl⟩ : ∃ d, n = c + (d + 1) := ⟨n - c - 1, by omega⟩
    rw [List.range_add, List.takeWhile_append, hall, if_pos rfl, List.range_succ_eq_map,
      List.map_cons, List.takeWhile_cons_of_neg (by rw [Nat.add_zero, hend hlt]; decide),
      List.append_nil]

theorem lsText_eq {c : ℕ} (hle : c ≤ fs.direntries.toNat) (hnames : ∀ i < c, (fs.files i).name ≠ [])
    (hend : c < fs.direntries.toNat → (fs.files c).name = []) :
    lsText fs = (List.range c).flatMap fun i => (fs.files i).name ++ [NEW_LINE] := by
  rw [lsText, takeWhile_range hle (fun i hi => decide_eq_true (hnames i hi))
    fun hlt => decide_eq_false (not_not.mpr (hend hlt))]

/-- Where `ls` is before round `c`: it has shown the names of `c` entries. -/
structure LsAt (w : World) (p : Process) (fd c : ℕ) (p' : Process) : Prop where
  directory : OpenAs p'.kernel.fds fd .directory
  stdout : OpenAs p'.kernel.fds 1 .terminal
  position : (p'.kernel.fds fd).position = BitVec.ofNat 32 c
  le : c ≤ w.fs.direntries.toNat
  names : ∀ i < c, (w.fs.files i).name ≠ []
  shown : p'.shown = p.shown ++ (List.range c).flatMap fun i => (w.fs.files i).name ++ [NEW_LINE]

theorem lsName_returns (hw : w.SparesFds) {p₁ p₂ : Process} {buf : Addr} (hbuf : Spans buf 33)
    {fd c : ℕ} {cnt : Word} (hout : OpenAs p₁.kernel.fds 1 .terminal)
    (h : p₁.ReadsEntry w buf fd c cnt p₂) :
    Returns (do
      inMemory (UserMem.store (buf + cnt) NEW_LINE)
      let r ← w.ece391Write 1#32 buf (cnt + 1#32)
      if r = -1#32 then pure (.inl 3#32) else pure (.inr ()) : Command Process (Word ⊕ Unit)) p₂
      fun r p' => r = .inr () ∧ p'.kernel.fds = withPosition p₁.kernel.fds fd (BitVec.ofNat 32 (c + 1)) ∧
        p'.shown = p₁.shown ++ ((w.fs.files c).name ++ [NEW_LINE]) := by
  obtain ⟨hnat, -, hle⟩ := h.count_toNat
  simp only [FILE_NAME_SIZE] at hle
  have hgo := h.goes
  have hsucc : (cnt + 1#32).toNat = (w.fs.files c).name.length + 1 := by
    rw [BitVec.toNat_add, hnat]
    simp only [BitVec.toNat_ofNat]
    omega
  refine (returns_inMemory (UserMem.store (buf + cnt) NEW_LINE) p₂).bind fun _ p₃ h₃ => ?_
  have hgo₃ := h₃.2
  have hout₃ : OpenAs p₃.kernel.fds 1 .terminal := by
    rw [hgo₃.fds, hgo.fds]
    exact hout.withPosition _ _
  have htext : fieldString (charAt p₃.user buf) (cnt + 1#32).toNat =
      (w.fs.files c).name ++ [NEW_LINE] := by
    have hlen : ((w.fs.files c).name ++ [NEW_LINE]).length = (w.fs.files c).name.length + 1 := by
      rw [List.length_append, List.length_singleton]
    refine (eq_fieldString _ _ (by rw [hsucc, hlen]) (fun j hj => ?_) fun hlt => ?_).symm
    · rw [h.charAt_store NEW_LINE hgo₃.bytes (by omega), List.getD_eq_getElem?_getD,
        List.getElem?_eq_getElem hj, Option.getD_some]
      refine ⟨rfl, fun hnull => ?_⟩
      rcases List.mem_append.mp (hnull ▸ List.getElem_mem hj) with hmem | hmem
      · exact fieldString_nulFree _ _ hmem
      · exact absurd (List.mem_singleton.mp hmem) (by decide)
    · rw [hsucc, hlen] at hlt
      exact absurd hlt (lt_irrefl _)
  refine (World.write_returns hw hout₃ (hbuf.inWindow (by omega)) (cnt + 1#32) ?_).bind
    fun ret p₄ h₄ => ?_
  · rw [BitVec.toInt_eq_toNat_of_lt (by omega)]
    omega
  · obtain ⟨hret, hgo₄⟩ := h₄
    rw [if_neg (ne_failure_of_lt (by rw [hret, hsucc]; omega))]
    refine returns_pure ⟨rfl, hgo₄.fds.trans (hgo₃.fds.trans hgo.fds), ?_⟩
    rw [hgo₄.shown, hgo₃.shown, hgo.shown, htext, List.append_nil, List.append_nil]

theorem lsRound_returns (hw : w.SparesFds) {p : Process} {buf : Addr} (hbuf : Spans buf 33)
    (hcount : w.fs.direntries.toNat ≤ NUM_FILES_CAP) {fd c : ℕ} {p₁ : Process}
    (h : LsAt w p fd c p₁) :
    Returns (w.lsRound (BitVec.ofNat 32 fd) buf) p₁ fun r p₂ =>
      (∀ a, r = .inl a → a = 0#32 ∧ p₂.shown = p₁.shown ∧
        (c < w.fs.direntries.toNat → (w.fs.files c).name = [])) ∧
      ∀ b, r = .inr b → c < w.fs.direntries.toNat ∧ LsAt w p fd (c + 1) p₂ := by
  refine (World.next_entry_returns hw (hbuf.inWindow (by omega)) hcount h.directory h.position
    h.le).bind fun cnt p₂ hread => ?_
  rcases hread with ⟨rfl, hshown, hend⟩ | hread
  · rw [if_pos rfl]
    exact returns_pure ⟨fun a ha => ⟨(Sum.inl.inj ha).symm, hshown, hend⟩, fun b hb => by simp at hb⟩
  · rw [if_neg hread.count_ne.1, if_neg hread.count_ne.2]
    refine (lsName_returns hw hbuf h.stdout hread).mono fun r p₃ h₃ => ?_
    obtain ⟨rfl, hfds, hshown⟩ := h₃
    refine ⟨fun a ha => by simp at ha, fun b _ => ⟨hread.lt, ?_, ?_, ?_, hread.lt, fun i hi => ?_, ?_⟩⟩
    · rw [hfds]
      exact h.directory.withPosition _ _
    · rw [hfds]
      exact h.stdout.withPosition _ _
    · rw [hfds, withPosition, Function.update_self]
    · rcases (Nat.lt_succ_iff.mp hi).eq_or_lt with rfl | hlt
      · exact hread.named
      · exact h.names i hlt
    · rw [hshown, h.shown, List.range_succ, List.flatMap_append, List.flatMap_singleton,
        List.append_assoc]

/-- `ls` shows the names of the directory in order, a line each, and exits with 0. -/
theorem ls_shows (w : World) (hw : w.SparesFds) (p : Process) (hp : p.Fresh) (buf : Addr)
    (hbuf : Spans buf 33) (hholds : w.HoldsTexts [DOT] buf 33 p.user.bytes)
    (hcount : w.fs.direntries.toNat ≤ NUM_FILES_CAP) (e : ℕ) (hfinds : w.fs.Finds DOT e)
    (hdir : (w.fs.files e).filetype = FILETYPE_DIRECTORY) (fuel : ℕ)
    (hfuel : w.fs.direntries.toNat < fuel) :
    Returns (w.lsMain buf fuel) p fun r p' => r = 0#32 ∧ p'.shown = p.shown ++ lsText w.fs := by
  have hspan := hholds.spans DOT List.mem_cons_self
  refine (World.opens_returns hw hp.tracks (hspan.inWindow (by omega))
    (hfinds.firstMatch (by decide) (hholds.holds DOT List.mem_cons_self)) (by rw [hdir]; rfl)
    leastFree_two).bind fun fd p₁ h₁ => ?_
  obtain ⟨rfl, hopens⟩ := h₁
  rw [if_neg (by decide)]
  refine returns_loop (fun n _ p' => ∃ c, n + c = w.fs.direntries.toNat ∧ LsAt w p 2 c p')
    (fun n b p' hdone => ?_) hfuel ⟨0, rfl, ?_⟩
  · obtain ⟨c, hn, hc⟩ := hdone
    refine (lsRound_returns hw hbuf hcount hc).mono fun r p₂ hr => ⟨fun a ha => ?_, fun b hb => ?_⟩
    · obtain ⟨rfl, hshown, hend⟩ := hr.1 a ha
      exact ⟨rfl, by rw [hshown, hc.shown, lsText_eq hc.le hc.names hend]⟩
    · obtain ⟨hmore, hnext⟩ := hr.2 b hb
      exact ⟨n - 1, by omega, c + 1, by omega, hnext⟩
  · refine ⟨hopens.file, hopens.openAs (by decide) hp.stdout, hopens.position, Nat.zero_le _,
      fun i hi => by omega, ?_⟩
    rw [hopens.goes.shown]
    rfl

theorem ls_shows_docs : Returns (docsWorld.lsMain 0x8051000#32 10) (docsProcess []) fun r p' =>
    r = 0#32 ∧ p'.shown = [46, 10, 97, 10] := by
  have h := ls_shows docsWorld docsWorld_quiet (docsProcess []) (docsProcess_fresh [])
    0x8051000#32 (spans_docs (by decide) (by decide)) (docsWorld_holds [] (by decide) 33 (by simp)) (by decide)
    0 ⟨by decide, by decide, fun e' he' => by omega⟩ (by decide) 10 (by decide)
  rwa [show lsText docsWorld.fs = [46, 10, 97, 10] by decide] at h

end Ls

end SnoopDos
