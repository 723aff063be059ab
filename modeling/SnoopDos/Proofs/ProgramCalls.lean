import SnoopDos.Proofs.Buffers
import SnoopDos.Proofs.OpenedFiles
import SnoopDos.Proofs.SequentialReads
import SnoopDos.Proofs.UserPointers
import SnoopDos.Spec.Programs

/-! What a program sees of its own calls, one lemma for each call: the value
returned, the memory and the descriptors afterwards, and the text that went to the
terminal. -/

namespace SnoopDos

open Kernel UserMem Command

/-- Between two calls of a program the rest of the system leaves its descriptors and its
arguments alone. -/
structure World.SparesFds (w : World) : Prop where
  fds : ∀ n k, (w.before n k).fds = k.fds
  args : ∀ n k, (w.before n k).currentPcb.args = k.currentPcb.args

/-- From `p` to `p'` the program has sent `text` to its terminal; its descriptors are now
`fds`, and its memory holds `bytes`. -/
structure Process.Goes (p : Process) (text : List UInt8) (fds : ℕ → FileInfo)
    (bytes : Addr → UInt8) (p' : Process) : Prop where
  shown : p'.shown = p.shown ++ text
  fds : p'.kernel.fds = fds
  args : p'.kernel.currentPcb.args = p.kernel.currentPcb.args
  bytes : p'.user.bytes = bytes

section Goes

variable {p p' p'' : Process} {text text' : List UInt8} {fds fds' : ℕ → FileInfo}
  {bytes bytes' : Addr → UInt8}

theorem Process.Goes.trans (h : p.Goes text fds bytes p') (h' : p'.Goes text' fds' bytes' p'') :
    p.Goes (text ++ text') fds' bytes' p'' :=
  ⟨by rw [h'.shown, h.shown, List.append_assoc], h'.fds, h'.args.trans h.args, h'.bytes⟩

theorem Process.goes_inMemory (p : Process) (u : UserMem) :
    p.Goes [] p.kernel.fds u.bytes { p with user := u } :=
  ⟨(List.append_nil _).symm, rfl, rfl, rfl⟩

theorem returns_inMemory {α : Type} (x : User α) (p : Process) :
    Returns (inMemory x) p fun a p' =>
      a = (x p.user).1 ∧ p.Goes [] p.kernel.fds (x p.user).2.bytes p' :=
  ⟨_, _, rfl, rfl, p.goes_inMemory _⟩

theorem returns_inMemory? {α : Type} {x : User (Option α)} {p : Process} {a : α}
    (h : (x p.user).1 = some a) :
    Returns (inMemory? x) p fun a' p' =>
      a' = a ∧ p.Goes [] p.kernel.fds (x p.user).2.bytes p' := by
  refine ⟨a, _, ?_, rfl, p.goes_inMemory (x p.user).2⟩
  rw [inMemory?, h]
  rfl

end Goes

/-- The `n` bytes at `p` lie in the user window. -/
structure Spans (p : Addr) (n : ℕ) : Prop where
  lo : TASK_VIRTUAL_BASE_ADDRESS ≤ p.toNat
  hi : p.toNat + n ≤ WINDOW_END

/-- Two areas of memory have no byte in common. -/
def Apart (p : Addr) (n : ℕ) (q : Addr) (m : ℕ) : Prop :=
  p.toNat + n ≤ q.toNat ∨ q.toNat + m ≤ p.toNat

section Areas

variable {p q : Addr} {n m i : ℕ} {u u' : UserMem}

theorem Spans.toNat_add (h : Spans p n) (hi : i ≤ n) : (p + BitVec.ofNat 32 i).toNat = p.toNat + i := by
  have hhi := h.hi
  simp only [WINDOW_END, TASK_VIRTUAL_BASE_ADDRESS, LITERAL_4MB] at hhi
  rw [BitVec.toNat_add, BitVec.toNat_ofNat]
  omega

theorem Spans.inWindow (h : Spans p n) (hn : 0 < n) : inWindow p :=
  ⟨h.lo, by have := h.hi; unfold WINDOW_END at this; omega⟩

theorem Spans.drop (h : Spans p n) (hi : i ≤ n) : Spans (p + BitVec.ofNat 32 i) (n - i) := by
  have hnat := h.toNat_add hi
  have hlo := h.lo
  have hhi := h.hi
  exact ⟨by omega, by omega⟩

theorem Apart.symm (h : Apart p n q m) : Apart q m p n := Or.symm h

theorem Apart.ne (h : Apart p n q m) (hp : Spans p n) (hq : Spans q m) (hi : i < n) {j : ℕ}
    (hj : j < m) : p + BitVec.ofNat 32 i ≠ q + BitVec.ofNat 32 j := by
  intro heq
  have hnat := congrArg BitVec.toNat heq
  rw [hp.toNat_add hi.le, hq.toNat_add hj.le] at hnat
  rcases h with h | h
  · omega
  · omega

theorem Spans.offset_inj (h : Spans p n) (hi : i < n) {j : ℕ} (hj : j < n)
    (heq : p + BitVec.ofNat 32 i = p + BitVec.ofNat 32 j) : i = j := by
  have hnat := congrArg BitVec.toNat heq
  rw [h.toNat_add hi.le, h.toNat_add hj.le] at hnat
  omega

/-- Memory has at most changed in the `n` bytes at `p`. -/
def ChangedIn (p : Addr) (n : ℕ) (bytes bytes' : Addr → UInt8) : Prop :=
  ∀ a, (∀ i < n, a ≠ p + BitVec.ofNat 32 i) → bytes' a = bytes a

theorem ChangedIn.refl (p : Addr) (n : ℕ) (bytes : Addr → UInt8) : ChangedIn p n bytes bytes :=
  fun _ _ => rfl

theorem ChangedIn.trans {b b' b'' : Addr → UInt8} (h : ChangedIn p n b b')
    (h' : ChangedIn p n b' b'') : ChangedIn p n b b'' :=
  fun a ha => (h' a ha).trans (h a ha)

theorem ChangedIn.charAt (h : ChangedIn p n u.bytes u'.bytes) (hapart : Apart q m p n)
    (hp : Spans p n) (hq : Spans q m) (hi : i < m) : charAt u' q i = charAt u q i :=
  h _ fun _ hj => hapart.ne hq hp hi hj

theorem ChangedIn.mono {b b' : Addr → UInt8} (h : ChangedIn p n b b') (hle : n ≤ m) :
    ChangedIn p m b b' := fun a ha => h a fun i hi => ha i (hi.trans_le hle)

theorem ChangedIn.part {b b' : Addr → UInt8} {j : ℕ}
    (h : ChangedIn (p + BitVec.ofNat 32 j) n b b') (hle : j + n ≤ m) : ChangedIn p m b b' := by
  refine fun a ha => h a fun i hi => ?_
  rw [BitVec.add_assoc, ← BitVec.ofNat_add]
  exact ha (j + i) (by omega)

theorem ChangedIn.charAt_outside {j : ℕ} (h : ChangedIn (p + BitVec.ofNat 32 j) n u.bytes u'.bytes)
    (hp : Spans p m) (hle : j + n ≤ m) (hi : i < m) (hout : i < j ∨ j + n ≤ i) :
    SnoopDos.charAt u' p i = SnoopDos.charAt u p i := by
  refine h _ fun i' hi' heq => ?_
  rw [BitVec.add_assoc, ← BitVec.ofNat_add] at heq
  have hij := hp.offset_inj hi (by omega) heq
  omega

theorem changedIn_update (bytes : Addr → UInt8) (hi : i < n) (c : UInt8) :
    ChangedIn p n bytes (Function.update bytes (p + BitVec.ofNat 32 i) c) :=
  fun _ ha => Function.update_of_ne (ha i hi) _ _

theorem changedIn_storeBytes {bs : List UInt8} (hle : bs.length ≤ n) :
    ChangedIn p n u.bytes (storeBytes p bs u).2.bytes := by
  intro a ha
  refine bytes_storeBytes_of_notMem u p bs fun hmem => ?_
  obtain ⟨i, hi, rfl⟩ := (mem_span p).mp hmem
  exact ha i (hi.trans_le hle) rfl

end Areas

section Calls

variable {w : World} {p : Process} {opened : Finset ℕ}

theorem World.SparesFds.entered_fds (hw : w.SparesFds) : (w.entered p).fds = p.kernel.fds := hw.fds _ _

theorem LeastFree.allocLoop {fds : ℕ → FileInfo} {k : Kernel} {i : ℕ} (hi : LeastFree opened i)
    (h : Flagged opened fds) (hk : k.fds = fds) : SnoopDos.allocLoop k.fds
      (MAX_FD_PER_PROCESS - MIN_FD_PER_PROCESS) MIN_FD_PER_PROCESS = i := by
  subst hk
  rcases h.leastFree with ⟨-, hfull⟩ | ⟨-, hleast⟩
  · exact absurd (hfull i hi.1 hi.2.1) hi.2.2.1
  · exact hleast.unique hi

theorem Tracks.insert {fds : ℕ → FileInfo} (h : Tracks opened fds) {i : ℕ}
    (hi : i < MAX_FD_PER_PROCESS) (info : FileInfo) (hflags : info.flags = 1#32)
    (htable : info.fopsJmpTable ≠ .null) :
    Tracks (Insert.insert i opened) (Function.update fds i info) := by
  have hflagged := h.flagged.insert hi info hflags
  refine ⟨hflagged.lt, hflagged.flags, fun fd hfd => ?_⟩
  rcases eq_or_ne fd i with rfl | hne
  · rwa [Function.update_self]
  · rw [Function.update_of_ne hne]
    exact h.table fd (Finset.mem_of_mem_insert_of_ne hfd hne)

/-- A descriptor that was opened and closed again is as good as unused. -/
theorem Tracks.reclosed {fds fds' : ℕ → FileInfo} (h : Tracks opened fds) {i : ℕ} (hi : i ∉ opened)
    (hother : ∀ j ≠ i, fds' j = fds j) (hflags : (fds' i).flags = 0#32) : Tracks opened fds' := by
  refine ⟨h.lt, fun fd hfd => ?_, fun fd hfd => ?_⟩
  · rcases eq_or_ne fd i with rfl | hne
    · rw [hflags, if_neg hi]
    · rw [hother fd hne]
      exact h.flags fd hfd
  · rw [hother fd (fun heq => hi (heq ▸ hfd))]
    exact h.table fd hfd

theorem open_bytes (k : Kernel) (fs : Fs) {filename : Addr} (hin : inWindow filename)
    (u : UserMem) : (k.open fs filename u).2 = (readDentryByName fs (stringAt filename) u).2 := by
  rw [Kernel.open, if_neg (not_not.mpr hin), bind_run]
  cases (readDentryByName fs (stringAt filename) u).1 with
  | none => rfl
  | some entry =>
    simp only
    split_ifs
    · rfl
    · generalize ((k.setFd _ _).currentPcb.fdArray _).fopsJmpTable = table
      cases table <;> rfl

theorem readDentryLoop_bytes (fs : Fs) (filename : Addr) (n i : ℕ) (u : UserMem) :
    (readDentryLoop fs (stringAt filename) n i u).2.bytes = u.bytes := by
  induction n generalizing i u with
  | zero => rfl
  | succ n ih =>
    rw [readDentryLoop, bind_run]
    split_ifs
    · exact strncmp_bytes u filename _ _ _
    · rw [ih, strncmp_bytes]

theorem World.SparesFds.goes (hw : w.SparesFds) {k' : Kernel} {t : ℕ → FileInfo}
    (hk : (w.entered p).WithFds k' t) (u : UserMem) : p.Goes [] t u.bytes (p.after k' u) where
  shown := (List.append_nil _).symm
  fds := hk.fds
  args := by
    change k'.currentPcb.args = _
    rw [hk.currentPcb]
    exact hw.args _ _
  bytes := rfl

theorem World.SparesFds.goes_same (hw : w.SparesFds) (u : UserMem) :
    p.Goes [] p.kernel.fds u.bytes (p.after (w.entered p) u) := by
  have h := hw.goes (p := p) WithFds.refl u
  rwa [hw.entered_fds] at h

theorem World.open_returns (hw : w.SparesFds) (h : Tracks opened p.kernel.fds) {filename : Addr}
    (hin : inWindow filename) {e i : ℕ} (hmatch : w.fs.FirstMatch p.user filename e)
    (htype : (w.fs.files e).filetype = FILETYPE_DEVICE ∨
      (w.fs.files e).filetype = FILETYPE_DIRECTORY ∨ (w.fs.files e).filetype = FILETYPE_REGULAR)
    (hi : LeastFree opened i) :
    Returns (w.ece391Open filename) p fun ret p' => ret = BitVec.ofNat 32 i ∧
      p.Goes [] (Function.update p.kernel.fds i
        (openedFd w.fs (w.fs.files e) (p.kernel.fds i))) p.user.bytes p' := by
  have hfds := hw.entered_fds (p := p)
  have halloc := hi.allocLoop h.flagged hfds
  obtain ⟨-, hnull⟩ := tableOf_openedFd w.fs ((w.entered p).fds i) htype
  obtain ⟨k', hrun, hk'⟩ := open_of_free (u := p.user) hin (readDentryByName_of_firstMatch hmatch)
    halloc.symm (by have := hi.2.1; omega) hnull
  have hmem : ((w.entered p).open w.fs filename p.user).2.bytes = p.user.bytes := by
    rw [open_bytes _ _ hin]
    exact readDentryLoop_bytes _ _ _ _ _
  have hgoes := hw.goes hk' ((w.entered p).open w.fs filename p.user).2
  rw [hfds, hmem] at hgoes
  refine ⟨_, _, ?_, rfl, hgoes⟩
  rw [World.ece391Open, Process.resume, hrun]
  rfl

theorem World.open_missing (hw : w.SparesFds) {filename : Addr} (hin : inWindow filename)
    (hnone : ∀ e < w.fs.direntries.toInt.toNat, ¬ w.fs.EntryMatches p.user filename e) :
    Returns (w.ece391Open filename) p fun ret p' => ret = FAILURE ∧
      p.Goes [] p.kernel.fds p.user.bytes p' := by
  have hfound : (readDentryByName w.fs (stringAt filename) p.user).1 = none := by
    rcases readDentryByName_fst w.fs p.user filename with ⟨e, hmatch, -⟩ | ⟨-, hres⟩
    · exact absurd hmatch.2.1 (hnone e hmatch.1)
    · exact hres
  have hmem : ((w.entered p).open w.fs filename p.user).2.bytes = p.user.bytes := by
    rw [open_bytes _ _ hin]
    exact readDentryLoop_bytes _ _ _ _ _
  have hgoes := hw.goes_same (p := p) ((w.entered p).open w.fs filename p.user).2
  rw [hmem] at hgoes
  refine ⟨_, _, ?_, rfl, hgoes⟩
  rw [World.ece391Open, Process.resume, open_of_none hin hfound]
  rfl

/-- Descriptor `fd` is in use, and its calls go through `table`. -/
structure OpenAs (fds : ℕ → FileInfo) (fd : ℕ) (table : FopsTable) : Prop where
  lt : fd < MAX_FD_PER_PROCESS
  flags : (fds fd).flags &&& 1#32 ≠ 0#32
  table : (fds fd).fopsJmpTable = table

theorem OpenAs.open {fds : ℕ → FileInfo} {fd : Word} {table : FopsTable}
    (h : OpenAs fds fd.toNat table) {k : Kernel} (hk : k.fds = fds) : k.Open fd := by
  subst hk
  exact ⟨(badFd_eq_false_iff fd).mpr h.lt, h.flags⟩

theorem OpenAs.update {fds : ℕ → FileInfo} {fd i : ℕ} {table : FopsTable} (h : OpenAs fds fd table)
    (hne : fd ≠ i) (info : FileInfo) : OpenAs (Function.update fds i info) fd table :=
  ⟨h.lt, by rw [Function.update_of_ne hne]; exact h.flags,
    by rw [Function.update_of_ne hne]; exact h.table⟩

theorem OpenAs.congr {fds fds' : ℕ → FileInfo} {fd : ℕ} {table : FopsTable} (h : OpenAs fds fd table)
    (heq : fds' fd = fds fd) : OpenAs fds' fd table :=
  ⟨h.lt, by rw [heq]; exact h.flags, by rw [heq]; exact h.table⟩

theorem OpenAs.withPosition {fds : ℕ → FileInfo} {fd : ℕ} {table : FopsTable}
    (h : OpenAs fds fd table) (i : ℕ) (pos : Word) : OpenAs (withPosition fds i pos) fd table := by
  rcases eq_or_ne fd i with rfl | hne
  · refine ⟨h.lt, ?_, ?_⟩
    · rw [Kernel.withPosition, Function.update_self]
      exact h.flags
    · rw [Kernel.withPosition, Function.update_self]
      exact h.table
  · exact h.update hne _

/-- A count of bytes is not taken for a failure. -/
theorem ne_failure_of_lt {ret : Word} (h : ret.toNat < 2 ^ 32 - 1) : ret ≠ -1#32 := by
  rintro rfl
  exact absurd h (by decide)

theorem returned_getD {u : UserMem} {buf : Addr} {ret : Word} {i : ℕ} (hi : i < ret.toNat) :
    (returned u buf ret).getD i NULL_CHAR = charAt u buf i := by
  rw [returned, List.getD_eq_getElem?_getD, List.getElem?_map, List.getElem?_range hi]
  rfl

theorem World.write_returns (hw : w.SparesFds) (h : OpenAs p.kernel.fds 1 .terminal) {buf : Addr}
    (hin : inWindow buf) (nbytes : Word) (hn : 0 ≤ nbytes.toInt) :
    Returns (w.ece391Write 1#32 buf nbytes) p fun ret p' => ret = nbytes ∧
      p.Goes (fieldString (charAt p.user buf) nbytes.toNat) p.kernel.fds p.user.bytes p' := by
  have hfds := hw.entered_fds (p := p)
  have hopen : (w.entered p).Open 1#32 := OpenAs.open h hfds
  have htable : ((w.entered p).fds (1#32 : Word).toNat).fopsJmpTable = .terminal := by
    rw [hfds]
    exact h.table
  have hrun := congrFun (write_of_open (w.entered p) 1#32 buf nbytes hin hopen) p.user
  simp only [htable, map_run] at hrun
  have hsent : (w.entered p).sentToTerminal 1#32 buf nbytes p.user =
      fieldString (charAt p.user buf) nbytes.toNat :=
    if_pos ⟨hin, rfl, hopen.2, htable, hn⟩
  have hframe := (w.entered p).writeTerminal_frame 1#32 buf nbytes p.user
  have hret : ((w.entered p).writeTerminal 1#32 (stringAt buf) nbytes p.user).1.1 = nbytes := by
    rw [writeTerminal, if_neg (by decide), if_neg (not_lt.mpr hn)]
    rfl
  have hbytes : ((w.entered p).writeTerminal 1#32 (stringAt buf) nbytes p.user).2.bytes =
      p.user.bytes := by
    rw [writeTerminal, if_neg (by decide), if_neg (not_lt.mpr hn)]
    simp only [bind_run]
    rw [pure_run, putT_user_snd, strlen_user_bytes]
  have hgoes := hw.goes hframe ((w.entered p).writeTerminal 1#32 (stringAt buf) nbytes p.user).2
  rw [hfds, hbytes] at hgoes
  have hrun' : w.ece391Write 1#32 buf nbytes p = some
      (((w.entered p).writeTerminal 1#32 (stringAt buf) nbytes p.user).1.1,
        { p with shown := p.shown ++ fieldString (charAt p.user buf) nbytes.toNat }.after
          ((w.entered p).writeTerminal 1#32 (stringAt buf) nbytes p.user).1.2
          ((w.entered p).writeTerminal 1#32 (stringAt buf) nbytes p.user).2) := by
    rw [World.ece391Write, Process.resume, hrun, hsent]
    rfl
  exact ⟨_, _, hrun', hret, rfl, hgoes.fds, hgoes.args, hgoes.bytes⟩

theorem World.read_file_returns (hw : w.SparesFds) (fd : Word)
    (h : OpenAs p.kernel.fds fd.toNat .regularFile) {buf : Addr} (hin : inWindow buf) (nbytes : Word)
    (hvalid : w.fs.ValidFile (getInodeNum w.fs (p.kernel.fds fd.toNat).inode).toNat) :
    let contents := w.fs.contents (getInodeNum w.fs (p.kernel.fds fd.toNat).inode).toNat
    let position := (p.kernel.fds fd.toNat).position
    Returns (w.ece391Read fd buf nbytes) p fun ret p' =>
      ret = BitVec.ofNat 32 (min nbytes.toNat (contents.length - position.toNat)) ∧
      returned p'.user buf ret = (contents.drop position.toNat).take nbytes.toNat ∧
      ∃ bytes, ChangedIn buf nbytes.toNat p.user.bytes bytes ∧
        p.Goes [] (withPosition p.kernel.fds fd.toNat (position + ret)) bytes p' := by
  intro contents position
  have hfds := hw.entered_fds (p := p)
  have hrun := congrFun (read_of_open (w.entered p) w.fs fd buf nbytes (w.stdin p.calls) hin
    (h.open hfds)) p.user
  have htable : ((w.entered p).fds fd.toNat).fopsJmpTable = .regularFile := by
    rw [hfds]
    exact h.table
  simp only [htable, map_run] at hrun
  have hvalid' : w.fs.ValidFile (getInodeNum w.fs ((w.entered p).fds fd.toNat).inode).toNat := by
    rwa [hfds]
  obtain ⟨hret, hbytes, hpos⟩ := readFile_spec w.fs (w.entered p) p.user fd.toNat buf nbytes
    hvalid' _ rfl
  have hsnd := (readFile_reads w.fs (w.entered p) fd.toNat buf nbytes p.user).2
  rw [readData_bytes _ nbytes hvalid'] at hsnd
  have hchanged : ChangedIn buf nbytes.toNat p.user.bytes
      ((w.entered p).readFile w.fs fd.toNat buf nbytes p.user).2.bytes := by
    rw [hsnd]
    exact changedIn_storeBytes (by rw [List.length_take]; omega)
  have hgoes := hw.goes ((w.entered p).readFile_withFds w.fs fd.toNat buf nbytes p.user)
    ((w.entered p).readFile w.fs fd.toNat buf nbytes p.user).2
  rw [← hgoes.fds] at hgoes
  rw [hfds] at hret hbytes hpos
  have hrun' : w.ece391Read fd buf nbytes p = some
      (((w.entered p).readFile w.fs fd.toNat buf nbytes p.user).1.1,
        p.after ((w.entered p).readFile w.fs fd.toNat buf nbytes p.user).1.2
          ((w.entered p).readFile w.fs fd.toNat buf nbytes p.user).2) := by
    rw [World.ece391Read, Process.resume, hrun]
    rfl
  exact ⟨_, _, hrun', hret, hbytes, _, hchanged, hgoes.shown, hpos, hgoes.args, rfl⟩

theorem changedIn_strncpy (u : UserMem) (buf : Addr) (src : ℕ → UInt8) {n : ℕ} (hn : n ≤ 2 ^ 32) :
    ChangedIn buf n u.bytes (strncpy buf src n u).2.bytes := by
  intro a ha
  have hoff : a = buf + BitVec.ofNat 32 (a - buf).toNat := by
    rw [BitVec.ofNat_toNat, BitVec.setWidth_eq, BitVec.add_comm, BitVec.sub_add_cancel]
  have hge : ¬ (a - buf).toNat < n := fun hlt => ha _ hlt hoff
  have h := charAt_strncpy u buf src n hn (a - buf).isLt
  rw [if_neg hge, charAt, charAt, ← hoff] at h
  exact h

theorem readDirectory_bytes (k : Kernel) (fs : Fs) (fd : ℕ) (buf : Addr) (nbytes : Word)
    (u : UserMem) (hmore : ¬ fs.direntries.toInt ≤ (k.fds fd).position.toInt) :
    (k.readDirectory fs fd buf nbytes u).2.bytes =
      (strncpy buf (fs.files (k.fds fd).position.toNat).filename nbytes.toNat u).2.bytes := by
  have hgo : ¬ fs.direntries.toInt ≤ (k.currentPcb.fdArray fd).position.toInt := hmore
  rw [readDirectory]
  simp only [if_neg hgo, bind_run]
  split_ifs
  · rfl
  · rw [bind_run]
    exact strlen_user_bytes _ _ _ _

/-- A `read` of entry `i` of a directory, with a buffer of 32 bytes. -/
theorem World.read_entry_returns (hw : w.SparesFds) (fd : Word)
    (h : OpenAs p.kernel.fds fd.toNat .directory) {buf : Addr} (hin : inWindow buf) {i : ℕ}
    (hpos : (p.kernel.fds fd.toNat).position = BitVec.ofNat 32 i) (hi : i < NUM_FILES_CAP)
    (hmore : (i : ℤ) < w.fs.direntries.toInt) :
    Returns (w.ece391Read fd buf 32#32) p fun ret p' =>
      ret = BitVec.ofNat 32 (w.fs.files i).name.length ∧
      (∀ j < FILE_NAME_SIZE, charAt p'.user buf j = (w.fs.files i).name.getD j NULL_CHAR) ∧
      ∃ bytes, ChangedIn buf 32 p.user.bytes bytes ∧
        p.Goes [] (withPosition p.kernel.fds fd.toNat (BitVec.ofNat 32 (i + 1))) bytes p' := by
  have hfds := hw.entered_fds (p := p)
  have hrun := congrFun (read_of_open (w.entered p) w.fs fd buf 32#32 (w.stdin p.calls) hin
    (h.open hfds)) p.user
  have htable : ((w.entered p).fds fd.toNat).fopsJmpTable = .directory := by
    rw [hfds]
    exact h.table
  simp only [htable, map_run] at hrun
  have hpos' : ((w.entered p).fds fd.toNat).position = BitVec.ofNat 32 i := by rw [hfds, hpos]
  obtain ⟨hret, hbytes, hnext⟩ := readDirectory_entry hpos' hi hmore
  obtain ⟨pos, hk⟩ := (w.entered p).readDirectory_withFds w.fs fd.toNat buf 32#32 p.user
  have hint : ((w.entered p).fds fd.toNat).position.toInt = i := by
    simp only [NUM_FILES_CAP] at hi
    rw [hpos', BitVec.toInt_eq_toNat_of_lt, BitVec.toNat_ofNat]
    · omega
    · rw [BitVec.toNat_ofNat]
      omega
  have hmem := readDirectory_bytes (w.entered p) w.fs fd.toNat buf 32#32 p.user (by omega)
  have hchanged : ChangedIn buf 32 p.user.bytes
      ((w.entered p).readDirectory w.fs fd.toNat buf 32#32 p.user).2.bytes := by
    rw [hmem]
    exact changedIn_strncpy _ _ _ (by decide)
  rw [hk.fds, withPosition, Function.update_self] at hnext
  have hgoes := hw.goes hk ((w.entered p).readDirectory w.fs fd.toNat buf 32#32 p.user).2
  rw [show pos = BitVec.ofNat 32 (i + 1) from hnext, hfds] at hgoes
  have hrun' : w.ece391Read fd buf 32#32 p = some
      (((w.entered p).readDirectory w.fs fd.toNat buf 32#32 p.user).1.1,
        p.after ((w.entered p).readDirectory w.fs fd.toNat buf 32#32 p.user).1.2
          ((w.entered p).readDirectory w.fs fd.toNat buf 32#32 p.user).2) := by
    rw [World.ece391Read, Process.resume, hrun]
    rfl
  refine ⟨_, _, hrun', ?_, hbytes, _, hchanged, hgoes⟩
  rw [← hret, BitVec.ofNat_toNat, BitVec.setWidth_eq]

theorem World.read_directory_end (hw : w.SparesFds) (fd : Word)
    (h : OpenAs p.kernel.fds fd.toNat .directory) {buf : Addr} (hin : inWindow buf) (nbytes : Word)
    (hend : w.fs.direntries.toInt ≤ (p.kernel.fds fd.toNat).position.toInt) :
    Returns (w.ece391Read fd buf nbytes) p fun ret p' =>
      ret = 0#32 ∧ p.Goes [] p.kernel.fds p.user.bytes p' := by
  have hfds := hw.entered_fds (p := p)
  have hrun := congrFun (read_of_open (w.entered p) w.fs fd buf nbytes (w.stdin p.calls) hin
    (h.open hfds)) p.user
  have htable : ((w.entered p).fds fd.toNat).fopsJmpTable = .directory := by
    rw [hfds]
    exact h.table
  simp only [htable, map_run] at hrun
  rw [readDirectory_end (by rw [hfds]; exact hend)] at hrun
  refine ⟨_, _, ?_, rfl, hw.goes_same p.user⟩
  rw [World.ece391Read, Process.resume, hrun]
  rfl

theorem World.getargs_returns (hw : w.SparesFds) {args : List UInt8}
    (hargs : p.kernel.currentPcb.args = some args) (hnul : NulFree args) {buf : Addr}
    (hin : inWindow buf) (nbytes : Word) (hfits : (args.length : ℤ) < nbytes.toInt) :
    Returns (w.ece391Getargs buf nbytes) p fun ret p' => ret = 0#32 ∧ HoldsName p'.user buf args ∧
      ∃ bytes, ChangedIn buf nbytes.toNat p.user.bytes bytes ∧
        p.Goes [] p.kernel.fds bytes p' := by
  have hargs' : (w.entered p).currentPcb.args = some args := (hw.args _ _).trans hargs
  obtain ⟨hret, hholds⟩ := getargs_fits hargs' hnul hin hfits p.user
  have hrun := getargs_run hargs' hnul hin (show 0 ≤ nbytes.toInt by omega) p.user
  have hint := toInt_of_nonneg (show 0 ≤ nbytes.toInt by omega)
  rw [if_neg (by omega)] at hrun
  have hchanged : ChangedIn buf nbytes.toNat p.user.bytes
      ((w.entered p).getargs buf nbytes p.user).2.bytes := by
    rw [hrun]
    exact changedIn_strncpy _ _ _ nbytes.isLt.le
  have hrun' : w.ece391Getargs buf nbytes p = some
      (SUCCESS, p.after (w.entered p) ((w.entered p).getargs buf nbytes p.user).2) := by
    rw [World.ece391Getargs]
    simp only [hret]
    rfl
  exact ⟨_, _, hrun', rfl, hholds, _, hchanged, hw.goes_same _⟩

end Calls

end SnoopDos
