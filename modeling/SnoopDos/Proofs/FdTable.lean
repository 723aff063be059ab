import SnoopDos.Lib.Runs
import SnoopDos.Proofs.Descriptors
import SnoopDos.Proofs.Execute
import SnoopDos.Proofs.Filesystem

/-! The descriptor table as a finite map. A caller can work out which descriptors
are in use from the values returned to it; the flag words of the table say the
same after any sequence of calls. -/

namespace SnoopDos

open Kernel

/-- A call on descriptors. -/
inductive FdCall
  | «open» (filename : Addr)
  | close (fd : Word)
  | read (stdin : ℕ → UInt8) (fd : Word) (buf : Addr) (numBytes : Word)
  | write (fd : Word) (buf : Addr) (numBytes : Word)

namespace FdCall

/-- The pointer argument, if there is one, lies in the user window. -/
def InWindow : FdCall → Prop
  | .open filename => inWindow filename
  | .close _ => True
  | .read _ _ buf _ => inWindow buf
  | .write _ buf _ => inWindow buf

def run (fs : Fs) (k : Kernel) : FdCall → User (Option (Word × Kernel))
  | .open filename => k.open fs filename
  | .close fd => pure (k.close fd)
  | .read stdin fd buf numBytes => k.read fs stdin fd buf numBytes
  | .write fd buf numBytes => k.write fd buf numBytes

/-- The descriptors in use after the call returned `ret`, as the caller sees it. -/
def track (ret : Word) (opened : Finset ℕ) : FdCall → Finset ℕ
  | .open _ => if ret = FAILURE then opened else insert ret.toNat opened
  | .close fd => if ret = FAILURE then opened else opened.erase fd.toNat
  | .read .. => opened
  | .write .. => opened

end FdCall

/-- The kernel, and the descriptors that the caller takes to be in use. -/
structure Descriptors where
  kernel : Kernel
  opened : Finset ℕ

/-- A call made with `c.1` as the memory of the process. -/
def fdStep (fs : Fs) (s : Descriptors) (c : UserMem × FdCall) (s' : Descriptors) : Prop :=
  c.2.InWindow ∧ ∃ ret, (c.2.run fs s.kernel c.1).1 = some (ret, s'.kernel) ∧
    s'.opened = c.2.track ret s.opened

/-- The file operations that go with a filetype. -/
def tableOf (filetype : Word) : Option FopsTable :=
  if filetype = FILETYPE_DEVICE then some .rtc
  else if filetype = FILETYPE_DIRECTORY then some .directory
  else if filetype = FILETYPE_REGULAR then some .regularFile
  else none

/-- Every entry of the directory is a device, a directory or a regular file. -/
def Fs.TypedEntries (fs : Fs) : Prop :=
  ∀ e < fs.direntries.toInt.toNat, (fs.files e).filetype = FILETYPE_DEVICE ∨
    (fs.files e).filetype = FILETYPE_DIRECTORY ∨ (fs.files e).filetype = FILETYPE_REGULAR

/-- The least descriptor for a file that is not in use. -/
def LeastFree (opened : Finset ℕ) (i : ℕ) : Prop :=
  MIN_FD_PER_PROCESS ≤ i ∧ i < MAX_FD_PER_PROCESS ∧ i ∉ opened ∧
    ∀ j, MIN_FD_PER_PROCESS ≤ j → j < i → j ∈ opened

theorem LeastFree.unique {opened : Finset ℕ} {i j : ℕ} (hi : LeastFree opened i)
    (hj : LeastFree opened j) : i = j := by
  obtain ⟨hi1, -, hi2, hi3⟩ := hi
  obtain ⟨hj1, -, hj2, hj3⟩ := hj
  rcases lt_trichotomy i j with hlt | heq | hlt
  · exact absurd (hj3 i hi1 hlt) hi2
  · exact heq
  · exact absurd (hi3 j hj1 hlt) hj2

/-- What a call does, for a caller that takes `opened` to be in use. -/
def FdSpec (fs : Fs) (u : UserMem) (k : Kernel) (opened : Finset ℕ) (ret : Word) (k' : Kernel) :
    FdCall → Prop
  | .open filename =>
    (∃ e i, fs.FirstMatch u filename e ∧ LeastFree opened i ∧ ret = BitVec.ofNat 32 i ∧
      (k'.fds i).position = 0#32 ∧ tableOf (fs.files e).filetype = some (k'.fds i).fopsJmpTable ∧
      ∀ j ≠ i, k'.fds j = k.fds j) ∨
    (((∀ e < fs.direntries.toInt.toNat, ¬ fs.EntryMatches u filename e) ∨
        ∀ i, MIN_FD_PER_PROCESS ≤ i → i < MAX_FD_PER_PROCESS → i ∈ opened) ∧
      ret = FAILURE ∧ k' = k)
  | .close fd =>
    (2 ≤ fd.toInt ∧ fd.toInt < 8 ∧ fd.toNat ∈ opened ∧ ret = SUCCESS ∧
      ∀ j ≠ fd.toNat, k'.fds j = k.fds j) ∨
    (¬ (2 ≤ fd.toInt ∧ fd.toInt < 8 ∧ fd.toNat ∈ opened) ∧ ret = FAILURE ∧ k' = k)
  | .read stdin fd buf numBytes =>
    (∃ pos, k'.fds = withPosition k.fds fd.toNat pos) ∧
      (¬ (fd.toNat < 8 ∧ fd.toNat ∈ opened) →
        k.read fs stdin fd buf numBytes u = (some (FAILURE, k), u) ∧ ret = FAILURE ∧ k' = k)
  | .write fd buf numBytes =>
    k'.fds = k.fds ∧
      (¬ (fd.toNat < 8 ∧ fd.toNat ∈ opened) →
        k.write fd buf numBytes u = (some (FAILURE, k), u) ∧ ret = FAILURE ∧ k' = k)

/-- The flag words say what is in use. -/
structure Flagged (opened : Finset ℕ) (fds : ℕ → FileInfo) : Prop where
  lt : ∀ fd ∈ opened, fd < MAX_FD_PER_PROCESS
  flags : ∀ fd < MAX_FD_PER_PROCESS, (fds fd).flags = if fd ∈ opened then 1#32 else 0#32

/-- The flag words say what is in use, and what is in use can be called. -/
structure Tracks (opened : Finset ℕ) (fds : ℕ → FileInfo) : Prop where
  lt : ∀ fd ∈ opened, fd < MAX_FD_PER_PROCESS
  flags : ∀ fd < MAX_FD_PER_PROCESS, (fds fd).flags = if fd ∈ opened then 1#32 else 0#32
  table : ∀ fd ∈ opened, (fds fd).fopsJmpTable ≠ .null

section Calls

variable {k : Kernel} {opened : Finset ℕ} {fs : Fs} {u : UserMem}

theorem Tracks.flagged {fds : ℕ → FileInfo} (h : Tracks opened fds) : Flagged opened fds :=
  ⟨h.lt, h.flags⟩

theorem Flagged.flags_and {fds : ℕ → FileInfo} (h : Flagged opened fds) {fd : ℕ}
    (hfd : fd < MAX_FD_PER_PROCESS) : (fds fd).flags &&& 1#32 ≠ 0#32 ↔ fd ∈ opened := by
  rw [h.flags fd hfd]
  by_cases hin : fd ∈ opened
  · simp [hin]
  · simp [hin]

theorem Flagged.withPosition {fds : ℕ → FileInfo} (h : Flagged opened fds) (fd : ℕ) (pos : Word) :
    Flagged opened (withPosition fds fd pos) := by
  refine ⟨h.lt, fun i hi => ?_⟩
  rw [← h.flags i hi, Kernel.withPosition]
  rcases eq_or_ne i fd with rfl | hne
  · rw [Function.update_self]
  · rw [Function.update_of_ne hne]

theorem Tracks.withPosition {fds : ℕ → FileInfo} (h : Tracks opened fds) (fd : ℕ) (pos : Word) :
    Tracks opened (withPosition fds fd pos) := by
  refine ⟨h.lt, (h.flagged.withPosition fd pos).flags, fun i hi => ?_⟩
  have := h.table i hi
  rw [Kernel.withPosition]
  rcases eq_or_ne i fd with rfl | hne
  · rwa [Function.update_self]
  · rwa [Function.update_of_ne hne]

theorem Flagged.insert {fds : ℕ → FileInfo} (h : Flagged opened fds) {i : ℕ}
    (hi : i < MAX_FD_PER_PROCESS) (info : FileInfo) (hflags : info.flags = 1#32) :
    Flagged (insert i opened) (Function.update fds i info) := by
  refine ⟨fun fd hfd => ?_, fun fd hfd => ?_⟩
  · rcases Finset.mem_insert.mp hfd with rfl | hfd
    · exact hi
    · exact h.lt fd hfd
  · rcases eq_or_ne fd i with rfl | hne
    · rw [Function.update_self, if_pos (Finset.mem_insert_self _ _), hflags]
    · rw [Function.update_of_ne hne, h.flags fd hfd]
      simp [hne]

theorem Flagged.erase {fds : ℕ → FileInfo} (h : Flagged opened fds) (i : ℕ) (info : FileInfo)
    (hflags : info.flags = 0#32) : Flagged (opened.erase i) (Function.update fds i info) := by
  refine ⟨fun fd hfd => h.lt fd (Finset.mem_of_mem_erase hfd), fun fd hfd => ?_⟩
  rcases eq_or_ne fd i with rfl | hne
  · rw [Function.update_self, if_neg (Finset.notMem_erase _ _), hflags]
  · rw [Function.update_of_ne hne, h.flags fd hfd]
    simp [hne]

theorem badFd_eq_false_iff (fd : Word) : badFd fd = false ↔ fd.toNat < 8 := by
  have hlt := fd.isLt
  have hint := BitVec.toInt_eq_toNat_cond fd
  rw [badFd, Bool.or_eq_false_iff, decide_eq_false_iff_not, decide_eq_false_iff_not]
  simp only [MAX_FD_PER_PROCESS]
  split_ifs at hint <;> omega

/-- A descriptor passes the checks of `read` and `write` when it is in use. -/
theorem Tracks.open_iff (h : Tracks opened k.fds) (fd : Word) :
    k.Open fd ↔ fd.toNat < 8 ∧ fd.toNat ∈ opened := by
  rw [Kernel.Open, badFd_eq_false_iff]
  exact and_congr_right fun hfd => h.flagged.flags_and hfd

/-- The search of `open` stops at the least clear flag word, or at the end. -/
theorem allocLoop_spec (fds : ℕ → FileInfo) (n i : ℕ) :
    i ≤ allocLoop fds n i ∧ allocLoop fds n i ≤ i + n ∧
      (∀ j, i ≤ j → j < allocLoop fds n i → (fds j).flags &&& 1#32 ≠ 0#32) ∧
      (allocLoop fds n i < i + n → (fds (allocLoop fds n i)).flags &&& 1#32 = 0#32) := by
  induction n generalizing i with
  | zero => exact ⟨le_rfl, le_rfl, fun j h1 h2 => by rw [allocLoop] at h2; omega, fun h => by
      rw [allocLoop] at h; omega⟩
  | succ n ih =>
    rw [allocLoop]
    by_cases hfree : (fds i).flags &&& 1#32 = 0#32
    · rw [if_pos hfree]
      exact ⟨le_rfl, by omega, fun j h1 h2 => by omega, fun _ => hfree⟩
    · rw [if_neg hfree]
      obtain ⟨h1, h2, h3, h4⟩ := ih (i + 1)
      refine ⟨by omega, by omega, fun j hj1 hj2 => ?_, fun h => h4 (by omega)⟩
      rcases hj1.eq_or_lt with rfl | hlt
      · exact hfree
      · exact h3 j hlt hj2

theorem Flagged.leastFree (h : Flagged opened k.fds) :
    let i := allocLoop k.fds (MAX_FD_PER_PROCESS - MIN_FD_PER_PROCESS) MIN_FD_PER_PROCESS
    (i = MAX_FD_PER_PROCESS ∧ ∀ j, MIN_FD_PER_PROCESS ≤ j → j < MAX_FD_PER_PROCESS → j ∈ opened) ∨
      (i ≠ MAX_FD_PER_PROCESS ∧ LeastFree opened i) := by
  intro i
  obtain ⟨h1, h2, h3, h4⟩ := allocLoop_spec k.fds (MAX_FD_PER_PROCESS - MIN_FD_PER_PROCESS)
    MIN_FD_PER_PROCESS
  change MIN_FD_PER_PROCESS ≤ i at h1
  change i ≤ MAX_FD_PER_PROCESS at h2
  have hbelow : ∀ j, MIN_FD_PER_PROCESS ≤ j → j < i → j ∈ opened := fun j hj1 hj2 =>
    (h.flags_and (by omega)).mp (h3 j hj1 hj2)
  rcases h2.eq_or_lt with heq | hlt
  · exact Or.inl ⟨heq, fun j hj1 hj2 => hbelow j hj1 (by omega)⟩
  · have hfree : (k.fds i).flags &&& 1#32 = 0#32 := h4 hlt
    exact Or.inr ⟨by omega, h1, hlt, fun hin => (h.flags_and hlt).mpr hin hfree, hbelow⟩

theorem open_of_none {filename : Addr} (hin : inWindow filename)
    (h : (readDentryByName fs (UserMem.stringAt filename) u).1 = none) :
    (k.open fs filename u).1 = some (FAILURE, k) := by
  rw [Kernel.open, if_neg (not_not.mpr hin), UserMem.bind_run, h]
  rfl

theorem open_of_full {filename : Addr} {entry : Dentry} (hin : inWindow filename)
    (h : (readDentryByName fs (UserMem.stringAt filename) u).1 = some entry)
    (hfull : allocLoop k.fds (MAX_FD_PER_PROCESS - MIN_FD_PER_PROCESS) MIN_FD_PER_PROCESS =
      MAX_FD_PER_PROCESS) :
    (k.open fs filename u).1 = some (FAILURE, k) := by
  rw [Kernel.open, if_neg (not_not.mpr hin), UserMem.bind_run, h]
  have hfull' : allocLoop k.currentPcb.fdArray (MAX_FD_PER_PROCESS - MIN_FD_PER_PROCESS)
    MIN_FD_PER_PROCESS = MAX_FD_PER_PROCESS := hfull
  simp only [hfull', if_true]
  rfl

theorem open_of_free {filename : Addr} {entry : Dentry} {i : ℕ} (hin : inWindow filename)
    (h : (readDentryByName fs (UserMem.stringAt filename) u).1 = some entry)
    (hi : i = allocLoop k.fds (MAX_FD_PER_PROCESS - MIN_FD_PER_PROCESS) MIN_FD_PER_PROCESS)
    (hfree : i ≠ MAX_FD_PER_PROCESS) (htable : (openedFd fs entry (k.fds i)).fopsJmpTable ≠ .null) :
    ∃ k', (k.open fs filename u).1 = some (BitVec.ofNat 32 i, k') ∧
      k.WithFds k' (Function.update k.fds i (openedFd fs entry (k.fds i))) := by
  have hset := setFd_withFds (k := k) i (openedFd fs entry)
  have hentry : (k.setFd i (openedFd fs entry)).currentPcb.fdArray i =
      openedFd fs entry (k.fds i) := by
    rw [hset.currentPcb]
    exact Function.update_self _ _ _
  have hi' : allocLoop k.currentPcb.fdArray (MAX_FD_PER_PROCESS - MIN_FD_PER_PROCESS)
    MIN_FD_PER_PROCESS = i := hi.symm
  rw [Kernel.open, if_neg (not_not.mpr hin), UserMem.bind_run, h]
  simp only [hi', hfree, if_false, hentry]
  cases ht : (openedFd fs entry (k.fds i)).fopsJmpTable with
  | null => exact absurd ht htable
  | rtc =>
    have hrtc := openRtc_withFds (k := k.setFd i (openedFd fs entry))
    rw [hset.fds] at hrtc
    exact ⟨_, rfl, hset.trans hrtc⟩
  | terminal => exact ⟨_, rfl, hset⟩
  | regularFile => exact ⟨_, rfl, hset⟩
  | directory => exact ⟨_, rfl, hset⟩

/-- A call returns, does what its spec says, and leaves a table that agrees with
what the caller makes of the value returned. -/
def Behaves (fs : Fs) (u : UserMem) (k : Kernel) (opened : Finset ℕ) (c : FdCall) : Prop :=
  ∃ ret k', (c.run fs k u).1 = some (ret, k') ∧ FdSpec fs u k opened ret k' c ∧
    Tracks (c.track ret opened) k'.fds

theorem tableOf_openedFd (fs : Fs) {entry : Dentry} (old : FileInfo)
    (h : entry.filetype = FILETYPE_DEVICE ∨ entry.filetype = FILETYPE_DIRECTORY ∨
      entry.filetype = FILETYPE_REGULAR) :
    tableOf entry.filetype = some (openedFd fs entry old).fopsJmpTable ∧
      (openedFd fs entry old).fopsJmpTable ≠ .null := by
  change tableOf entry.filetype = some (jumpTableFor entry.filetype old.fopsJmpTable) ∧
    jumpTableFor entry.filetype old.fopsJmpTable ≠ .null
  rcases h with h | h | h <;> rw [h]
  · exact ⟨rfl, FopsTable.noConfusion⟩
  · exact ⟨rfl, FopsTable.noConfusion⟩
  · exact ⟨rfl, FopsTable.noConfusion⟩

theorem ofNat_toNat_of_lt {i : ℕ} (hi : i < 8) : (BitVec.ofNat 32 i).toNat = i ∧
    BitVec.ofNat 32 i ≠ FAILURE := by
  have hnat : (BitVec.ofNat 32 i).toNat = i := by
    rw [BitVec.toNat_ofNat]
    omega
  refine ⟨hnat, fun h => ?_⟩
  rw [h] at hnat
  simp [FAILURE] at hnat
  omega

theorem open_behaves (htypes : fs.TypedEntries) (h : Tracks opened k.fds) {filename : Addr}
    (hin : inWindow filename) : Behaves fs u k opened (.open filename) := by
  rcases readDentryByName_fst fs u filename with ⟨e, hmatch, hfound⟩ | ⟨hnone, hfound⟩
  · rcases h.flagged.leastFree with ⟨hfull, hno⟩ | ⟨hfree, hleast⟩
    · refine ⟨FAILURE, k, open_of_full hin hfound hfull, Or.inr ⟨Or.inr hno, rfl, rfl⟩, ?_⟩
      rwa [FdCall.track, if_pos rfl]
    · generalize hi : allocLoop k.fds (MAX_FD_PER_PROCESS - MIN_FD_PER_PROCESS)
        MIN_FD_PER_PROCESS = i at hfree hleast
      obtain ⟨htable, hnull⟩ := tableOf_openedFd fs (k.fds i) (htypes e hmatch.1)
      obtain ⟨k', hrun, hk'⟩ := open_of_free hin hfound hi.symm hfree hnull
      obtain ⟨hnat, hok⟩ := ofNat_toNat_of_lt hleast.2.1
      refine ⟨BitVec.ofNat 32 i, k', hrun, Or.inl ⟨e, i, hmatch, hleast, rfl, ?_, ?_, ?_⟩, ?_⟩
      · rw [hk'.fds, Function.update_self]
        rfl
      · rw [hk'.fds, Function.update_self, htable]
      · intro j hj
        rw [hk'.fds, Function.update_of_ne hj]
      · rw [FdCall.track, if_neg hok, hnat, hk'.fds]
        have hflagged := h.flagged.insert hleast.2.1 (openedFd fs (fs.files e) (k.fds i)) rfl
        refine ⟨hflagged.lt, hflagged.flags, fun fd hfd => ?_⟩
        rcases eq_or_ne fd i with rfl | hne
        · rwa [Function.update_self]
        · rw [Function.update_of_ne hne]
          exact h.table fd (Finset.mem_of_mem_insert_of_ne hfd hne)
  · refine ⟨FAILURE, k, open_of_none hin hfound, Or.inr ⟨Or.inl hnone, rfl, rfl⟩, ?_⟩
    rwa [FdCall.track, if_pos rfl]

theorem toInt_of_small {fd : Word} (h0 : 0 ≤ fd.toInt) : fd.toInt = fd.toNat := by
  have hint := BitVec.toInt_eq_toNat_cond fd
  have hlt := fd.isLt
  split_ifs at hint
  · exact hint
  · omega

theorem close_behaves (h : Tracks opened k.fds) (fd : Word) : Behaves fs u k opened (.close fd) := by
  by_cases hrange : fd.toInt < MIN_FD_PER_PROCESS ∨ MAX_FD_PER_PROCESS ≤ fd.toInt
  · have hrun : k.close fd = some (FAILURE, k) := if_pos hrange
    refine ⟨FAILURE, k, hrun, Or.inr ⟨?_, rfl, rfl⟩, ?_⟩
    · simp only [MIN_FD_PER_PROCESS, MAX_FD_PER_PROCESS] at hrange
      omega
    · rwa [FdCall.track, if_pos rfl]
  · rw [not_or, not_lt, not_le] at hrange
    have hnat : fd.toInt = fd.toNat := toInt_of_small (by omega)
    have hlt : fd.toNat < MAX_FD_PER_PROCESS := by omega
    have hflags := h.flags fd.toNat hlt
    by_cases hin : fd.toNat ∈ opened
    · rw [if_pos hin] at hflags
      have hrun : k.close fd = some (SUCCESS, k.setFd fd.toNat fun f => { f with flags := 0#32 }) := by
        have hne : (k.currentPcb.fdArray fd.toNat).flags ≠ 0#32 := by
          rw [show (k.currentPcb.fdArray fd.toNat).flags = 1#32 from hflags]
          decide
        have htable : (k.currentPcb.fdArray fd.toNat).fopsJmpTable ≠ .null := h.table fd.toNat hin
        rw [Kernel.close, if_neg (by omega), if_neg hne]
        cases ht : (k.currentPcb.fdArray fd.toNat).fopsJmpTable with
        | null => exact absurd ht htable
        | _ => rfl
      have hset := setFd_withFds (k := k) fd.toNat fun f => { f with flags := 0#32 }
      refine ⟨SUCCESS, _, hrun, Or.inl ⟨by exact_mod_cast hrange.1, by exact_mod_cast hrange.2, hin,
        rfl, fun j hj => by rw [hset.fds, Function.update_of_ne hj]⟩, ?_⟩
      rw [FdCall.track, if_neg (by decide), hset.fds]
      have hflagged := h.flagged.erase fd.toNat { k.fds fd.toNat with flags := 0#32 } rfl
      refine ⟨hflagged.lt, hflagged.flags, fun i hi => ?_⟩
      rw [Function.update_of_ne (Finset.ne_of_mem_erase hi)]
      exact h.table i (Finset.mem_of_mem_erase hi)
    · rw [if_neg hin] at hflags
      have hrun : k.close fd = some (FAILURE, k) := by
        rw [Kernel.close, if_neg (by omega)]
        exact if_pos hflags
      refine ⟨FAILURE, k, hrun, Or.inr ⟨fun hc => hin hc.2.2, rfl, rfl⟩, ?_⟩
      rwa [FdCall.track, if_pos rfl]

theorem read_behaves (h : Tracks opened k.fds) (stdin : ℕ → UInt8) (fd : Word) {buf : Addr}
    (numBytes : Word) (hin : inWindow buf) :
    Behaves fs u k opened (.read stdin fd buf numBytes) := by
  by_cases hopen : k.Open fd
  · obtain ⟨ret, k', hrun⟩ : ∃ ret k', (k.read fs stdin fd buf numBytes u).1 = some (ret, k') := by
      rw [read_of_open k fs fd buf numBytes stdin hin hopen]
      cases ht : (k.fds fd.toNat).fopsJmpTable with
      | null => exact absurd ht (h.table _ ((h.open_iff fd).mp hopen).2)
      | _ => exact ⟨_, _, rfl⟩
    obtain ⟨pos, hk⟩ := read_withFds hrun
    refine ⟨ret, k', hrun, ⟨⟨pos, hk.fds⟩, fun hno => ?_⟩, ?_⟩
    · exact absurd ((h.open_iff fd).mp hopen) hno
    · rw [hk.fds]
      exact h.withPosition _ _
  · have hrun := read_of_rejected k fs fd buf numBytes u stdin fun hc => hopen hc.2
    exact ⟨FAILURE, k, congrArg Prod.fst hrun,
      ⟨⟨_, (withPosition_self k.fds fd.toNat).symm⟩, fun _ => ⟨hrun, rfl, rfl⟩⟩, h⟩

theorem write_behaves (h : Tracks opened k.fds) (fd : Word) {buf : Addr} (numBytes : Word)
    (hin : inWindow buf) : Behaves fs u k opened (.write fd buf numBytes) := by
  by_cases hopen : k.Open fd
  · obtain ⟨ret, k', hrun⟩ : ∃ ret k', (k.write fd buf numBytes u).1 = some (ret, k') := by
      rw [write_of_open k fd buf numBytes hin hopen]
      cases ht : (k.fds fd.toNat).fopsJmpTable with
      | null => exact absurd ht (h.table _ ((h.open_iff fd).mp hopen).2)
      | _ => exact ⟨_, _, rfl⟩
    have hk := write_withFds hrun
    refine ⟨ret, k', hrun, ⟨hk.fds, fun hno => absurd ((h.open_iff fd).mp hopen) hno⟩, ?_⟩
    rw [hk.fds]
    exact h
  · have hrun := write_of_rejected k fd buf numBytes u fun hc => hopen hc.2
    exact ⟨FAILURE, k, congrArg Prod.fst hrun, ⟨rfl, fun _ => ⟨hrun, rfl, rfl⟩⟩, h⟩

theorem call_behaves (htypes : fs.TypedEntries) (h : Tracks opened k.fds) (u : UserMem) (c : FdCall)
    (hin : c.InWindow) : Behaves fs u k opened c := by
  cases c with
  | «open» filename => exact open_behaves htypes h hin
  | close fd => exact close_behaves h fd
  | read stdin fd buf numBytes => exact read_behaves h stdin fd numBytes hin
  | write fd buf numBytes => exact write_behaves h fd numBytes hin

theorem fdStep_tracks (htypes : fs.TypedEntries) (s : Descriptors) (c : UserMem × FdCall)
    (s' : Descriptors) (h : Tracks s.opened s.kernel.fds) (hstep : fdStep fs s c s') :
    Tracks s'.opened s'.kernel.fds := by
  obtain ⟨hin, ret, hrun, hopened⟩ := hstep
  obtain ⟨ret', k', hrun', -, htracks⟩ := call_behaves htypes h c.1 c.2 hin
  obtain ⟨rfl, rfl⟩ : ret = ret' ∧ s'.kernel = k' := by simpa [hrun] using hrun'
  rwa [hopened]

end Calls

theorem Kernel.Starts.tracks {k k' : Kernel} {pid : ℕ} {flags : Word} (h : k.Starts pid flags k') :
    Tracks {0, 1} k'.fds := by
  obtain ⟨old, hold⟩ := h.child.fdArray
  have hesp0 : k'.esp0 = kernelStackTop pid := by
    obtain ⟨args, mem, rfl⟩ := h.eq
    rfl
  have hfds : k'.fds = clearFdArray
      (Function.update (Function.update old STDIN.toNat terminalFd) STDOUT.toNat terminalFd) := by
    rw [Kernel.fds, currentPcb, pcbCurr_of_kernelStackTop h.pid_lt hesp0, hold]
  have happly : ∀ fd, k'.fds fd = if 2 ≤ fd ∧ fd < 8 then ⟨.null, 0#32, 0#32, 0#32⟩
      else if fd = 0 ∨ fd = 1 then terminalFd else old fd := by
    intro fd
    rw [hfds, clearFdArray, Loops.forRange_fill fun i a _ _ => rfl]
    simp only [Function.update_apply, STDIN, STDOUT, BitVec.toNat_ofNat, MIN_FD_PER_PROCESS,
      MAX_FD_PER_PROCESS]
    split_ifs <;> first | rfl | omega
  refine ⟨fun fd hfd => ?_, fun fd hfd => ?_, fun fd hfd => ?_⟩
  · simp only [Finset.mem_insert, Finset.mem_singleton] at hfd
    simp only [MAX_FD_PER_PROCESS]
    omega
  · rw [happly]
    simp only [Finset.mem_insert, Finset.mem_singleton, MAX_FD_PER_PROCESS] at hfd ⊢
    by_cases h01 : fd = 0 ∨ fd = 1
    · rw [if_neg (by omega), if_pos h01, if_pos h01]
      rfl
    · rw [if_pos (by omega), if_neg h01]
  · simp only [Finset.mem_insert, Finset.mem_singleton] at hfd
    rw [happly, if_neg (by omega), if_pos hfd]
    exact FopsTable.noConfusion

/-- After any calls of a new process on descriptors, exactly 0, 1 and the
descriptors returned by `open` and not closed since are in use, and every call
returns and does what a table with these descriptors calls for. -/
theorem descriptor_table (fs : Fs) (htypes : fs.TypedEntries) (k₀ k : Kernel) (residue : Residue)
    (command : ℕ → UInt8) (flags entryPoint : Word)
    (hexec : Id.run (k₀.internalExecute fs residue (fun i => (command i : Id UInt8)) flags) =
      some (.started k entryPoint))
    (p : List ((UserMem × FdCall) × Descriptors)) (hp : Runs.Path (fdStep fs) ⟨k, {0, 1}⟩ p) :
    let s := Runs.final ⟨k, {0, 1}⟩ p
    (∀ fd, fd ∈ s.opened ↔ fd < MAX_FD_PER_PROCESS ∧ (s.kernel.fds fd).flags &&& 1#32 ≠ 0#32) ∧
      ∀ (u : UserMem) (c : FdCall), c.InWindow →
        ∃ ret k', (c.run fs s.kernel u).1 = some (ret, k') ∧ FdSpec fs u s.kernel s.opened ret k' c := by
  intro s
  obtain ⟨pid, hstarts⟩ := k₀.internalExecute_started flags fs residue hexec
  have hinv : Tracks s.opened s.kernel.fds :=
    Runs.invariant_final (I := fun s => Tracks s.opened s.kernel.fds)
      (fun s c s' h _ hstep => fdStep_tracks htypes s c s' h hstep) hstarts.tracks hp
      (Runs.meets_true (G := fun _ _ => True) fun _ _ => trivial)
  refine ⟨fun fd => ⟨fun hfd => ?_, fun hfd => (hinv.flagged.flags_and hfd.1).mp hfd.2⟩, fun u c hin => ?_⟩
  · exact ⟨hinv.lt fd hfd, (hinv.flagged.flags_and (hinv.lt fd hfd)).mpr hfd⟩
  · obtain ⟨ret, k', hrun, hspec, -⟩ := call_behaves htypes hinv u c hin
    exact ⟨ret, k', hrun, hspec⟩

theorem shellFs_typedEntries : shellFs.TypedEntries := by
  intro e he
  have hone : shellFs.direntries.toInt.toNat = 1 := by decide
  obtain rfl : e = 0 := by omega
  decide

/-- What a call leads to, when it returns. -/
def fdNext (fs : Fs) (s : Descriptors) (c : UserMem × FdCall) : Option Descriptors :=
  (c.2.run fs s.kernel c.1).1.map fun r => ⟨r.2, c.2.track r.1 s.opened⟩

theorem fdNext_path (fs : Fs) {cs : List (UserMem × FdCall)} (h : ∀ c ∈ cs, c.2.InWindow)
    (s : Descriptors) : Runs.Path (fdStep fs) s (Runs.follow (fdNext fs) s cs) := by
  refine Runs.path_imp (fun x hx s hstep => ?_) (Runs.follow_path _ _ _)
  obtain ⟨⟨ret, k'⟩, hrun, hs'⟩ := Option.map_eq_some_iff.mp hstep
  rw [← hs']
  exact ⟨h x.1 (Runs.follow_mem _ _ _ x hx), ret, hrun, rfl⟩

/-- Memory with a string at the start of the program. -/
def nameMemory (name : List UInt8) : UserMem :=
  ⟨fun a => name.getD (a - 0x8048000#32).toNat NULL_CHAR, []⟩

/-- The first shell opens its own file twice, reads it, closes 7, which is not in use, and 2. -/
def shellFdCalls : List (UserMem × FdCall) :=
  [.open 0x8048000#32, .open 0x8048000#32, .read (fun _ => 0) 2#32 0x8049000#32 4#32, .close 7#32,
    .close 2#32].map fun c => (nameMemory SHELL, c)

@[irreducible] def shellFdRun : List ((UserMem × FdCall) × Descriptors) :=
  Runs.follow (fdNext shellFs) ⟨shellKernel, {0, 1}⟩ shellFdCalls

theorem shellFdRun_opened : shellFdRun.length = 5 ∧
    (Runs.final ⟨shellKernel, {0, 1}⟩ shellFdRun).opened = {0, 1, 3} := by
  decide +kernel

/-- The shell has 0, 1 and 3 in use then, and gets 2 when it opens its file once more. -/
theorem descriptor_table_shell :
    let k := (Runs.final ⟨shellKernel, {0, 1}⟩ shellFdRun).kernel
    (∀ fd, fd ∈ ({0, 1, 3} : Finset ℕ) ↔
        fd < MAX_FD_PER_PROCESS ∧ (k.fds fd).flags &&& 1#32 ≠ 0#32) ∧
      ∃ ret k', (k.open shellFs 0x8048000#32 (nameMemory SHELL)).1 = some (ret, k') ∧
        ret = 2#32 ∧ ∀ j ≠ 2, k'.fds j = k.fds j := by
  intro k
  obtain ⟨entryPoint, hexec⟩ := shellKernel_exec
  have hpath : Runs.Path (fdStep shellFs) ⟨shellKernel, {0, 1}⟩ shellFdRun := by
    unfold shellFdRun
    refine fdNext_path shellFs (fun c hc => ?_) _
    simp only [shellFdCalls, List.map_cons, List.map_nil, List.mem_cons, List.not_mem_nil,
      or_false] at hc
    rcases hc with rfl | rfl | rfl | rfl | rfl
    · exact show inWindow 0x8048000#32 by decide
    · exact show inWindow 0x8048000#32 by decide
    · exact show inWindow 0x8049000#32 by decide
    · trivial
    · trivial
  obtain ⟨htable, hcalls⟩ := descriptor_table shellFs shellFs_typedEntries bootKernel shellKernel
    zeroResidue (fun i => Id.run (ofList SHELL i)) FIRST_TERM_SHELL entryPoint hexec shellFdRun hpath
  rw [shellFdRun_opened.2] at htable hcalls
  obtain ⟨ret, k', hrun, hspec⟩ := hcalls (nameMemory SHELL) (.open 0x8048000#32)
    (show inWindow 0x8048000#32 by decide)
  have hret : (k.open shellFs 0x8048000#32 (nameMemory SHELL)).1.map (·.1) = some 2#32 := by
    decide +kernel
  rw [show (k.open shellFs 0x8048000#32 (nameMemory SHELL)).1 = some (ret, k') from hrun] at hret
  obtain rfl : ret = 2#32 := Option.some.inj hret
  refine ⟨htable, 2#32, k', hrun, rfl, ?_⟩
  rcases hspec with ⟨e, i, -, hi, -, -, -, hothers⟩ | ⟨-, hfailed, -⟩
  · have hfree : LeastFree {0, 1, 3} 2 :=
      ⟨by decide, by decide, by decide, fun j hmin hj => absurd hj (not_lt.mpr hmin)⟩
    obtain rfl : i = 2 := hi.unique hfree
    exact hothers
  · exact absurd hfailed (by decide)

end SnoopDos
