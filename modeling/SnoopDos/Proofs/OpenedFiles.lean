import SnoopDos.Proofs.DirectoryListing
import SnoopDos.Proofs.FdTable

/-! The descriptor that `open` hands out: which file operations it calls through and
which inode it stands for. -/

namespace SnoopDos

open Kernel

/-- A call made with `c.1` as the memory of the process, with any pointer. -/
def callStep (fs : Fs) (s : Descriptors) (c : UserMem × FdCall) (s' : Descriptors) : Prop :=
  ∃ ret, (c.2.run fs s.kernel c.1).1 = some (ret, s'.kernel) ∧ s'.opened = c.2.track ret s.opened

/-- `open` fails and changes no descriptor, or it returns a descriptor for the entry it
found, with the operations of its type and, for a regular file, an inode of the image. -/
def Dispatches (fs : Fs) (u : UserMem) (k : Kernel) (filename : Addr) : Prop :=
  (∃ k', (k.open fs filename u).1 = some (FAILURE, k') ∧ k'.fds = k.fds) ∨
  ∃ e i k', fs.FirstMatch u filename e ∧ i < MAX_FD_PER_PROCESS ∧
    (k.open fs filename u).1 = some (BitVec.ofNat 32 i, k') ∧
    tableOf (fs.files e).filetype = some (k'.fds i).fopsJmpTable ∧
    ((fs.files e).filetype = FILETYPE_REGULAR → (fs.files e).inode.toNat < fs.inodes.toNat)

/-- A device, a directory, or a regular file whose inode is in the image. -/
def Dentry.WellFormed (fs : Fs) (entry : Dentry) : Prop :=
  entry.filetype = FILETYPE_DEVICE ∨ entry.filetype = FILETYPE_DIRECTORY ∨
    (entry.filetype = FILETYPE_REGULAR ∧ entry.inode.toNat < fs.inodes.toNat)

section Dispatch

variable {fs : Fs} {u : UserMem} {k : Kernel} {opened : Finset ℕ} {filename : Addr}

theorem Fs.FirstMatch.unique {e e' : ℕ} (h : fs.FirstMatch u filename e)
    (h' : fs.FirstMatch u filename e') : e = e' := by
  rcases lt_trichotomy e e' with hlt | heq | hgt
  · exact absurd h.2.1 (h'.2.2 e hlt)
  · exact heq
  · exact absurd h'.2.1 (h.2.2 e' hgt)

theorem readDentryByName_of_firstMatch {e : ℕ} (h : fs.FirstMatch u filename e) :
    (readDentryByName fs (UserMem.stringAt filename) u).1 = some (fs.files e) := by
  rcases readDentryByName_fst fs u filename with ⟨e', h', hfound⟩ | ⟨hnone, -⟩
  · rw [h.unique h', hfound]
  · exact absurd h.2.1 (hnone e h.1)

theorem callStep_flagged (s : Descriptors) (c : UserMem × FdCall) (s' : Descriptors)
    (h : Flagged s.opened s.kernel.fds) (hstep : callStep fs s c s') :
    Flagged s'.opened s'.kernel.fds := by
  obtain ⟨ret, hrun, hopened⟩ := hstep
  rw [hopened]
  cases hc : c.2 with
  | «open» filename =>
    rw [hc] at hrun
    rcases open_cases hrun with ⟨rfl, hk, -⟩ | ⟨entry, i, -, hi, hfree, rfl, hk⟩
    · rw [hk, FdCall.track, if_pos rfl]
      exact h
    · have hleast := (h.leastFree.resolve_left fun hfull => hfree (hi ▸ hfull.1)).2
      rw [← hi] at hleast
      obtain ⟨hnat, hok⟩ := ofNat_toNat_of_lt hleast.2.1
      rw [hk.fds, FdCall.track, if_neg hok, hnat]
      exact h.insert hleast.2.1 _ rfl
  | close fd =>
    rw [hc] at hrun
    rcases close_cases hrun with ⟨rfl, hk⟩ | ⟨rfl, hk⟩
    · rw [hk, FdCall.track, if_pos rfl]
      exact h
    · rw [hk, (setFd_withFds fd.toNat _).fds, FdCall.track, if_neg (by decide)]
      exact h.erase _ _ rfl
  | read stdin fd buf numBytes =>
    rw [hc] at hrun
    obtain ⟨pos, hk⟩ := read_withFds hrun
    rw [hk.fds]
    exact h.withPosition _ _
  | write fd buf numBytes =>
    rw [hc] at hrun
    rw [(write_withFds hrun).fds]
    exact h

theorem wellFormed_of_tableOf {entry : Dentry} {t : FopsTable} (h : tableOf entry.filetype = some t)
    (hinode : entry.filetype = FILETYPE_REGULAR → entry.inode.toNat < fs.inodes.toNat) :
    entry.WellFormed fs := by
  rw [tableOf] at h
  split_ifs at h with h0 h1 h2
  · exact Or.inl h0
  · exact Or.inr (Or.inl h1)
  · exact Or.inr (Or.inr ⟨h2, hinode h2⟩)

theorem Dentry.WellFormed.typed {entry : Dentry} (h : entry.WellFormed fs) :
    entry.filetype = FILETYPE_DEVICE ∨ entry.filetype = FILETYPE_DIRECTORY ∨
      entry.filetype = FILETYPE_REGULAR :=
  h.imp_right fun h => h.imp_right And.left

theorem Dentry.WellFormed.inode_lt {entry : Dentry} (h : entry.WellFormed fs)
    (hregular : entry.filetype = FILETYPE_REGULAR) : entry.inode.toNat < fs.inodes.toNat := by
  rcases h with h | h | ⟨-, h⟩
  · exact absurd (h.symm.trans hregular) (by decide)
  · exact absurd (h.symm.trans hregular) (by decide)
  · exact h

theorem dispatches_iff (h : Flagged opened k.fds) : Dispatches fs u k filename ↔
    (inWindow filename → ∀ e, fs.FirstMatch u filename e → (∃ i, LeastFree opened i) →
      (fs.files e).WellFormed fs) := by
  constructor
  · rintro (⟨k', hrun, -⟩ | ⟨e', i, k', hmatch', hi, hrun, htable, hinode⟩) hin e hmatch hslot
    · rcases open_cases hrun with ⟨-, -, hfail⟩ | ⟨entry, i, -, hi, hfree, hret, -⟩
      · have hfull := hfail _ hin (readDentryByName_of_firstMatch hmatch)
        obtain ⟨i, hmin, hmax, hout, -⟩ := hslot
        rcases h.leastFree with ⟨-, hall⟩ | ⟨hfree, -⟩
        · exact absurd (hall i hmin hmax) hout
        · exact absurd hfull hfree
      · have hleast := (h.leastFree.resolve_left fun hfull => hfree (hi ▸ hfull.1)).2
        rw [← hi] at hleast
        exact absurd hret.symm (ofNat_toNat_of_lt hleast.2.1).2
    · rw [hmatch.unique hmatch']
      exact wellFormed_of_tableOf htable hinode
  · intro hwell
    by_cases hin : inWindow filename
    · rcases readDentryByName_fst fs u filename with ⟨e, hmatch, hfound⟩ | ⟨-, hfound⟩
      · rcases h.leastFree with ⟨hfull, -⟩ | ⟨hfree, hleast⟩
        · exact Or.inl ⟨k, open_of_full hin hfound hfull, rfl⟩
        · have hentry := hwell hin e hmatch ⟨_, hleast⟩
          generalize hi : allocLoop k.fds (MAX_FD_PER_PROCESS - MIN_FD_PER_PROCESS)
            MIN_FD_PER_PROCESS = i at hfree hleast
          obtain ⟨htable, hnull⟩ := tableOf_openedFd fs (k.fds i) hentry.typed
          obtain ⟨k', hrun, hk'⟩ := open_of_free hin hfound hi.symm hfree hnull
          refine Or.inr ⟨e, i, k', hmatch, hleast.2.1, hrun, ?_, hentry.inode_lt⟩
          rw [hk'.fds, Function.update_self, htable]
      · exact Or.inl ⟨k, open_of_none hin hfound, rfl⟩
    · refine Or.inl ⟨k, ?_, rfl⟩
      rw [Kernel.open, if_pos hin]
      rfl

end Dispatch

/-- Whatever calls a process has made on descriptors, its next `open` dispatches through
the table of the file's type, or fails, exactly when the entry that it finds is well formed
or there is no descriptor for it. -/
theorem open_dispatches (fs : Fs) (k₀ k : Kernel) (residue : Residue) (command : ℕ → UInt8)
    (flags entryPoint : Word)
    (hexec : Id.run (k₀.internalExecute fs residue (fun i => (command i : Id UInt8)) flags) =
      some (.started k entryPoint))
    (p : List ((UserMem × FdCall) × Descriptors)) (hp : Runs.Path (callStep fs) ⟨k, {0, 1}⟩ p)
    (u : UserMem) (filename : Addr) :
    let s := Runs.final ⟨k, {0, 1}⟩ p
    Dispatches fs u s.kernel filename ↔
      (inWindow filename → ∀ e, fs.FirstMatch u filename e → (∃ i, LeastFree s.opened i) →
        (fs.files e).WellFormed fs) := by
  intro s
  obtain ⟨pid, hstarts⟩ := k₀.internalExecute_started flags fs residue hexec
  have hinv : Flagged s.opened s.kernel.fds :=
    Runs.invariant_final (I := fun s => Flagged s.opened s.kernel.fds)
      (fun s c s' h _ hstep => callStep_flagged s c s' h hstep) hstarts.tracks.flagged hp
      (Runs.meets_true (G := fun _ _ => True) fun _ _ => trivial)
  exact dispatches_iff hinv

/-- The image of the shell with one more file, `x`, whose type is none of the three. -/
def oddFs : Fs where
  image a := (List.lookup a [(0, 2), (128, 0x78), (160, 3)]).getD (shellFs.image a)
  inodesAddr := shellFs.inodesAddr

def nameX : UserMem := ⟨fun a => if a = 0x8048000#32 then 0x78 else 0, []⟩

theorem oddFs_firstMatch : oddFs.FirstMatch nameX 0x8048000#32 1 := by
  refine ⟨by decide, (entryMatches_iff _ _ _ _).mpr (by decide), fun e he => ?_⟩
  obtain rfl : e = 0 := by omega
  exact (entryMatches_iff _ _ _ _).not.mpr (by decide)

theorem oddFs_exec : ∃ k entryPoint,
    Id.run (bootKernel.internalExecute oddFs zeroResidue (ofList SHELL) FIRST_TERM_SHELL) =
      some (.started k entryPoint) := ⟨_, _, rfl⟩

theorem leastFree_two : LeastFree {0, 1} 2 :=
  ⟨by decide, by decide, by decide, fun j hmin hj => absurd hj (not_lt.mpr hmin)⟩

/-- The state in which the first program of this image begins. -/
@[irreducible] def oddKernel : Kernel :=
  match Id.run (bootKernel.internalExecute oddFs zeroResidue (ofList SHELL) FIRST_TERM_SHELL) with
  | some (.started k _) => k
  | _ => bootKernel

theorem oddKernel_exec : ∃ entryPoint,
    Id.run (bootKernel.internalExecute oddFs zeroResidue (ofList SHELL) FIRST_TERM_SHELL) =
      some (.started oddKernel entryPoint) := by
  obtain ⟨k, entryPoint, hexec⟩ := oddFs_exec
  exact ⟨entryPoint, by rw [oddKernel, hexec]⟩

/-- The first program opens the file of the shell, fails to close 7 and closes 2. -/
@[irreducible] def oddRun : List ((UserMem × FdCall) × Descriptors) :=
  Runs.follow (fdNext oddFs) ⟨oddKernel, {0, 1}⟩
    ([.open 0x8048000#32, .close 7#32, .close 2#32].map fun c => (nameMemory SHELL, c))

theorem oddRun_path : Runs.Path (callStep oddFs) ⟨oddKernel, {0, 1}⟩ oddRun := by
  unfold oddRun
  refine Runs.path_imp (fun x _ s hstep => ?_) (Runs.follow_path _ _ _)
  obtain ⟨⟨ret, k'⟩, hrun, hs'⟩ := Option.map_eq_some_iff.mp hstep
  rw [← hs']
  exact ⟨ret, hrun, rfl⟩

theorem oddRun_opened : oddRun.length = 3 ∧
    (Runs.final ⟨oddKernel, {0, 1}⟩ oddRun).opened = {0, 1} := by
  decide +kernel

/-- Then it could open the file of the shell again, but not `x`. -/
theorem open_dispatches_shell :
    let k := (Runs.final ⟨oddKernel, {0, 1}⟩ oddRun).kernel
    Dispatches oddFs (nameMemory SHELL) k 0x8048000#32 ∧ ¬ Dispatches oddFs nameX k 0x8048000#32 := by
  intro k
  obtain ⟨entryPoint, hexec⟩ := oddKernel_exec
  have hdispatches (u : UserMem) := open_dispatches oddFs bootKernel oddKernel zeroResidue
    (fun i => Id.run (ofList SHELL i)) FIRST_TERM_SHELL entryPoint hexec oddRun oddRun_path u
    0x8048000#32
  constructor
  · have hshell : oddFs.FirstMatch (nameMemory SHELL) 0x8048000#32 0 :=
      ⟨by decide, (entryMatches_iff _ _ _ _).mpr (by decide), fun e he => absurd he (Nat.not_lt_zero e)⟩
    refine (hdispatches _).mpr fun _ e he _ => ?_
    rw [he.unique hshell]
    exact Or.inr (Or.inr (by decide))
  · refine fun h => absurd ((hdispatches _).mp h (by decide) 1 oddFs_firstMatch ?_).typed (by decide)
    rw [oddRun_opened.2]
    exact ⟨2, leastFree_two⟩

/-- The first program opens `x`. -/
theorem odd_type_dispatched : ∃ k entryPoint,
    Id.run (bootKernel.internalExecute oddFs zeroResidue (ofList SHELL) FIRST_TERM_SHELL) =
      some (.started k entryPoint) ∧ ¬ Dispatches oddFs nameX k 0x8048000#32 := by
  obtain ⟨k, entryPoint, hexec⟩ := oddFs_exec
  obtain ⟨pid, hstarts⟩ := bootKernel.internalExecute_started _ _ _ hexec
  refine ⟨k, entryPoint, hexec, fun h => ?_⟩
  have hentry := (dispatches_iff hstarts.tracks.flagged).mp h (by decide) 1 oddFs_firstMatch
    ⟨2, leastFree_two⟩
  exact absurd hentry.typed (by decide)

section Inodes

/-- The pointer to inode `i` gives its index back, and a descriptor opened on an entry
with this inode reads it, whatever has moved the descriptor's position since. -/
structure Fs.IdentifiesInode (fs : Fs) (i : Word) : Prop where
  number : getInodeNum fs (getInodePtr fs i) = i
  reads : ∀ (u : UserMem) (k k' : Kernel) (filename : Addr) (e fd : ℕ),
    fs.FirstMatch u filename e → (fs.files e).filetype = FILETYPE_REGULAR →
    (fs.files e).inode = i → fd < MAX_FD_PER_PROCESS →
    (k.open fs filename u).1 = some (BitVec.ofNat 32 fd, k') →
    ∀ (u₁ : UserMem) (k₁ : Kernel) (buf : Addr) (nbytes : Word),
      (k₁.fds fd).inode = (k'.fds fd).inode →
      let r := readData fs i (k₁.fds fd).position nbytes
      (k₁.readFile fs fd buf nbytes u₁).1.1 = r.ret ∧
        (k₁.readFile fs fd buf nbytes u₁).2 = (UserMem.storeBytes buf r.bytes u₁).2

variable {fs : Fs} {i : Word}

theorem getInodeNum_getInodePtr (hi : i.toNat < fs.inodes.toNat) :
    (getInodeNum fs (getInodePtr fs i)).toNat =
      if i.toNat % 256 < 128 then i.toNat % 256 else 2 ^ 20 - 256 + i.toNat % 256 := by
  have hscaled : (i * BitVec.ofNat 32 FS_BLOCK_LENGTH * BitVec.ofNat 32 FS_BLOCK_LENGTH).toNat =
      i.toNat % 256 * 2 ^ 24 := by
    simp only [BitVec.toNat_mul, BitVec.toNat_ofNat, FS_BLOCK_LENGTH]
    omega
  have hint := BitVec.toInt_eq_toNat_cond
    (i * BitVec.ofNat 32 FS_BLOCK_LENGTH * BitVec.ofNat 32 FS_BLOCK_LENGTH)
  rw [hscaled] at hint
  rw [getInodeNum, getInodePtr, if_pos hi, BitVec.add_comm, BitVec.add_sub_cancel]
  generalize i * BitVec.ofNat 32 FS_BLOCK_LENGTH * BitVec.ofNat 32 FS_BLOCK_LENGTH = x at *
  have hshift : ((x.sshiftRight 12).toNat : ℤ) = x.toInt / 2 ^ 12 % 2 ^ 32 := by
    have h := congrArg BitVec.toNat (BitVec.ofInt_toInt (x := x.sshiftRight 12))
    rw [BitVec.toInt_sshiftRight, Int.shiftRight_eq_div_pow] at h
    rw [← h, BitVec.toNat_ofInt]
    omega
  have hblock : (BitVec.ofNat 32 FS_BLOCK_LENGTH).toNat = 4096 := by decide
  rw [BitVec.toNat_udiv, hblock]
  split_ifs at hint ⊢ <;> omega

theorem getInodeNum_eq_iff (hi : i.toNat < fs.inodes.toNat) :
    getInodeNum fs (getInodePtr fs i) = i ↔
      i.toNat < 128 ∨ (2 ^ 20 - 128 ≤ i.toNat ∧ i.toNat < 2 ^ 20) := by
  rw [← BitVec.toNat_inj, getInodeNum_getInodePtr hi]
  split_ifs
  · omega
  · omega

theorem open_inode {u : UserMem} {k k' : Kernel} {filename : Addr} {e fd : ℕ}
    (hmatch : fs.FirstMatch u filename e) (hregular : (fs.files e).filetype = FILETYPE_REGULAR)
    (hfd : fd < MAX_FD_PER_PROCESS)
    (hopen : (k.open fs filename u).1 = some (BitVec.ofNat 32 fd, k')) :
    (k'.fds fd).inode = getInodePtr fs (fs.files e).inode := by
  obtain ⟨hnat, hok⟩ := ofNat_toNat_of_lt hfd
  rcases open_cases hopen with ⟨hret, -⟩ | ⟨entry, j, hfound, hj, -, hret, hk⟩
  · exact absurd hret hok
  · obtain rfl : fs.files e = entry :=
      Option.some.inj ((readDentryByName_of_firstMatch hmatch).symm.trans hfound)
    have hle := (allocLoop_spec k.fds (MAX_FD_PER_PROCESS - MIN_FD_PER_PROCESS)
      MIN_FD_PER_PROCESS).2.1
    rw [← hj] at hle
    have hsame : j = fd := by
      have hnat' := congrArg BitVec.toNat hret
      rw [hnat, BitVec.toNat_ofNat] at hnat'
      simp only [MIN_FD_PER_PROCESS, MAX_FD_PER_PROCESS] at hle
      omega
    rw [hk.fds, hsame, Function.update_self]
    exact if_neg (not_not.mpr hregular)

variable (fs) in
theorem readFile_reads (k : Kernel) (fd : ℕ) (buf : Addr) (nbytes : Word) (u : UserMem) :
    let r := readData fs (getInodeNum fs (k.fds fd).inode) (k.fds fd).position nbytes
    (k.readFile fs fd buf nbytes u).1.1 = r.ret ∧
      (k.readFile fs fd buf nbytes u).2 = (UserMem.storeBytes buf r.bytes u).2 := by
  intro r
  rw [Kernel.readFile, UserMem.bind_run]
  split_ifs
  · exact ⟨rfl, rfl⟩
  · exact ⟨rfl, rfl⟩

/-- Scaled twice, an index that the image has comes back exactly from these two ranges. -/
theorem identifies_inode (fs : Fs) (i : Word) (hi : i.toNat < fs.inodes.toNat) :
    fs.IdentifiesInode i ↔ i.toNat < 128 ∨ (2 ^ 20 - 128 ≤ i.toNat ∧ i.toNat < 2 ^ 20) := by
  constructor
  · intro h
    exact (getInodeNum_eq_iff hi).mp h.number
  · intro hrange
    have hnumber := (getInodeNum_eq_iff hi).mpr hrange
    refine ⟨hnumber, fun u k k' filename e fd hmatch hregular hinode hfd hopen => ?_⟩
    intro u₁ k₁ buf nbytes hsame
    have hread := readFile_reads fs k₁ fd buf nbytes u₁
    rw [hsame, open_inode hmatch hregular hfd hopen, hinode, hnumber] at hread
    exact hread

def manyInodesFs : Fs where
  image a := if a = 4 then 129 else 0
  inodesAddr := 0x441000#32

/-- Its inode 127 is the last that comes back, and 128 is the first that does not. -/
theorem identifies_inode_last : manyInodesFs.IdentifiesInode 127#32 ∧
    ¬ manyInodesFs.IdentifiesInode 128#32 :=
  ⟨(identifies_inode manyInodesFs 127#32 (by decide)).mpr (Or.inl (by decide)), fun h =>
    absurd ((identifies_inode manyInodesFs 128#32 (by decide)).mp h) (by decide)⟩

/-- The pointer to inode 128 gives the number 1048448. -/
theorem inode_128_lost : ¬ manyInodesFs.IdentifiesInode 128#32 := fun h =>
  absurd h.number (by decide)

end Inodes

end SnoopDos
