import SnoopDos.Proofs.Execute

/-! The checks of `internal_execute`. It reads the file into variables on its stack
that it has not initialised, and leaves its failure exits without the
`restore_flags` of its normal end. -/

namespace SnoopDos

open Kernel

section Failure

variable {k k' : Kernel} {fs : Fs} {residue : Residue} {command : ℕ → UInt8} {flags : Word} {p : ℕ}

theorem internalExecute_failed (hlive : k.Used p)
    (hexec : Id.run (k.internalExecute fs residue (fun i => (command i : Id UInt8)) flags) =
      some (.failed k')) : k' = k.setInterruptFlag false := by
  rcases k.internalExecute_cases flags fs residue (fun i => (command i : Id UInt8)) with
    h | h | ⟨_, _, _, -, h⟩
  · simp [h] at hexec
  · rw [h] at hexec
    simp only [Option.some.injEq, ExecResult.failed.injEq] at hexec
    rw [← hexec, executePrologue_of_used k hlive]
  · simp [h] at hexec

/-- A failed call leaves the whole state as it was exactly when interrupts were
disabled on entry. -/
theorem failing_execute (k k' : Kernel) (fs : Fs) (residue : Residue) (command : ℕ → UInt8)
    (flags : Word) (p : ℕ) (hlive : k.Used p)
    (hexec : Id.run (k.internalExecute fs residue (fun i => (command i : Id UInt8)) flags) =
      some (.failed k')) : k' = k ↔ k.interruptFlag = false := by
  rw [internalExecute_failed hlive hexec]
  constructor
  · intro h
    rw [← h]
    rfl
  · intro h
    rw [Kernel.setInterruptFlag, ← h]

theorem failing_execute_disabled : ∃ k',
    Id.run ((shellKernel.setInterruptFlag false).internalExecute shellFs zeroResidue
      (fun i => ofList [0x78] i) USER_EXECUTE) = some (.failed k') ∧
    k' = shellKernel.setInterruptFlag false := by
  have hlive : (shellKernel.setInterruptFlag false).Used 0 :=
    (shellKernel_starts.used_iff 0).mpr (Or.inl rfl)
  obtain ⟨k', hexec⟩ : ∃ k', Id.run ((shellKernel.setInterruptFlag false).internalExecute shellFs
      zeroResidue (fun i => ofList [0x78] i) USER_EXECUTE) = some (.failed k') := ⟨_, rfl⟩
  exact ⟨k', hexec, (failing_execute _ k' shellFs zeroResidue (fun i => Id.run (ofList [0x78] i))
    USER_EXECUTE 0 hlive hexec).mpr rfl⟩

/-- The first shell tries to execute a file that does not exist, with interrupts
enabled as in all user code. -/
theorem failing_execute_shell : ∃ k', shellKernel.Used 0 ∧
    Id.run (shellKernel.internalExecute shellFs zeroResidue (ofList [0x78]) USER_EXECUTE) =
      some (.failed k') ∧ k' ≠ shellKernel := by
  refine ⟨_, (shellKernel_starts.used_iff 0).mpr (Or.inl rfl), rfl, fun h => ?_⟩
  have hflag := congrArg Kernel.interruptFlag h
  exact absurd hflag (by decide)

end Failure

section Residue

namespace Fs

variable (fs : Fs)

def firstBytes (inode : Word) : ℕ :=
  if inode.toNat < fs.inodes.toNat ∧ fs.badBlock (fs.blockNumber inode.toNat 0) = false then
    (fs.length inode.toNat).toNat
  else 0

/-- A regular file with the magic number and an entry point. -/
structure IsExecutable (entry : Dentry) : Prop where
  regular : entry.filetype = FILETYPE_REGULAR
  inode_lt : entry.inode.toNat < fs.inodes.toNat
  length : 28 ≤ (fs.length entry.inode.toNat).toNat
  magic : (List.range 4).map (fs.fileByte entry.inode.toNat) = EXECUTABLE_CHECK

/-- The variables of `internal_execute` are filled from the file, or the bytes that
are differ from the magic number. -/
def Decides (inode : Word) : Prop :=
  28 ≤ fs.firstBytes inode ∨
    ∃ i < 4, i < fs.firstBytes inode ∧ fs.fileByte inode.toNat i ≠ EXECUTABLE_CHECK.getD i 0

end Fs

/-- The call gets as far as reading the file of this entry. -/
structure Kernel.ChecksFile (k : Kernel) (fs : Fs) (command : ℕ → UInt8) (entry : Dentry) : Prop where
  pid : k.getAvailablePid ≠ none
  length : ∃ len < MAX_EXECUTE_ARG_SIZE,
    Id.run (strlen (fun i => (command i : Id UInt8)) (2 ^ 32) 0) = some len
  name : Id.run (readDentryByName fs (ofList (splitCommand
    (Id.run (strcpy (fun i => (command i : Id UInt8)) MAX_EXECUTE_ARG_SIZE 0))).1)) = some entry
  regular : entry.filetype = FILETYPE_REGULAR

variable {k : Kernel} {fs : Fs} {residue : Residue} {command : ℕ → UInt8} {flags : Word}
  {entry : Dentry}

theorem overlay_readData {o i : ℕ} (inode : Word) (residue : ℕ → UInt8) (ho : o ≤ 24) (hi : i < 4) :
    overlay (readData fs inode (BitVec.ofNat 32 o) 4#32).bytes residue i =
      if o + i < fs.firstBytes inode then fs.fileByte inode.toNat (o + i) else residue i := by
  have hoff : (BitVec.ofNat 32 o).toNat = o := by
    rw [BitVec.toNat_ofNat]
    omega
  have hgood : fs.GoodTo inode.toNat (o + i) ↔
      fs.badBlock (fs.blockNumber inode.toNat 0) = false := by
    rw [Fs.GoodTo, show (o + i) / FS_BLOCK_LENGTH = 0 by rw [FS_BLOCK_LENGTH]; omega]
    exact ⟨fun h => h 0 le_rfl, fun h b hb => Nat.le_zero.mp hb ▸ h⟩
  have hlt : i < (readData fs inode (BitVec.ofNat 32 o) 4#32).bytes.length ↔
      o + i < fs.firstBytes inode := by
    rw [lt_readData_length_iff, hoff, hgood, Fs.firstBytes]
    split_ifs with h
    · exact ⟨fun hall => hall.2.2.1, fun hall => ⟨hi, h.1, hall, h.2⟩⟩
    · exact iff_of_false (fun hall => h ⟨hall.2.1, hall.2.2.2⟩) (Nat.not_lt_zero _)
  rw [overlay, List.getD_eq_getElem?_getD]
  by_cases h : o + i < fs.firstBytes inode
  · rw [if_pos h, List.getElem?_eq_getElem (hlt.mpr h), Option.getD_some, readData_getElem, hoff]
  · rw [if_neg h, List.getElem?_eq_none (not_lt.mp (hlt.not.mpr h)), Option.getD_none]

variable (flags) in
theorem internalExecute_checks (h : k.ChecksFile fs command entry) : ∃ k', ∀ residue,
    Id.run (k.internalExecute fs residue (fun i => (command i : Id UInt8)) flags) =
      if (List.range 4).map (overlay (readData fs entry.inode 0#32 4#32).bytes residue.magic) ≠
          EXECUTABLE_CHECK then some (.failed k.executePrologue)
      else some (.started k' (le32 (overlay
        (readData fs entry.inode ENTRY_POINT_INDEX 4#32).bytes residue.entryPointAddress) 0)) := by
  obtain ⟨len, hlen, hstrlen⟩ := h.length
  obtain ⟨pid, hpid⟩ := Option.ne_none_iff_exists'.mp h.pid
  obtain ⟨pcbs, hpro⟩ := k.executePrologue_frame
  have hpid' : k.executePrologue.getAvailablePid = some pid := by
    rw [hpro]
    exact hpid
  refine ⟨(k.executePrologue.prepareChild fs pid entry.inode).startChild pid (splitCommand
    (Id.run (strcpy (fun i => (command i : Id UInt8)) MAX_EXECUTE_ARG_SIZE 0))).2 flags
    k.interruptFlag, fun residue => ?_⟩
  simp only [internalExecute, hpid', Id.run_bind, hstrlen, if_neg (not_le.mpr hlen), Id.run_pure,
    executeCommand, h.name, h.regular, ne_eq, not_true, if_false]
  split_ifs <;> rfl

variable (flags) in
theorem internalExecute_unchecked (h : ∀ entry, ¬ k.ChecksFile fs command entry) : ∃ r,
    (∀ residue, Id.run (k.internalExecute fs residue (fun i => (command i : Id UInt8)) flags) = r) ∧
      ∀ k' e, r ≠ some (.started k' e) := by
  obtain ⟨pcbs, hpro⟩ := k.executePrologue_frame
  have hpid' : k.executePrologue.getAvailablePid = k.getAvailablePid := by rw [hpro]; rfl
  simp only [internalExecute, hpid']
  cases hpid : k.getAvailablePid with
  | none => exact ⟨_, fun _ => rfl, by simp⟩
  | some pid =>
    simp only [Id.run_bind]
    cases hstrlen : Id.run (strlen (fun i => (command i : Id UInt8)) (2 ^ 32) 0) with
    | none => exact ⟨_, fun _ => rfl, by simp⟩
    | some len =>
      by_cases hlen : MAX_EXECUTE_ARG_SIZE ≤ len
      · simp only [if_pos hlen, Id.run_pure]
        exact ⟨_, fun _ => rfl, by simp⟩
      · simp only [if_neg hlen, Id.run_bind, Id.run_pure, executeCommand]
        cases hname : Id.run (readDentryByName fs (ofList (splitCommand
            (Id.run (strcpy (fun i => (command i : Id UInt8)) MAX_EXECUTE_ARG_SIZE 0))).1)) with
        | none => exact ⟨some (.failed k.executePrologue), fun _ => rfl, by simp⟩
        | some entry =>
          have hregular : entry.filetype ≠ FILETYPE_REGULAR := fun hregular =>
            h entry ⟨by simp [hpid], ⟨len, not_le.mp hlen, hstrlen⟩, hname, hregular⟩
          simp only [ne_eq, hregular, not_false_iff, if_true]
          exact ⟨some (.failed k.executePrologue), fun _ => rfl, by simp⟩

theorem magic_iff (f : ℕ → UInt8) :
    (List.range 4).map f = EXECUTABLE_CHECK ↔ ∀ i < 4, f i = EXECUTABLE_CHECK.getD i 0 := by
  have hcheck : EXECUTABLE_CHECK = (List.range 4).map (EXECUTABLE_CHECK.getD · 0) := rfl
  rw [hcheck, List.map_inj_left]
  simp only [List.mem_range]
  rfl

theorem le32_congr {f g : ℕ → UInt8} {o o' : ℕ} (h : ∀ i < 4, f (o + i) = g (o' + i)) :
    le32 f o = le32 g o' := by
  have h0 : f o = g o' := h 0 (by decide)
  rw [le32, le32, h0, h 1 (by decide), h 2 (by decide), h 3 (by decide)]

theorem le32_last {f g : ℕ → UInt8} (h : ∀ i < 3, f i = g i) (heq : le32 f 0 = le32 g 0) :
    f 3 = g 3 := by
  have h0 := h 0 (by decide)
  have h1 := h 1 (by decide)
  have h2 := h 2 (by decide)
  have hnat := congrArg BitVec.toNat heq
  simp only [le32, BitVec.toNat_ofNat, Nat.zero_add, h0, h1, h2] at hnat
  have := (g 0).toNat_lt
  have := (g 1).toNat_lt
  have := (g 2).toNat_lt
  have := (f 3).toNat_lt
  have := (g 3).toNat_lt
  exact UInt8.toNat_inj.mp (by omega)

/-- Stacks with the magic number on them, and different entry points. -/
def stackedMagic (last : UInt8) : Residue where
  magic i := EXECUTABLE_CHECK.getD i 0
  entryPointAddress := Function.update (fun _ => 0) 3 last

/-- A file that does not decide is taken for an executable on such stacks, and the
entry point differs with them. -/
theorem internalExecute_undecided (h : k.ChecksFile fs command entry)
    (hnot : ¬ fs.Decides entry.inode) :
    Id.run (k.internalExecute fs (stackedMagic 0) (fun i => (command i : Id UInt8)) flags) ≠
      Id.run (k.internalExecute fs (stackedMagic 1) (fun i => (command i : Id UInt8)) flags) := by
  obtain ⟨hshort, hagree⟩ := not_or.mp hnot
  obtain ⟨k', hrun⟩ := internalExecute_checks flags h
  have hmagic (last : UInt8) : (List.range 4).map (overlay
      (readData fs entry.inode 0#32 4#32).bytes (stackedMagic last).magic) = EXECUTABLE_CHECK := by
    rw [magic_iff]
    intro i hi
    rw [overlay_readData entry.inode _ (Nat.zero_le 24) hi, Nat.zero_add]
    split_ifs with hlt
    · exact by_contra fun hne => hagree ⟨i, hi, hlt, hne⟩
    · rfl
  rw [hrun, hrun, if_neg (not_not.mpr (hmagic 0)), if_neg (not_not.mpr (hmagic 1))]
  intro heq
  simp only [Option.some.injEq, ExecResult.started.injEq, true_and] at heq
  have hword (last : UInt8) {i : ℕ} (hi : i < 4) : overlay (readData fs entry.inode ENTRY_POINT_INDEX
      4#32).bytes (stackedMagic last).entryPointAddress i =
      if 24 + i < fs.firstBytes entry.inode then fs.fileByte entry.inode.toNat (24 + i)
      else (stackedMagic last).entryPointAddress i :=
    overlay_readData entry.inode _ (le_refl 24) hi
  have hlast := le32_last (fun i hi => ?_) heq
  · have hend : ¬ 24 + 3 < fs.firstBytes entry.inode := by omega
    rw [hword 0 (by decide), hword 1 (by decide), if_neg hend, if_neg hend] at hlast
    exact absurd hlast (by decide)
  · rw [hword 0 (by omega), hword 1 (by omega)]
    have hne : i ≠ 3 := by omega
    simp only [stackedMagic, Function.update_of_ne hne]

/-- A call starts only real executables, at their entry points and whatever is on
its stack, exactly when the file it reads decides. -/
theorem starts_real_executables (k : Kernel) (fs : Fs) (residue : Residue) (command : ℕ → UInt8)
    (flags : Word) :
    ((∀ k' entryPoint,
        Id.run (k.internalExecute fs residue (fun i => (command i : Id UInt8)) flags) =
          some (.started k' entryPoint) →
        ∃ entry, Id.run (readDentryByName fs (ofList (splitCommand
            (Id.run (strcpy (fun i => (command i : Id UInt8)) MAX_EXECUTE_ARG_SIZE 0))).1)) =
            some entry ∧
          fs.IsExecutable entry ∧ entryPoint = le32 (fs.fileByte entry.inode.toNat) 24) ∧
      ∀ residue', Id.run (k.internalExecute fs residue' (fun i => (command i : Id UInt8)) flags) =
        Id.run (k.internalExecute fs residue (fun i => (command i : Id UInt8)) flags)) ↔
    ∀ entry, k.ChecksFile fs command entry → fs.Decides entry.inode := by
  constructor
  · rintro ⟨-, hsame⟩ entry hentry
    by_contra hnot
    exact internalExecute_undecided hentry hnot
      ((hsame (stackedMagic 0)).trans (hsame (stackedMagic 1)).symm)
  · intro hdecides
    by_cases hchecks : ∃ entry, k.ChecksFile fs command entry
    · obtain ⟨entry, hentry⟩ := hchecks
      obtain ⟨k₁, hrun⟩ := internalExecute_checks flags hentry
      rcases hdecides entry hentry with hlong | ⟨i, hi, hlt, hne⟩
      · have hmagic (residue : Residue) : (List.range 4).map (overlay
            (readData fs entry.inode 0#32 4#32).bytes residue.magic) =
            (List.range 4).map (fs.fileByte entry.inode.toNat) := by
          refine List.map_congr_left fun i hi => ?_
          rw [List.mem_range] at hi
          rw [overlay_readData entry.inode _ (Nat.zero_le 24) hi, Nat.zero_add, if_pos (by omega)]
        have hword (residue : Residue) : le32 (overlay (readData fs entry.inode ENTRY_POINT_INDEX
            4#32).bytes residue.entryPointAddress) 0 = le32 (fs.fileByte entry.inode.toNat) 24 := by
          refine le32_congr fun i hi => ?_
          rw [Nat.zero_add]
          exact (overlay_readData entry.inode _ (le_refl 24) hi).trans (if_pos (by omega))
        simp only [hmagic, hword] at hrun
        refine ⟨fun k' entryPoint hexec => ?_, fun residue' => by rw [hrun, hrun]⟩
        rw [hrun] at hexec
        split_ifs at hexec with hfile
        · simp at hexec
        · simp only [Option.some.injEq, ExecResult.started.injEq] at hexec
          have hfirst : fs.firstBytes entry.inode ≠ 0 := by omega
          have hinode := (ite_ne_right_iff.mp hfirst).1
          rw [Fs.firstBytes, if_pos hinode] at hlong
          exact ⟨entry, hentry.name, ⟨hentry.regular, hinode.1, hlong, not_not.mp hfile⟩,
            hexec.2.symm⟩
      · have hfail (residue : Residue) : Id.run (k.internalExecute fs residue
            (fun i => (command i : Id UInt8)) flags) = some (.failed k.executePrologue) := by
          rw [hrun, if_pos]
          rw [ne_eq, magic_iff]
          intro hall
          have hbyte := hall i hi
          rw [overlay_readData entry.inode _ (Nat.zero_le 24) hi, Nat.zero_add, if_pos hlt] at hbyte
          exact hne hbyte
        refine ⟨fun k' entryPoint hexec => ?_, fun residue' => by rw [hfail, hfail]⟩
        rw [hfail] at hexec
        simp at hexec
    · obtain ⟨r, hr, hne⟩ := internalExecute_unchecked flags (not_exists.mp hchecks)
      refine ⟨fun k' entryPoint hexec => ?_, fun residue' => ?_⟩
      · exact absurd ((hr residue).symm.trans hexec) (hne k' entryPoint)
      · rw [hr, hr]

def emptyShellFs : Fs where
  image a := if a = 4096 then 0 else shellFs.image a
  inodesAddr := shellFs.inodesAddr

/-- An empty file is started when the stack happens to hold the magic number. -/
theorem empty_file_started : ∃ k' entryPoint,
    Id.run (shellKernel.internalExecute emptyShellFs (stackedMagic 0) (ofList SHELL) USER_EXECUTE) =
      some (.started k' entryPoint) ∧
    Id.run (readDentryByName emptyShellFs (ofList SHELL)) = some (emptyShellFs.files 0) ∧
    ¬ emptyShellFs.IsExecutable (emptyShellFs.files 0) :=
  ⟨_, _, rfl, rfl, fun h => absurd h.length (by decide)⟩

end Residue

end SnoopDos
