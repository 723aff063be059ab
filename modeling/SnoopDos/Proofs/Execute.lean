import SnoopDos.Proofs.Loading
import SnoopDos.Proofs.Pids
import SnoopDos.Proofs.Strings
import SnoopDos.Spec.System

/-! What a successful `internal_execute` and the end of a process leave behind,
field by field. The proofs about whole runs use these and never unfold the calls. -/

namespace SnoopDos

namespace Kernel

variable (k : Kernel) (pid : ℕ) (args : Option (List UInt8)) (flags : Word) (interruptFlags : Bool)

/-- All PCBs once the child has been started. -/
def startedPcbs : Addr → Pcb :=
  let pcbs := Function.update k.pcbs (pcbAddr pid) (k.childPcb pid args flags)
  if flags &&& 1#32 = 0#32 then
    Function.update pcbs k.pcbCurr
      { pcbs k.pcbCurr with frame := .internalExecute pid interruptFlags }
  else pcbs

theorem startChild_eq (hpid : pid < MAX_NUM_PROCS) : k.startChild pid args flags interruptFlags =
    { k with
      pidAvail := k.pidAvail ||| (1#32 <<< pid)
      terminals := Function.update k.terminals k.terminalState
        { k.terminals k.terminalState with pid := pid }
      esp0 := kernelStackTop pid
      cr3 := getPageDirectoryForPid pid
      cr3Log := k.cr3Log ++
        [(getPageDirectoryForPid pid, k.paging.directory (getPageDirectoryForPid pid))]
      interruptFlag := true
      pcbs := k.startedPcbs pid args flags interruptFlags } := by
  have hrange : (0 : ℤ) ≤ pid ∧ (pid : ℤ) < MAX_NUM_PROCS := by omega
  simp only [startChild, markPidUsed, hrange, and_self, if_true, setPcb, setTerminal,
    setNewPageDirectory, setInterruptFlag, startedPcbs, Int.toNat_natCast]
  split_ifs <;> rfl

theorem startedPcbs_child : ∃ frame, k.startedPcbs pid args flags interruptFlags (pcbAddr pid) =
    { k.childPcb pid args flags with frame := frame } := by
  simp only [startedPcbs]
  split_ifs
  · rcases eq_or_ne (pcbAddr pid) k.pcbCurr with heq | hne
    · rw [heq, Function.update_self, Function.update_self]
      exact ⟨_, rfl⟩
    · rw [Function.update_of_ne hne, Function.update_self]
      exact ⟨_, rfl⟩
  · rw [Function.update_self]
    exact ⟨_, rfl⟩

/-- Apart from the child's PCB, only the frame of the caller's is written. -/
theorem startedPcbs_of_ne {a : Addr} (ha : a ≠ pcbAddr pid) :
    k.startedPcbs pid args flags interruptFlags a =
      if flags &&& 1#32 = 0#32 ∧ a = k.pcbCurr then
        { k.pcbs a with frame := .internalExecute pid interruptFlags }
      else k.pcbs a := by
  simp only [startedPcbs]
  by_cases hflags : flags &&& 1#32 = 0#32
  · rw [if_pos hflags]
    rcases eq_or_ne a k.pcbCurr with heq | hne
    · subst heq
      rw [if_pos ⟨hflags, rfl⟩, Function.update_self, Function.update_of_ne ha]
    · rw [if_neg fun h => hne h.2, Function.update_of_ne hne, Function.update_of_ne ha]
  · rw [if_neg hflags, if_neg fun h => hflags h.1, Function.update_of_ne ha]

theorem executePrologue_of_used {p : ℕ} (h : k.Used p) :
    k.executePrologue = k.setInterruptFlag false := by
  have hall : (k.setInterruptFlag false).allPidsAvailable = false := not_allPidsAvailable h
  simp only [executePrologue, hall]
  rfl

/-- The kernel after a successful `internal_execute` that gave out `pid`. -/
def started (mem : Addr → UInt8) : Kernel :=
  { k with
    pidAvail := k.pidAvail ||| (1#32 <<< pid)
    terminals := Function.update k.terminals k.terminalState
      { k.terminals k.terminalState with pid := pid }
    esp0 := kernelStackTop pid
    cr3 := .user pid
    cr3Log := k.cr3Log ++ [(.user pid, (k.paging.setupTaskPaging pid
      (blockAddressForProcess pid)).userLevelPageDirectories pid)]
    interruptFlag := true
    paging := k.paging.setupTaskPaging pid (blockAddressForProcess pid)
    mem := mem
    pcbs := k.executePrologue.startedPcbs pid args flags interruptFlags }

/-- A successful `internal_execute`: the child gets the least free pid. -/
structure Starts (k' : Kernel) : Prop where
  pid_lt : pid < MAX_NUM_PROCS
  fresh : ¬ k.Used pid
  least : ∀ q < pid, k.Used q
  eq : ∃ args mem, k' = k.started pid args flags k.interruptFlag mem

section Outcomes

variable (fs : Fs) (residue : Residue)

/-- The child of a successful call is set up and started; otherwise nothing has
happened after the prologue. -/
theorem executeCommand_cases (commandstring : List UInt8) :
    k.executeCommand fs residue interruptFlags pid commandstring flags = .failed k ∨
      ∃ inode entryPoint,
        k.executeCommand fs residue interruptFlags pid commandstring flags =
          .started ((k.prepareChild fs pid inode).startChild pid (splitCommand commandstring).2
            flags interruptFlags) entryPoint := by
  rw [executeCommand]
  split
  · exact Or.inl rfl
  · rename_i entry _
    by_cases hregular : entry.filetype ≠ FILETYPE_REGULAR
    · exact Or.inl (if_pos hregular)
    · rw [if_neg hregular]
      by_cases hmagic : (List.range 4).map
          (overlay (readData fs entry.inode 0#32 4#32).bytes residue.magic) ≠ EXECUTABLE_CHECK
      · exact Or.inl (if_pos hmagic)
      · exact Or.inr ⟨_, _, if_neg hmagic⟩

theorem executePrologue_frame :
    ∃ pcbs, k.executePrologue = { k with interruptFlag := false, pcbs := pcbs } := by
  simp only [executePrologue]
  split_ifs
  · exact ⟨_, rfl⟩
  · exact ⟨_, rfl⟩

theorem executePrologue_pcbCurr : k.executePrologue.pcbCurr = k.pcbCurr := by
  obtain ⟨pcbs, hpro⟩ := k.executePrologue_frame
  rw [hpro]
  rfl

theorem prepareChild_frame (inode : Word) : ∃ mem, k.prepareChild fs pid inode =
    { k with mem := mem, paging := k.paging.setupTaskPaging pid (blockAddressForProcess pid) } :=
  ⟨_, rfl⟩

/-- The child prepared after the prologue is the one that `Starts` describes. -/
theorem starts_of_prologue {inode : Word} (hpid : k.executePrologue.getAvailablePid = some pid) :
    k.Starts pid flags ((k.executePrologue.prepareChild fs pid inode).startChild pid args flags
      k.interruptFlag) := by
  obtain ⟨pcbs, hpro⟩ := k.executePrologue_frame
  obtain ⟨mem, hprep⟩ := k.executePrologue.prepareChild_frame pid fs inode
  have havail : k.executePrologue.pidAvail = k.pidAvail := by rw [hpro]
  obtain ⟨hlt, hfree, hleast⟩ := getAvailablePid_eq_some hpid
  refine ⟨hlt, (used_congr havail).not.mp hfree, fun q hq => (used_congr havail).mp (hleast q hq),
    args, mem, ?_⟩
  have hdir : getPageDirectoryForPid pid = .user pid := by
    rw [getPageDirectoryForPid, if_neg (by omega)]
  rw [hprep, startChild_eq _ _ _ _ _ hlt, hdir, started]
  rw [hpro]
  rfl

/-- How `internal_execute` can end on a kernel's own memory: the child that it starts
has the arguments that were split off the command. -/
theorem internalExecute_split (command : ℕ → Id UInt8) :
    Id.run (k.internalExecute fs residue command flags) = none ∨
    Id.run (k.internalExecute fs residue command flags) = some (.failed k.executePrologue) ∨
    ∃ pid inode entryPoint, k.executePrologue.getAvailablePid = some pid ∧
      Id.run (k.internalExecute fs residue command flags) = some (.started
        ((k.executePrologue.prepareChild fs pid inode).startChild pid
          (splitCommand (Id.run (strcpy command MAX_EXECUTE_ARG_SIZE 0))).2 flags k.interruptFlag)
        entryPoint) := by
  simp only [internalExecute]
  cases hpid : k.executePrologue.getAvailablePid with
  | none => exact Or.inr (Or.inl rfl)
  | some pid =>
    simp only [Id.run_bind]
    cases Id.run (strlen command (2 ^ 32) 0) with
    | none => exact Or.inl rfl
    | some len =>
      by_cases hlong : MAX_EXECUTE_ARG_SIZE ≤ len
      · exact Or.inr (Or.inl (by simp [hlong]))
      · simp only [if_neg hlong, Id.run_bind, Id.run_pure]
        rcases executeCommand_cases k.executePrologue pid flags k.interruptFlag fs residue
          (Id.run (strcpy command MAX_EXECUTE_ARG_SIZE 0)) with h | ⟨inode, entryPoint, h⟩
        · exact Or.inr (Or.inl (congrArg some h))
        · exact Or.inr (Or.inr ⟨pid, inode, entryPoint, rfl, congrArg some h⟩)

theorem internalExecute_cases (command : ℕ → Id UInt8) :
    Id.run (k.internalExecute fs residue command flags) = none ∨
    Id.run (k.internalExecute fs residue command flags) = some (.failed k.executePrologue) ∨
    ∃ pid k' entryPoint, k.Starts pid flags k' ∧
      Id.run (k.internalExecute fs residue command flags) = some (.started k' entryPoint) := by
  rcases k.internalExecute_split flags fs residue command with
    h | h | ⟨pid, inode, entryPoint, hpid, h⟩
  · exact Or.inl h
  · exact Or.inr (Or.inl h)
  · exact Or.inr (Or.inr ⟨pid, _, entryPoint, k.starts_of_prologue pid _ flags fs hpid, h⟩)

theorem internalExecute_ne_none {command : ℕ → Id UInt8} {i : ℕ} (hi : i < 2 ^ 32)
    (hend : Id.run (command i) = NULL_CHAR) :
    Id.run (k.internalExecute fs residue command flags) ≠ none := by
  have hstrlen := strlen_run_ne_none command (2 ^ 32) 0 i (Nat.zero_le i) (by omega) hend
  simp only [internalExecute]
  cases k.executePrologue.getAvailablePid with
  | none => exact Option.some_ne_none _
  | some pid =>
    simp only [Id.run_bind]
    cases hlen : Id.run (strlen command (2 ^ 32) 0) with
    | none => exact absurd hlen hstrlen
    | some len =>
      simp only
      split_ifs <;> exact Option.some_ne_none _

theorem internalExecute_started {command : ℕ → Id UInt8} {k' : Kernel} {entryPoint : Word}
    (h : Id.run (k.internalExecute fs residue command flags) = some (.started k' entryPoint)) :
    ∃ pid, k.Starts pid flags k' := by
  rcases k.internalExecute_cases flags fs residue command with hc | hc | ⟨pid, k'', e, hs, hc⟩
  · simp [hc] at h
  · simp [hc] at h
  · obtain ⟨rfl, -⟩ : k'' = k' ∧ e = entryPoint := by simpa [hc] using h
    exact ⟨pid, hs⟩

/-- The child's PCB holds the arguments that were split off the command. -/
theorem internalExecute_args {command : ℕ → Id UInt8} {k' : Kernel} {entryPoint : Word}
    (h : Id.run (k.internalExecute fs residue command flags) = some (.started k' entryPoint)) :
    k'.currentPcb.args = (splitCommand (Id.run (strcpy command MAX_EXECUTE_ARG_SIZE 0))).2 := by
  rcases k.internalExecute_split flags fs residue command with hc | hc | ⟨pid, inode, e, hpid, hc⟩
  · simp [hc] at h
  · simp [hc] at h
  · obtain ⟨rfl, -⟩ := ExecResult.started.inj (Option.some.inj (hc.symm.trans h))
    have hlt := (getAvailablePid_eq_some hpid).1
    obtain ⟨frame, hframe⟩ := startedPcbs_child (k.executePrologue.prepareChild fs pid inode) pid
      (splitCommand (Id.run (strcpy command MAX_EXECUTE_ARG_SIZE 0))).2 flags k.interruptFlag
    rw [startChild_eq _ _ _ _ _ hlt, currentPcb, pcbCurr_of_kernelStackTop hlt rfl]
    exact congrArg Pcb.args hframe

/-- `internal_execute("shell", FIRST_TERM_SHELL)` always returns or starts a shell. -/
theorem executeShell_cases :
    k.executeShell fs residue = .failed k.executePrologue ∨
    ∃ pid k' entryPoint, k.Starts pid FIRST_TERM_SHELL k' ∧
      k.executeShell fs residue = .started k' entryPoint := by
  have hstrlen : Id.run (strlen (ofList SHELL) (2 ^ 32) 0) = some SHELL.length :=
    strlen_ofList (by decide) _ _ (by decide) (by decide)
  rw [executeShell]
  rcases internalExecute_cases k FIRST_TERM_SHELL fs residue (ofList SHELL) with
    h | h | ⟨pid, k', entryPoint, hs, h⟩
  · exfalso
    simp only [internalExecute] at h
    cases hpid : k.executePrologue.getAvailablePid with
    | none => simp [hpid] at h
    | some pid =>
      simp only [hpid, Id.run_bind, hstrlen] at h
      simp [SHELL, MAX_EXECUTE_ARG_SIZE] at h
  · rw [h]
    exact Or.inl rfl
  · rw [h]
    exact Or.inr ⟨pid, k', entryPoint, hs, rfl⟩

variable {k fs residue}

theorem executeShell_started {k' : Kernel} {entryPoint : Word}
    (h : k.executeShell fs residue = .started k' entryPoint) :
    ∃ pid, k.Starts pid FIRST_TERM_SHELL k' := by
  rcases k.executeShell_cases fs residue with hfailed | ⟨pid, k₁, e, hstarts, hstarted⟩
  · rw [hfailed] at h
    cases h
  · rw [hstarted] at h
    obtain ⟨rfl, -⟩ := ExecResult.started.inj h
    exact ⟨pid, hstarts⟩

/-- The system call `execute` fails and returns, or it starts a child. -/
theorem step_execute_cases {command : ℕ → UInt8} {k' : Kernel}
    (hstep : k.step fs (.execute residue command) = some k') :
    k' = k.executePrologue.iret ∨
    ∃ pid entryPoint, k.Starts pid USER_EXECUTE k' ∧
      Id.run (k.internalExecute fs residue (fun i => (command i : Id UInt8)) USER_EXECUTE) =
        some (.started k' entryPoint) := by
  unfold step at hstep
  dsimp only at hstep
  rcases k.internalExecute_cases USER_EXECUTE fs residue (fun i => (command i : Id UInt8)) with
    hexec | hexec | ⟨pid, k₁, entryPoint, hstarts, hexec⟩
  · rw [hexec] at hstep
    cases hstep
  · rw [hexec] at hstep
    exact Or.inl (Option.some.inj hstep).symm
  · rw [hexec] at hstep
    obtain rfl := Option.some.inj hstep
    exact Or.inr ⟨pid, entryPoint, hstarts, hexec⟩

end Outcomes

section Started

variable {k} {pid flags} {k' : Kernel}

theorem Starts.pid_eq (h : k.Starts pid flags k') {p : ℕ} (hp : k.getAvailablePid = some p) :
    pid = p := by
  obtain ⟨-, hfree, hleast⟩ := getAvailablePid_eq_some hp
  rcases Nat.lt_trichotomy pid p with hlt | heq | hgt
  · exact absurd (hleast pid hlt) h.fresh
  · exact heq
  · exact absurd (h.least p hgt) hfree

theorem Starts.used_iff (h : k.Starts pid flags k') (q : ℕ) : k'.Used q ↔ q = pid ∨ k.Used q := by
  obtain ⟨args, mem, rfl⟩ := h.eq
  exact used_insert h.pid_lt rfl

theorem Starts.terminalState (h : k.Starts pid flags k') : k'.terminalState = k.terminalState := by
  obtain ⟨args, mem, rfl⟩ := h.eq
  rfl

theorem Starts.pidAvail (h : k.Starts pid flags k') :
    k'.pidAvail = k.pidAvail ||| (1#32 <<< pid) := by
  obtain ⟨args, mem, rfl⟩ := h.eq
  rfl

theorem Starts.pidAvail_freed (h : k.Starts pid flags k') :
    k'.pidAvail &&& ~~~(1#32 <<< pid) = k.pidAvail := by
  have hclear : k.pidAvail.getLsbD pid = false := by
    simpa [Used, h.pid_lt] using h.fresh
  rw [h.pidAvail, Bitmap.remove_insert _ (h.pid_lt.trans (by decide)) hclear]

/-- What `internal_execute` writes into the child's PCB. -/
structure ChildPcb (k : Kernel) (pid : ℕ) (flags : Word) (c : Pcb) : Prop where
  esp0 : c.esp0 = k.esp0
  parentPCB : c.parentPCB = k.pcbCurr
  pid : c.pid = pid
  flags : c.flags = flags
  ownedByTerminal : c.ownedByTerminal = k.terminalState
  fdArray : ∃ old, c.fdArray = clearFdArray
    (Function.update (Function.update old STDIN.toNat terminalFd) STDOUT.toNat terminalFd)

theorem Starts.child (h : k.Starts pid flags k') : k.ChildPcb pid flags (k'.pcbs (pcbAddr pid)) := by
  obtain ⟨args, mem, rfl⟩ := h.eq
  obtain ⟨frame, hframe⟩ := k.executePrologue.startedPcbs_child pid args flags k.interruptFlag
  obtain ⟨pcbs, hpro⟩ := k.executePrologue_frame
  change k.ChildPcb pid flags
    (k.executePrologue.startedPcbs pid args flags k.interruptFlag (pcbAddr pid))
  rw [hframe, hpro]
  exact ⟨rfl, rfl, rfl, rfl, rfl, _, rfl⟩

/-- While some pid is in use, the only other PCB to change is the caller's: its
frame is the suspended call, if the child was started from user code. -/
theorem Starts.other (h : k.Starts pid flags k') {p : ℕ} (hp : k.Used p) {a : Addr}
    (ha : a ≠ pcbAddr pid) : k'.pcbs a =
      if flags &&& 1#32 = 0#32 ∧ a = k.pcbCurr then
        { k.pcbs a with frame := .internalExecute pid k.interruptFlag }
      else k.pcbs a := by
  obtain ⟨args, mem, rfl⟩ := h.eq
  change k.executePrologue.startedPcbs pid args flags k.interruptFlag a = _
  rw [executePrologue_of_used k hp]
  exact startedPcbs_of_ne _ _ _ _ _ ha

theorem executePrologue_pcb_frame (k : Kernel) (a : Addr) :
    (k.executePrologue.pcbs a).frame = (k.pcbs a).frame := by
  simp only [executePrologue]
  split_ifs
  · simp only [setPcb]
    rcases eq_or_ne a (k.setInterruptFlag false).pcbCurr with rfl | hne
    · rw [Function.update_self]
      rfl
    · rw [Function.update_of_ne hne]
      rfl
  · rfl

theorem executePrologue_pcb_pid (k : Kernel) (a : Addr) :
    (k.executePrologue.pcbs a).pid = (k.pcbs a).pid ∨
      (k.executePrologue.pcbs a).pid = KERNEL_PID := by
  simp only [executePrologue]
  split_ifs
  · simp only [setPcb]
    rcases eq_or_ne a (k.setInterruptFlag false).pcbCurr with rfl | hne
    · rw [Function.update_self]
      exact Or.inr rfl
    · rw [Function.update_of_ne hne]
      exact Or.inl rfl
  · exact Or.inl rfl

/-- The child's frame is what the slot held; the caller's is written only if the
child was started from user code. -/
theorem Starts.frame (h : k.Starts pid flags k') {a : Addr}
    (ha : flags &&& 1#32 ≠ 0#32 ∨ a ≠ k.pcbCurr) : (k'.pcbs a).frame = (k.pcbs a).frame := by
  obtain ⟨args, mem, rfl⟩ := h.eq
  have hchild : (Function.update k.executePrologue.pcbs (pcbAddr pid)
      (k.executePrologue.childPcb pid args flags) a).frame = (k.pcbs a).frame := by
    rw [← k.executePrologue_pcb_frame a]
    rcases eq_or_ne a (pcbAddr pid) with rfl | hne
    · rw [Function.update_self]
      rfl
    · rw [Function.update_of_ne hne]
  change (k.executePrologue.startedPcbs pid args flags k.interruptFlag a).frame = _
  rw [startedPcbs, executePrologue_pcbCurr]
  split_ifs with hflags
  · rw [Function.update_of_ne (ha.resolve_left (not_not.mpr hflags))]
    exact hchild
  · exact hchild

/-- Whoever starts a child, a frame is what it was or the suspended call. -/
theorem Starts.frame_cases (h : k.Starts pid flags k') (a : Addr) :
    (k'.pcbs a).frame = (k.pcbs a).frame ∨
      (k'.pcbs a).frame = .internalExecute pid k.interruptFlag := by
  by_cases hwrite : flags &&& 1#32 ≠ 0#32 ∨ a ≠ k.pcbCurr
  · exact Or.inl (h.frame hwrite)
  · obtain ⟨hflags, rfl⟩ : flags &&& 1#32 = 0#32 ∧ a = k.pcbCurr := by
      simpa only [ne_eq, not_or, not_not] using hwrite
    obtain ⟨args, mem, rfl⟩ := h.eq
    right
    change (k.executePrologue.startedPcbs pid args flags k.interruptFlag k.pcbCurr).frame = _
    rw [startedPcbs, if_pos hflags, executePrologue_pcbCurr, Function.update_self]

/-- A first shell that takes the slot it is started from: no other PCB changes. -/
theorem Starts.other_of_slot (h : k.Starts pid flags k') (hflags : flags &&& 1#32 ≠ 0#32)
    (hslot : k.pcbCurr = pcbAddr pid) {a : Addr} (ha : a ≠ pcbAddr pid) : k'.pcbs a = k.pcbs a := by
  obtain ⟨args, mem, rfl⟩ := h.eq
  change k.executePrologue.startedPcbs pid args flags k.interruptFlag a = _
  rw [startedPcbs_of_ne _ _ _ _ _ ha, if_neg fun hcall => hflags hcall.1]
  simp only [executePrologue]
  split_ifs
  · have hne : a ≠ (k.setInterruptFlag false).pcbCurr := fun heq => ha (heq.trans hslot)
    simp only [setPcb, Function.update_of_ne hne]
    rfl
  · rfl

theorem Starts.esp0 (h : k.Starts pid flags k') : k'.esp0 = kernelStackTop pid := by
  obtain ⟨args, mem, rfl⟩ := h.eq
  rfl

/-- The terminal that is visible runs the child, and no other is touched. -/
theorem Starts.terminals (h : k.Starts pid flags k') :
    k'.terminals = Function.update k.terminals k.terminalState
        { k.terminals k.terminalState with pid := pid } ∧
      k'.terminalBeingServiced = k.terminalBeingServiced ∧
      k'.terminalsLaunched = k.terminalsLaunched := by
  obtain ⟨args, mem, rfl⟩ := h.eq
  exact ⟨rfl, rfl, rfl⟩

end Started

section Halts

variable {k} {c p : ℕ} {parent : Addr} {b : Bool} {status : Word}

theorem toUint8_of_pid (hp : p < MAX_NUM_PROCS) : toUint8 p = p := by
  simp only [toUint8, MAX_NUM_PROCS] at *
  omega

/-- The end of a child whose parent waits in `internal_execute` for it. -/
theorem haltReturn_resumed (hc : c < MAX_NUM_PROCS) (hp : p < MAX_NUM_PROCS)
    (hne : parent ≠ pcbAddr c) (hpid : (k.pcbs parent).pid = p)
    (hframe : (k.pcbs parent).frame = .internalExecute c b) :
    k.haltReturn (pcbAddr c) parent status = .resumed
      { k with
        interruptFlag := b
        cr3 := .user p
        cr3Log := k.cr3Log ++ [(.user p, k.paging.userLevelPageDirectories p)]
        pcbs := Function.update
          (Function.update k.pcbs (pcbAddr c) { k.pcbs (pcbAddr c) with retVal := status })
          parent { k.pcbs parent with frame := .gone }
        terminals := Function.update k.terminals (k.pcbs parent).ownedByTerminal
          { k.terminals (k.pcbs parent).ownedByTerminal with pid := p }
        pidAvail := k.pidAvail &&& ~~~(1#32 <<< c) } status := by
  have hkernel : ¬ (p : ℤ) = KERNEL_PID := by
    simp only [KERNEL_PID]
    omega
  have hdir : getPageDirectoryForPid p = .user p := by
    rw [getPageDirectoryForPid, if_neg (by omega)]
  have hrange : (0 : ℤ) ≤ c ∧ (c : ℤ) < MAX_NUM_PROCS := by omega
  simp only [haltReturn, hpid, if_neg hkernel, hdir, jmpPosHalt, setNewPageDirectory, setPcb,
    setTerminal, Function.update_of_ne hne, hframe, Function.update_self, toUint8_of_pid hp,
    markPidFree, hrange, and_self, if_true, Int.toNat_natCast, setInterruptFlag]
  rfl

theorem haltReturn_ne_restarted {cur : Addr} {k' : Kernel} {entryPoint : Word} :
    k.haltReturn cur parent status ≠ .restarted k' entryPoint := by
  rw [haltReturn, jmpPosHalt]
  split <;> exact HaltResult.noConfusion

/-- The first shell of a terminal is started again by `internal_execute`. -/
theorem halt_restarted {fs : Fs} {residue : Residue} {s : UInt8} {k' : Kernel} {entryPoint : Word}
    (h : k.halt fs residue s = .restarted k' entryPoint) :
    ∃ (pid : ℕ) (k₀ : Kernel), k₀.Starts pid FIRST_TERM_SHELL k' ∧
      k₀.terminalState = k.terminalState := by
  rw [halt] at h
  by_cases hshell : (k.pcbs k.pcbCurr).flags = FIRST_TERM_SHELL
  · have hframe : ∀ k₁ : Kernel, ∀ pid, (k₁.markPidFree pid).terminalState = k₁.terminalState := by
      intro k₁ pid
      rw [markPidFree]
      split_ifs <;> rfl
    generalize hk₀ : (markPidFree { k.setInterruptFlag false with
      esp0 := ((k.setInterruptFlag false).pcbs (k.setInterruptFlag false).pcbCurr).esp0 }
      ((k.setInterruptFlag false).pcbs (k.setInterruptFlag false).pcbCurr).pid) = k₀ at h
    have hstate : k₀.terminalState = k.terminalState := by
      rw [← hk₀, hframe]
      rfl
    rw [if_pos (show ((k.setInterruptFlag false).pcbs (k.setInterruptFlag false).pcbCurr).flags =
      FIRST_TERM_SHELL from hshell)] at h
    rcases k₀.executeShell_cases fs residue with hexec | ⟨pid, k₁, e, hs, hexec⟩
    · rw [hexec] at h
      exact absurd h haltReturn_ne_restarted
    · rw [hexec] at h
      obtain ⟨rfl, -⟩ := HaltResult.restarted.inj h
      exact ⟨pid, k₀, hs, hstate⟩
  · exact absurd ((if_neg hshell).symm.trans h) haltReturn_ne_restarted

end Halts

end Kernel

section FirstShell

theorem bootKernel_not_used (p : ℕ) : ¬ bootKernel.Used p := by
  simp [Kernel.Used, bootKernel]

theorem executeShell_shellFs :
    bootKernel.executeShell shellFs zeroResidue = .started shellKernel 0x08048018#32 := rfl

theorem shellKernel_exec : ∃ entryPoint,
    Id.run (bootKernel.internalExecute shellFs zeroResidue (ofList SHELL) FIRST_TERM_SHELL) =
      some (.started shellKernel entryPoint) := by
  rcases bootKernel.internalExecute_cases FIRST_TERM_SHELL shellFs zeroResidue (ofList SHELL) with
    h | h | ⟨pid, k', entryPoint, -, h⟩
  · have hstarted := executeShell_shellFs
    rw [Kernel.executeShell, h] at hstarted
    exact absurd hstarted (by simp)
  · have hstarted := executeShell_shellFs
    rw [Kernel.executeShell, h] at hstarted
    exact absurd hstarted (by simp)
  · refine ⟨entryPoint, ?_⟩
    rw [h, shellKernel, Kernel.executeShell, h]

theorem shellKernel_starts : bootKernel.Starts 0 FIRST_TERM_SHELL shellKernel := by
  obtain ⟨entryPoint, hexec⟩ := shellKernel_exec
  obtain ⟨pid, hstarts⟩ := bootKernel.internalExecute_started _ _ _ hexec
  obtain rfl := hstarts.pid_eq (p := 0) (by decide)
  exact hstarts

end FirstShell

end SnoopDos
