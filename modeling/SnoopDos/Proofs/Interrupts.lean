import SnoopDos.Proofs.KeyFrames

/-! The interrupts that switch processes. A tick leaves the running process as it is
or resumes the one that another terminal runs; a key leaves it as it is or starts a
shell on top of it. -/

namespace SnoopDos

/-- The PCB of a suspended process once `resumeContext` has jumped to its label. -/
def Pcb.resumed (c : Pcb) : Pcb :=
  { c with
    frame := .gone
    flags :=
      match c.eip, c.frame with
      | .switchTerminalContext, .processSentScancode irqFlags => irqFlags
      | _, _ => c.flags }

namespace Kernel

variable (k : Kernel)

def pcb (p : ℕ) : Pcb := k.pcbs (pcbAddr p)

def front (t : ℕ) : ℕ := (k.terminals t).pid

/-- The entry that a load of a directory leaves in the log. -/
def loadOf (d : DirectoryPtr) : DirectoryPtr × (ℕ → Word) := (d, k.paging.directory d)

section Tick

theorem setPcb_setPcb (a : Addr) (f g : Pcb → Pcb) :
    (k.setPcb a f).setPcb a g = k.setPcb a fun p => g (f p) := by
  simp [setPcb]

/-- A context that has been saved is resumed: the interrupt flag comes back, and at
`SWITCH_TERMINAL_CONTEXT` the directory of the serviced terminal is loaded again. -/
theorem resumeContext_eq_some {k' : Kernel} (h : k.resumeContext = some k') :
    k.currentPcb.eip ≠ .unsaved ∧ ∃ cr3 cr3Log,
      k' = { k with
        interruptFlag := k.currentPcb.eflags
        cr3 := cr3
        cr3Log := cr3Log
        pcbs := Function.update k.pcbs k.pcbCurr k.currentPcb.resumed } ∧
      let d := getPageDirectoryForPid (k.front k.terminalBeingServiced)
      (cr3 = k.cr3 ∧ cr3Log = k.cr3Log ∨ cr3 = d ∧ cr3Log = k.cr3Log ++ [k.loadOf d]) := by
  unfold resumeContext at h
  cases heip : k.currentPcb.eip with
  | unsaved => simp [heip] at h
  | switchContext =>
    have hresumed : k.currentPcb.resumed = { k.currentPcb with frame := .gone } := by
      simp [Pcb.resumed, heip]
    simp only [heip, Option.some.injEq] at h
    refine ⟨CodeLabel.noConfusion, _, _, ?_, Or.inl ⟨rfl, rfl⟩⟩
    rw [← h, hresumed]
    rfl
  | switchTerminalContext =>
    simp only [heip] at h
    refine ⟨CodeLabel.noConfusion, _, _, ?_, Or.inr ⟨rfl, rfl⟩⟩
    cases hframe : k.currentPcb.frame with
    | processSentScancode irqFlags =>
      have hresumed : k.currentPcb.resumed =
          { k.currentPcb with frame := .gone, flags := irqFlags } := by
        simp [Pcb.resumed, heip, hframe]
      simp only [hframe, Option.some.injEq] at h
      rw [← h, hresumed]
      have htwice := k.setPcb_setPcb k.pcbCurr (fun p => { p with frame := .gone })
        fun p => { p with flags := irqFlags }
      exact congrArg (fun pcbs => ({ k with
        interruptFlag := k.currentPcb.eflags
        cr3 := getPageDirectoryForPid (k.front k.terminalBeingServiced)
        cr3Log := k.cr3Log ++ [k.loadOf (getPageDirectoryForPid (k.front k.terminalBeingServiced))]
        pcbs := pcbs } : Kernel)) (congrArg Kernel.pcbs htwice)
    | _ =>
      have hresumed : k.currentPcb.resumed = { k.currentPcb with frame := .gone } := by
        simp [Pcb.resumed, heip, hframe]
      simp only [hframe, Option.some.injEq] at h
      rw [← h, hresumed]
      rfl

/-- The running process, once its context has been saved by the scheduler. -/
def preempted : Addr → Pcb :=
  Function.update k.pcbs k.pcbCurr
    { k.currentPcb with eip := .switchContext, frame := .saveAndSwitch, eflags := k.interruptFlag }

/-- The kernel after the scheduler has switched to the process at `a` of terminal `t`. -/
def scheduled (t : ℕ) (a : Addr) (cr3Log : List (DirectoryPtr × (ℕ → Word))) : Kernel :=
  { k with
    terminalBeingServiced := t
    esp0 := kernelStackTop (k.front t)
    cr3 := getPageDirectoryForPid (k.front t)
    cr3Log := cr3Log
    interruptFlag := (k.preempted a).eflags
    pcbs := Function.update k.preempted a (k.preempted a).resumed }

/-- A switch of the scheduler that comes back to code of the system. -/
structure Switches (t : ℕ) (a : Addr) (k' : Kernel) : Prop where
  saved : (k.preempted a).eip ≠ .unsaved
  eq : ∃ cr3Log, (∀ c ∈ cr3Log, c ∈ k.cr3Log ∨
      c = k.loadOf (getPageDirectoryForPid (k.front t))) ∧ k' = k.scheduled t a cr3Log

theorem saveAndSwitch_switches {t : ℕ} {a : Addr} {k' : Kernel}
    (ha : ∀ k₀ : Kernel, k₀.esp0 = kernelStackTop (k.front t) → k₀.pcbCurr = a)
    (h : ({ k with terminalBeingServiced := t } : Kernel).saveAndSwitchProcessContext (k.front t) =
      some k') : k.Switches t a k' := by
  obtain ⟨hsaved, cr3, cr3Log, hk, hload⟩ := resumeContext_eq_some _ h
  generalize hk₀ : ({ (({ k with terminalBeingServiced := t } : Kernel).setNewPageDirectory
    (getPageDirectoryForPid (k.front t))).saveProcessContext .switchContext .saveAndSwitch with
    esp0 := kernelStackTop (k.front t) } : Kernel) = k₀ at *
  have hcur : k₀.pcbCurr = a := ha k₀ (by rw [← hk₀])
  have hpcbs : k₀.pcbs = k.preempted := by
    rw [← hk₀]
    rfl
  have hcurrent : k₀.currentPcb = k.preempted a := by rw [currentPcb, hcur, hpcbs]
  rw [hcurrent] at hsaved hk
  rw [hcur, hpcbs] at hk
  set d := getPageDirectoryForPid (k.front t) with hd
  have hlog : k₀.cr3Log = k.cr3Log ++ [k.loadOf d] := by
    rw [← hk₀]
    rfl
  have hcr3 : k₀.cr3 = d := by
    rw [← hk₀]
    rfl
  have hagain : getPageDirectoryForPid (k₀.front k₀.terminalBeingServiced) = d ∧
      k₀.loadOf d = k.loadOf d := by
    rw [← hk₀]
    exact ⟨rfl, rfl⟩
  simp only [hagain.1, hagain.2, hlog, hcr3] at hload
  have hload : cr3 = d ∧ ∀ c ∈ cr3Log, c ∈ k.cr3Log ∨ c = k.loadOf d := by
    rcases hload with ⟨rfl, rfl⟩ | ⟨rfl, rfl⟩
    · exact ⟨rfl, fun c hc => by simpa using hc⟩
    · exact ⟨rfl, fun c hc => by simpa using hc⟩
  refine ⟨hsaved, cr3Log, hload.2, ?_⟩
  rw [hk, hload.1, ← hk₀]
  rfl

theorem launched_iff {t : ℕ} (ht : t < 32) :
    (k.terminalsLaunched >>> t) &&& 1#32 ≠ 0#32 ↔ k.Launched t := by
  rw [Launched, ne_eq, ne_eq, Bitmap.shiftRight_and_one_eq_zero_iff _ (by decide),
    Bitmap.and_mask_eq_zero_iff _ ht]

/-- The round robin stops at the next terminal that has been launched. -/
theorem roundRobinLoop_finds (launched : Word) (n : ℕ) (k : Kernel) {i : ℕ} (hi : i < n)
    (h : (launched >>> ((k.terminalBeingServiced + i + 1) % NUM_TERMINALS)) &&& 1#32 ≠ 0#32) :
    ∃ t < NUM_TERMINALS, (launched >>> t) &&& 1#32 ≠ 0#32 ∧
      roundRobinLoop launched n k =
        ({ k with terminalBeingServiced := t } : Kernel).saveAndSwitchProcessContext (k.front t) := by
  induction n generalizing k i with
  | zero => omega
  | succ n ih =>
    have hlt : (k.terminalBeingServiced + 1) % NUM_TERMINALS < NUM_TERMINALS :=
      Nat.mod_lt _ (by decide)
    unfold roundRobinLoop
    by_cases hbit :
        (launched >>> ((k.terminalBeingServiced + 1) % NUM_TERMINALS)) &&& 1#32 ≠ 0#32
    · exact ⟨_, hlt, hbit, if_pos hbit⟩
    · cases i with
      | zero => exact absurd h hbit
      | succ i =>
        have hnext : (k.terminalBeingServiced + (i + 1) + 1) % NUM_TERMINALS =
            ((k.terminalBeingServiced + 1) % NUM_TERMINALS + i + 1) % NUM_TERMINALS := by
          rw [NUM_TERMINALS]
          omega
        rw [hnext] at h
        obtain ⟨t, ht, hlaunched, hloop⟩ := ih
          { k with terminalBeingServiced := (k.terminalBeingServiced + 1) % NUM_TERMINALS }
          (Nat.lt_of_succ_lt_succ hi) h
        exact ⟨t, ht, hlaunched, (if_neg hbit).trans hloop⟩

/-- While the serviced terminal has been launched, a tick does nothing or switches to
a terminal that has been launched. -/
theorem irq0Handler_cases {k' : Kernel} (hserviced : k.terminalBeingServiced < NUM_TERMINALS)
    (hlaunched : k.Launched k.terminalBeingServiced)
    (hstack : ∀ t < NUM_TERMINALS, k.Launched t → k.front t < MAX_NUM_PROCS)
    (h : k.irq0Handler = some k') :
    k' = k ∨ ∃ t < NUM_TERMINALS, k.Launched t ∧ k.inHardwareInt = false ∧
      k.Switches t (pcbAddr (k.front t)) k' := by
  unfold irq0Handler at h
  by_cases hint : k.inHardwareInt = true
  · rw [if_pos hint] at h
    exact Or.inl (Option.some.inj h).symm
  rw [if_neg hint] at h
  unfold roundRobinScheduler at h
  by_cases honly : k.terminalsLaunched = 1#32
  · rw [if_pos honly] at h
    exact Or.inl (Option.some.inj h).symm
  rw [if_neg honly] at h
  have hself : (k.terminalBeingServiced + 2 + 1) % NUM_TERMINALS = k.terminalBeingServiced := by
    rw [NUM_TERMINALS] at *
    omega
  have hbits {t : ℕ} (ht : t < NUM_TERMINALS) : t < 32 := ht.trans (by decide)
  obtain ⟨t, ht, hbit, hloop⟩ := roundRobinLoop_finds k.terminalsLaunched NUM_TERMINALS k
    (i := 2) (by decide) (by
      rw [hself]
      exact (k.launched_iff (hbits hserviced)).mpr hlaunched)
  have hlaunched := (k.launched_iff (hbits ht)).mp hbit
  rw [hloop] at h
  exact Or.inr ⟨t, ht, hlaunched, Bool.not_eq_true _ ▸ hint, k.saveAndSwitch_switches (fun k₀ h₀ =>
    pcbCurr_of_kernelStackTop (hstack t ht hlaunched) h₀) h⟩

end Tick

section Key

/-- The processes are the same, and so is what runs. -/
structure SameTasks (k k' : Kernel) : Prop where
  pidAvail : k'.pidAvail = k.pidAvail
  terminalBeingServiced : k'.terminalBeingServiced = k.terminalBeingServiced
  terminalsLaunched : k'.terminalsLaunched = k.terminalsLaunched
  esp0 : k'.esp0 = k.esp0
  pcbs : k'.pcbs = k.pcbs

/-- From `k` to `k'` only directories of the processes that terminals run have been
loaded, and what had been initialised still is. -/
structure Reloads (k k' : Kernel) : Prop where
  front : ∀ t, k'.front t = k.front t
  initialised : ∀ d, k.paging.Initialised d → k'.paging.Initialised d
  cr3 : k'.cr3 = k.cr3 ∨ ∃ t < NUM_TERMINALS, k'.cr3 = getPageDirectoryForPid (k.front t)
  grows : ∀ c ∈ k.cr3Log, c ∈ k'.cr3Log
  log : ∀ c ∈ k'.cr3Log, c ∈ k.cr3Log ∨ ∃ t < NUM_TERMINALS, ∃ P : Paging,
    (∀ d, k.paging.Initialised d → P.Initialised d) ∧
      c = (getPageDirectoryForPid (k.front t), P.directory (getPageDirectoryForPid (k.front t)))

variable {k} {k' k'' : Kernel}

theorem Reloads.of_eq (hfront : ∀ t, k'.front t = k.front t) (hpaging : k'.paging = k.paging)
    (hcr3 : k'.cr3 = k.cr3) (hlog : k'.cr3Log = k.cr3Log) : k.Reloads k' where
  front := hfront
  initialised _ hd := hpaging ▸ hd
  cr3 := Or.inl hcr3
  grows _ hc := hlog ▸ hc
  log _ hc := Or.inl (hlog ▸ hc)

theorem Reloads.trans (h : k.Reloads k') (h' : k'.Reloads k'') : k.Reloads k'' where
  front t := (h'.front t).trans (h.front t)
  initialised d hd := h'.initialised d (h.initialised d hd)
  cr3 := by
    rcases h'.cr3 with heq | ⟨t, ht, heq⟩
    · rw [heq]
      exact h.cr3
    · rw [heq, h.front]
      exact Or.inr ⟨t, ht, rfl⟩
  grows c hc := h'.grows c (h.grows c hc)
  log := by
    intro c hc
    rcases h'.log c hc with hold | ⟨t, ht, P, hP, hload⟩
    · exact h.log c hold
    · rw [h.front] at hload
      exact Or.inr ⟨t, ht, P, fun d hd => hP d (h.initialised d hd), hload⟩

theorem loadTerminalDirectory_reloads (k : Kernel) {t : ℕ} (ht : t < NUM_TERMINALS) :
    k.Reloads (k.loadTerminalDirectory t) where
  front _ := rfl
  initialised _ hd := hd
  cr3 := Or.inr ⟨t, ht, rfl⟩
  grows _ hc := List.mem_append_left _ hc
  log := by
    intro c hc
    rcases List.mem_append.mp hc with hold | hnew
    · exact Or.inl hold
    · exact Or.inr ⟨t, ht, k.paging, fun _ hd => hd, List.mem_singleton.mp hnew⟩

theorem Drawn.reloads (h : k.Drawn k') : k.Reloads k' := by
  obtain ⟨_, _, _, _, _, _, _, rfl, hpid⟩ := h
  exact .of_eq hpid rfl rfl rfl

theorem Drawn.sameTasks (h : k.Drawn k') : k.SameTasks k' ∧ k'.terminalState = k.terminalState := by
  obtain ⟨_, _, _, _, _, _, _, rfl, -⟩ := h
  exact ⟨⟨rfl, rfl, rfl, rfl, rfl⟩, rfl⟩

theorem initialised_of_changeTerminalState (k : Kernel) (fromT toT : ℕ) (d : DirectoryPtr)
    (hd : k.paging.Initialised d) : (k.changeTerminalState fromT toT).paging.Initialised d := by
  obtain ⟨P, hk, hdir, hP⟩ := k.changeTerminalState_spec fromT toT
  rw [hk]
  cases d with
  | null => exact hd
  | kernel =>
    obtain ⟨P₀, hP₀⟩ := hd
    exact ⟨P₀, hdir.trans hP₀⟩
  | user pid =>
    obtain ⟨p, hp, rfl, phys, screen, granted, htask⟩ := hd
    exact ⟨p, hp, rfl, phys, _, granted, hP p hp phys screen granted htask⟩

theorem changeTerminalState_reloads (k : Kernel) (fromT toT : ℕ) :
    k.Reloads (k.changeTerminalState fromT toT) := by
  obtain ⟨P, hk, -, -⟩ := k.changeTerminalState_spec fromT toT
  refine ⟨fun t => ?_, k.initialised_of_changeTerminalState fromT toT, ?_, ?_, ?_⟩
  · rw [hk]
    exact k.saveScreenXY_pid fromT t
  · rw [hk]
    exact Or.inl rfl
  · rw [hk]
    exact fun _ hc => hc
  · rw [hk]
    exact fun _ hc => Or.inl hc

theorem changeTerminalState_sameTasks (k : Kernel) (fromT toT : ℕ) :
    k.SameTasks (k.changeTerminalState fromT toT) ∧
      (k.changeTerminalState fromT toT).terminalState = toT := by
  obtain ⟨P, hk, -, -⟩ := k.changeTerminalState_spec fromT toT
  rw [hk]
  exact ⟨⟨rfl, rfl, rfl, rfl, rfl⟩, rfl⟩

theorem SameTasks.trans (h : k.SameTasks k') (h' : k'.SameTasks k'') : k.SameTasks k'' :=
  ⟨h'.pidAvail.trans h.pidAvail, h'.terminalBeingServiced.trans h.terminalBeingServiced,
    h'.terminalsLaunched.trans h.terminalsLaunched, h'.esp0.trans h.esp0, h'.pcbs.trans h.pcbs⟩

/-- The kernel in which the handler on `irqFlags` calls `internal_execute` for `toT`. -/
structure Launching (k : Kernel) (irqFlags : Word) (toT : ℕ) (k' : Kernel) : Prop where
  pidAvail : k'.pidAvail = k.pidAvail
  terminalBeingServiced : k'.terminalBeingServiced = toT
  terminalState : k'.terminalState = toT
  terminalsLaunched : k'.terminalsLaunched = k.terminalsLaunched ||| 1#32 <<< toT
  esp0 : k'.esp0 = k.esp0
  pcbs : ∃ b, k'.pcbs = Function.update k.pcbs k.pcbCurr { k.currentPcb with
    eip := .switchTerminalContext
    frame := .processSentScancode irqFlags
    eflags := b }
  reloads : k.Reloads k'

theorem launching_launching (k : Kernel) (irqFlags : Word) (toT : ℕ) :
    k.Launching irqFlags toT (k.launching irqFlags toT) := by
  have hreloads := k.changeTerminalState_reloads k.terminalState toT
  obtain ⟨P, hk, -, -⟩ := k.changeTerminalState_spec k.terminalState toT
  rw [launching, hk]
  rw [hk] at hreloads
  exact ⟨rfl, rfl, rfl, rfl, rfl, ⟨_, rfl⟩, hreloads.trans (.of_eq (fun _ => rfl) rfl rfl rfl)⟩

/-- The kernel while `IRQ1_handler_sub` runs the key handler. -/
def interrupted (k : Kernel) : Kernel :=
  (k.setPcb k.pcbCurr fun p => { p with flags := p.flags ||| IN_INTERRUPT_FLAG }).setInterruptFlag
    true

/-- The end of `IRQ1_handler_sub` on the frame that it began on. -/
def irq1Return (k k' : Kernel) : Kernel :=
  k'.setPcb k.pcbCurr fun p => { p with flags := k.currentPcb.flags }

theorem irq1Handler_eq (k : Kernel) (fs : Fs) (residue : Residue) (raw : UInt8) :
    k.irq1Handler fs residue raw =
      match k.interrupted.processSentScancode fs residue k.currentPcb.flags raw with
      | .returned k' => .returned (k.irq1Return k')
      | .switched k' entryPoint => .switched k' entryPoint := rfl

/-- What a key does to the processes. -/
inductive KeyOutcome (k : Kernel) (fs : Fs) (residue : Residue) : KeyResult → Prop
  | stays {k' : Kernel} (tasks : k.SameTasks k') (visible : k'.terminalState = k.terminalState)
      (reloads : k.Reloads k') (paging : k'.paging = k.paging) : KeyOutcome k fs residue (.returned k')
  | switches {toT : ℕ} {k' : Kernel} (h : k.SwitchesTo toT) (tasks : k.SameTasks k')
      (visible : k'.terminalState = toT) (reloads : k.Reloads k')
      (paging : ∀ p < MAX_NUM_PROCS, ∀ phys screen granted,
        k.paging.TaskPaging p phys screen granted → k'.paging.TaskPaging p phys
          (k.remappedScreen k.terminalState toT p screen) granted) :
      KeyOutcome k fs residue (.returned k')
  | launches {toT pid : ℕ} {k₁ k' : Kernel} {entryPoint : Word} (h : k.Launches toT)
      (launching : k.interrupted.Launching k.currentPcb.flags toT k₁)
      (starts : k₁.Starts pid FIRST_TERM_SHELL k') : KeyOutcome k fs residue (.switched k' entryPoint)
  | fails {toT : ℕ} {k₁ : Kernel} (h : k.Launches toT)
      (launching : k.interrupted.Launching k.currentPcb.flags toT k₁)
      (failed : k₁.executeShell fs residue = .failed k₁.executePrologue) :
      KeyOutcome k fs residue (.returned (k.irq1Return k₁.executePrologue.switchTerminalContext))

theorem irq1Return_sameTasks (h : k.interrupted.SameTasks k') : k.SameTasks (k.irq1Return k') := by
  refine ⟨h.pidAvail, h.terminalBeingServiced, h.terminalsLaunched, h.esp0, ?_⟩
  have hpcbs : (k.irq1Return k').pcbs = ((k.setPcb k.pcbCurr fun p =>
      { p with flags := p.flags ||| IN_INTERRUPT_FLAG }).setPcb k.pcbCurr fun p =>
      { p with flags := k.currentPcb.flags }).pcbs := by
    simp only [irq1Return, setPcb, h.pcbs, interrupted, setInterruptFlag]
  rw [hpcbs, setPcb_setPcb]
  exact Function.update_eq_self k.pcbCurr k.pcbs

theorem interrupted_owner (k : Kernel) (a : Addr) :
    (k.interrupted.pcbs a).ownedByTerminal = (k.pcbs a).ownedByTerminal := by
  simp only [interrupted, setPcb, setInterruptFlag]
  rcases eq_or_ne a k.pcbCurr with rfl | hne
  · rw [Function.update_self]
  · rw [Function.update_of_ne hne]

theorem interrupted_reloads (k : Kernel) : k.Reloads k.interrupted :=
  .of_eq (fun _ => rfl) rfl rfl rfl

theorem irq1Return_reloads (h : k.interrupted.Reloads k') : k.Reloads (k.irq1Return k') :=
  k.interrupted_reloads.trans (h.trans (.of_eq (fun _ => rfl) rfl rfl rfl))

/-- From `k` to `k'` no process, no mapping and not the terminal that is visible have
changed. -/
structure SameLayout (k k' : Kernel) : Prop where
  tasks : k.SameTasks k'
  visible : k'.terminalState = k.terminalState
  reloads : k.Reloads k'
  paging : k'.paging = k.paging

theorem SameLayout.trans (h : k.SameLayout k') (h' : k'.SameLayout k'') : k.SameLayout k'' :=
  ⟨h.tasks.trans h'.tasks, h'.visible.trans h.visible, h.reloads.trans h'.reloads,
    h'.paging.trans h.paging⟩

theorem Drawn.sameLayout (h : k.Drawn k') : k.SameLayout k' := by
  have hreloads := h.reloads
  obtain ⟨htasks, hvisible⟩ := h.sameTasks
  obtain ⟨_, _, _, _, _, _, _, rfl, -⟩ := h
  exact ⟨htasks, hvisible, hreloads, rfl⟩

theorem loadTerminalDirectory_quiet (k : Kernel) {t : ℕ} (ht : t < NUM_TERMINALS) :
    k.SameLayout (k.loadTerminalDirectory t) :=
  ⟨⟨rfl, rfl, rfl, rfl, rfl⟩, rfl, loadTerminalDirectory_reloads k ht, rfl⟩

theorem switchTerminalContext_quiet (k : Kernel)
    (hserviced : k.terminalBeingServiced < NUM_TERMINALS) :
    k.SameLayout k.switchTerminalContext :=
  k.loadTerminalDirectory_quiet hserviced

theorem pressed_quiet (k : Kernel) (raw : UInt8) (b : Bool)
    (hvisible : k.terminalState < NUM_TERMINALS) :
    k.SameLayout ((k.pressed raw).setInterruptFlag b) := by
  have hkey : k.SameLayout { k with
      keyboardState := updateKeyboardState k.keyboardState raw
      interruptFlag := b } :=
    ⟨⟨rfl, rfl, rfl, rfl, rfl⟩, rfl, .of_eq (fun _ => rfl) rfl rfl rfl, rfl⟩
  exact hkey.trans (loadTerminalDirectory_quiet _ hvisible)

theorem SameLayout.irq1Return (h : k.interrupted.SameLayout k') : k.SameLayout (k.irq1Return k') :=
  ⟨irq1Return_sameTasks h.tasks, h.visible, irq1Return_reloads h.reloads, h.paging⟩

theorem SameLayout.stays {fs : Fs} {residue : Residue} (h : k.interrupted.SameLayout k') :
    k.KeyOutcome fs residue (.returned (k.irq1Return k')) :=
  .stays h.irq1Return.tasks h.irq1Return.visible h.irq1Return.reloads h.irq1Return.paging

section Branch

variable {k₀ : Kernel} {toT : ℕ}

theorem SameLayout.remappedScreen (h : k.interrupted.SameLayout k₀) (p : ℕ) (screen : Word) :
    k₀.remappedScreen k.terminalState toT p screen =
      k.remappedScreen k.terminalState toT p screen := by
  have hused : k₀.isPidUsed p = k.isPidUsed p := by
    unfold isPidUsed
    rw [h.tasks.pidAvail]
    rfl
  unfold Kernel.remappedScreen
  rw [hused, h.tasks.pcbs, k.interrupted_owner]

theorem SameLayout.switches {fs : Fs} {residue : Residue} (h : k.interrupted.SameLayout k₀)
    (hto : k.SwitchesTo toT) (hserviced : k.terminalBeingServiced < NUM_TERMINALS) :
    k.KeyOutcome fs residue (.returned
      (k.irq1Return (k₀.changeTerminalState k.terminalState toT).switchTerminalContext)) := by
  obtain ⟨htasks, hstate⟩ := k₀.changeTerminalState_sameTasks k.terminalState toT
  obtain ⟨P, hk, -, hP⟩ := k₀.changeTerminalState_spec k.terminalState toT
  have hreloads := k₀.changeTerminalState_reloads k.terminalState toT
  have hpaging : (k₀.changeTerminalState k.terminalState toT).paging = P := by rw [hk]
  have hserviced' : (k₀.changeTerminalState k.terminalState toT).terminalBeingServiced <
      NUM_TERMINALS := by
    rw [htasks.terminalBeingServiced, h.tasks.terminalBeingServiced]
    exact hserviced
  have hback := (k₀.changeTerminalState k.terminalState toT).switchTerminalContext_quiet hserviced'
  refine .switches hto (irq1Return_sameTasks ((h.tasks.trans htasks).trans hback.tasks)) hstate
    (irq1Return_reloads ((h.reloads.trans hreloads).trans hback.reloads)) ?_
  intro p hp phys screen granted htask
  have htask' := hP p hp phys screen granted (h.paging.symm ▸ htask)
  rw [h.remappedScreen, ← hpaging] at htask'
  exact htask'

theorem SameLayout.launching (h : k.interrupted.SameLayout k₀) (irqFlags : Word) :
    k.interrupted.Launching irqFlags toT (k₀.launching irqFlags toT) := by
  obtain ⟨hpid, hserviced, hvisible, hlaunched, hesp0, ⟨b, hpcbs⟩, hreloads⟩ :=
    k₀.launching_launching irqFlags toT
  have hcur : k₀.pcbCurr = k.interrupted.pcbCurr := by
    unfold pcbCurr
    rw [h.tasks.esp0]
  refine ⟨hpid.trans h.tasks.pidAvail, hserviced, hvisible, ?_, hesp0.trans h.tasks.esp0,
    ⟨b, ?_⟩, h.reloads.trans hreloads⟩
  · rw [hlaunched, h.tasks.terminalsLaunched]
  · rw [hpcbs, currentPcb, h.tasks.pcbs, hcur]
    rfl

theorem SameLayout.launches {fs : Fs} {residue : Residue} (h : k.interrupted.SameLayout k₀)
    (hlaunch : k.Launches toT) :
    k.KeyOutcome fs residue (match k₀.launch fs residue k.currentPcb.flags toT with
      | .returned k' => .returned (k.irq1Return k')
      | .switched k' entryPoint => .switched k' entryPoint) := by
  have hlaunching : k.interrupted.Launching k.currentPcb.flags toT _ :=
    h.launching k.currentPcb.flags
  unfold launch
  rcases (k₀.launching k.currentPcb.flags toT).executeShell_cases fs residue with
    hexec | ⟨pid, k', entryPoint, hstarts, hexec⟩
  · rw [hexec]
    exact .fails hlaunch hlaunching hexec
  · rw [hexec]
    exact .launches hlaunch hlaunching hstarts

end Branch

theorem irq1Handler_outcome (k : Kernel) (fs : Fs) (residue : Residue) (raw : UInt8)
    (hvisible : k.terminalState < NUM_TERMINALS)
    (hserviced : k.terminalBeingServiced < NUM_TERMINALS) :
    k.KeyOutcome fs residue (k.irq1Handler fs residue raw) := by
  have hpressed (b : Bool) := k.interrupted.pressed_quiet raw b hvisible
  have hhandled := k.interrupted.processSentScancode_handled fs residue k.currentPcb.flags raw
  rw [irq1Handler_eq]
  generalize k.interrupted.processSentScancode fs residue k.currentPcb.flags raw = r at hhandled ⊢
  cases hhandled with
  | ignored _ =>
    exact SameLayout.stays ⟨⟨rfl, rfl, rfl, rfl, rfl⟩, rfl, .of_eq (fun _ => rfl) rfl rfl rfl, rfl⟩
  | @drawn b k' h =>
    have hdrawn := (hpressed b).trans h.sameLayout
    have hback := k'.switchTerminalContext_quiet (hdrawn.tasks.terminalBeingServiced ▸ hserviced)
    exact (hdrawn.trans hback).stays
  | switches h => exact (hpressed false).switches h hserviced
  | launches h => exact (hpressed false).launches h

end Key

end Kernel

end SnoopDos
