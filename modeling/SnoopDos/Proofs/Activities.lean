import SnoopDos.Proofs.CallFrames
import SnoopDos.Proofs.DirectoryLoads

/-! The slots of the processes in any run. Once the first shell runs, the process that
runs is in the slot its PCB names, whatever is called, faults, types or ticks. -/

namespace SnoopDos

open Kernel

namespace Kernel

variable {k k' k'' : Kernel} {C : Set ℕ} {p : ℕ} {fs : Fs}

/-- From `k` to `k'` no other process or terminal is served, nothing has been loaded, and
every PCB leads to the same ones. -/
structure SameService (k k' : Kernel) : Prop where
  terminalState : k'.terminalState = k.terminalState
  terminalBeingServiced : k'.terminalBeingServiced = k.terminalBeingServiced
  terminalsLaunched : k'.terminalsLaunched = k.terminalsLaunched
  esp0 : k'.esp0 = k.esp0
  pidAvail : k'.pidAvail = k.pidAvail
  paging : k'.paging = k.paging
  cr3 : k'.cr3 = k.cr3
  cr3Log : k'.cr3Log = k.cr3Log
  front : ∀ t, k'.front t = k.front t
  linked : ∀ a, (k.pcbs a).Linked (k'.pcbs a)

section Service

theorem SameService.refl (k : Kernel) : k.SameService k :=
  ⟨rfl, rfl, rfl, rfl, rfl, rfl, rfl, rfl, fun _ => rfl, fun _ => .refl _⟩

theorem SameService.trans (h : k.SameService k') (h' : k'.SameService k'') : k.SameService k'' where
  terminalState := h'.terminalState.trans h.terminalState
  terminalBeingServiced := h'.terminalBeingServiced.trans h.terminalBeingServiced
  terminalsLaunched := h'.terminalsLaunched.trans h.terminalsLaunched
  esp0 := h'.esp0.trans h.esp0
  pidAvail := h'.pidAvail.trans h.pidAvail
  paging := h'.paging.trans h.paging
  cr3 := h'.cr3.trans h.cr3
  cr3Log := h'.cr3Log.trans h.cr3Log
  front t := (h'.front t).trans (h.front t)
  linked a := (h.linked a).trans (h'.linked a)

theorem setPcb_sameService (k : Kernel) (a : Addr) {f : Pcb → Pcb} (hf : ∀ c : Pcb, c.Linked (f c)) :
    k.SameService (k.setPcb a f) :=
  ⟨rfl, rfl, rfl, rfl, rfl, rfl, rfl, rfl, fun _ => rfl, linked_update k.pcbs a (hf _)⟩

theorem Shown.sameService (h : k.Shown k') : k.SameService k' := by
  obtain ⟨_, _, _, _, _, _, _, rfl, hpid⟩ := h.drawn
  exact ⟨rfl, rfl, rfl, rfl, rfl, rfl, rfl, rfl, hpid, fun _ => .refl _⟩

theorem sameService_rule : CallRule SameService where
  refl := .refl
  trans _ _ _ := .trans
  setFd k n f := k.setPcb_sameService _ fun _ => ⟨rfl, rfl, rfl, fun _ _ h => h⟩
  setTerminal k t f hf := by
    refine ⟨rfl, rfl, rfl, rfl, rfl, rfl, rfl, rfl, fun i => ?_, fun _ => .refl _⟩
    change (Function.update k.terminals t (f (k.terminals t)) i).pid = (k.terminals i).pid
    rcases eq_or_ne i t with rfl | hne
    · rw [Function.update_self]
      exact (hf _).2.2
    · rw [Function.update_of_ne hne]
  setRtc k flag registerA inited :=
    ⟨rfl, rfl, rfl, rfl, rfl, rfl, rfl, rfl, fun _ => rfl, fun _ => .refl _⟩

theorem irq8Handler_sameService (k : Kernel) : k.SameService k.irq8Handler := by
  unfold irq8Handler
  extract_lets pcbCurr flags k₁ k₂ k₃
  have hflags (b : Pcb → Word) (c : Pcb) : c.Linked { c with flags := b c } :=
    ⟨rfl, rfl, rfl, fun _ _ h => h⟩
  have henter : k.SameService k₁ := k.setPcb_sameService _ (hflags _)
  have hclock : k₁.SameService k₃ :=
    ⟨rfl, rfl, rfl, rfl, rfl, rfl, rfl, rfl, fun _ => rfl, fun _ => .refl _⟩
  exact (henter.trans hclock).trans (k₃.setPcb_sameService _ (hflags _))

end Service

theorem Loaded.sameService (h : k.Loaded C p) (hsame : k.SameService k') : k'.Loaded C p := by
  refine h.reloads hsame.linked (.of_eq hsame.front hsame.paging hsame.cr3 hsame.cr3Log) ?_ ?_
    hsame.esp0 hsame.pidAvail
  · rw [hsame.terminalState]
    exact h.serving.visible
  · rw [hsame.terminalBeingServiced, launched_congr hsame.terminalsLaunched]
    exact h.serving.serviced

theorem Loaded.vidmap (h : k.Loaded C p) (screenStart : Addr) (u : UserMem) :
    (k.vidmap screenStart u).1.2.Loaded C p := by
  unfold Kernel.vidmap
  split_ifs
  · rw [UserMem.bind_run, UserMem.pure_run]
    refine h.reloads (fun _ => .refl _) ⟨fun _ => rfl, fun d hd => ?_, Or.inl rfl, fun _ hc => hc,
      fun _ hc => Or.inl hc⟩ h.serving.visible h.serving.serviced rfl rfl
    cases d with
    | null => exact hd
    | kernel => exact hd
    | user z =>
      obtain ⟨q, hq, rfl, phys, screen, granted, htask⟩ := hd
      refine ⟨q, hq, rfl, phys, screen, ?_⟩
      rcases eq_or_ne (q : ℤ) k.currentPcb.pid with heq | hne
      · rw [← heq]
        exact ⟨true, htask.grantUserAccess⟩
      · exact ⟨granted, htask.grantUserAccess_of_ne hne _⟩
  · exact h

/-- A fault ends the process, and the call that has started it goes on. -/
theorem Loaded.haltExcep (h : k.Loaded C p) {status haltStatus : Word}
    (hend : k.haltExcep status = .resumed k' haltStatus) : ∃ q, k'.Loaded C q := by
  obtain ⟨-, q, hq, hqpid, hparent, hesp0, hroot⟩ := h.parent
  have hreturn : k.dying.haltReturn k.pcbCurr k.currentPcb.parentPCB status =
      .resumed k' haltStatus := hend
  rw [hparent] at hreturn
  exact ⟨q, h.leaves_resumed hq hroot (h.dying_leaves hqpid hesp0) hreturn⟩

end Kernel

namespace System

variable {fs : Fs} {s s' : System} {C : Set ℕ} {p : ℕ}

/-- User code runs, as a process of the slots. -/
def RunsProcess (s : System) : Prop := s.phase = .user ∧ ∃ C p, s.kernel.Loaded C p

theorem act_running (s : System) (a : Activity) (s' : System) (h : s.RunsProcess)
    (hact : s.act fs a s') : s'.RunsProcess := by
  obtain ⟨hphase, C, p, hloaded⟩ := h
  cases a with
  | system e =>
    obtain ⟨phase, k⟩ := s
    obtain rfl : phase = .user := hphase
    cases e with
    | entry residue => cases hact
    | event e =>
      obtain ⟨k', hk', rfl⟩ := Option.map_eq_some_iff.mp hact
      exact ⟨rfl, step_loaded hloaded e hk'⟩
  | clock =>
    obtain rfl := hact
    exact ⟨hphase, C, p, (hloaded.sameService s.kernel.irq8Handler_sameService).iret⟩
  | call u c =>
    obtain ⟨-, hphase', ret, hrun⟩ := hact
    exact ⟨hphase', C, p,
      hloaded.sameService (sameService_rule.call (fun _ _ => Shown.sameService) hrun)⟩
  | awaitLine =>
    obtain ⟨-, rfl⟩ := hact
    exact ⟨hphase, C, p, hloaded.sameService (sameService_rule.readTerminalStart _ _)⟩
  | takeLine t =>
    obtain ⟨-, -, rfl⟩ := hact
    exact ⟨hphase, C, p, hloaded.sameService (sameService_rule.readTerminalDrain _ t)⟩
  | vidmap u screenStart =>
    obtain ⟨-, rfl⟩ := hact
    exact ⟨hphase, C, p, hloaded.vidmap screenStart u⟩
  | fault status =>
    obtain ⟨-, k, haltStatus, hend, rfl⟩ := hact
    obtain ⟨q, hq⟩ := hloaded.haltExcep hend
    exact ⟨hphase, C, q, hq.iret⟩
  | store mem =>
    obtain ⟨-, rfl⟩ := hact
    exact ⟨hphase, C, p, hloaded.sameService (s.kernel.setMem_shown mem).sameService⟩

end System

theorem Booted.running {fs : Fs} {k₀ k : Kernel} (hboot : Booted k₀) {residue : Residue}
    {entryPoint : Word} (hentry : k₀.entry fs residue = .started k entryPoint) :
    System.RunsProcess ⟨.user, k⟩ := by
  have hgreeted : (k₀.printfT WELCOME).Entering :=
    hboot.entering.drawn (k₀.printfT_shown WELCOME).drawn
  exact ⟨rfl, hgreeted.starts hentry⟩

/-- Whatever has been typed, called, started and ended since the first shell: the process
that runs is the one whose pid its PCB holds, pid 0 is in use, the loaded directory maps the
kernel, and every terminal leads to a process whose PCB and directory have been set up. -/
theorem running_slot (fs : Fs) (k₀ k : Kernel) (hboot : Booted k₀) (residue : Residue)
    (entryPoint : Word) (hentry : k₀.entry fs residue = .started k entryPoint)
    (p : List (Activity × System)) (hp : Runs.Path (System.act fs) ⟨.user, k⟩ p) :
    let k := (Runs.final ⟨.user, k⟩ p).kernel
    (∃ q < MAX_NUM_PROCS, k.pcbCurr = pcbAddr q ∧ k.currentPcb.pid = q) ∧ k.Used 0 ∧
      Paging.KernelMapped (k.paging.directory k.cr3) ∧
      ∀ t < NUM_TERMINALS, (k.terminals t).pid < MAX_NUM_PROCS ∧
        (k.pcbs (pcbAddr (k.terminals t).pid)).pid = (k.terminals t).pid ∧
        k.paging.Initialised (getPageDirectoryForPid (k.terminals t).pid) := by
  intro k
  obtain ⟨-, C, q, hloaded⟩ := Runs.invariant_final
    (fun s a s' h _ hact => System.act_running s a s' h hact) (hboot.running hentry) hp
    (Runs.meets_true fun _ _ => trivial)
  refine ⟨⟨q, (hloaded.serving.slots.slot q hloaded.running).1, hloaded.current.1,
    hloaded.parent.1⟩, hloaded.used, hloaded.cr3.kernelMapped, fun t ht => ?_⟩
  obtain ⟨hlt, -, hpid, -⟩ := hloaded.serving.slots.slot _ (hloaded.serving.front t ht)
  exact ⟨hlt, hpid, hloaded.serving.initialised ht⟩

/-- The first shell executes another, which ends. -/
@[irreducible] def visitRun : List (Activity × System) :=
  (Runs.follow (System.step shellFs) ⟨.user, firstShell⟩
    [.event (.execute zeroResidue fun i => Id.run (ofList SHELL i)), .event (.halt zeroResidue 0)]).map
    fun x => (.system x.1, x.2)

/-- Slot 1 is in use in between; then the first shell runs in its slot again. -/
theorem running_slot_visit :
    visitRun.map (fun x => decide (x.2.kernel.Used 1)) = [true, false] ∧
    let k := (Runs.final ⟨.user, firstShell⟩ visitRun).kernel
    (∃ q < MAX_NUM_PROCS, k.pcbCurr = pcbAddr q ∧ k.currentPcb.pid = q) ∧ k.Used 0 ∧
      Paging.KernelMapped (k.paging.directory k.cr3) ∧
      k.paging.Initialised (getPageDirectoryForPid (k.terminals 0).pid) := by
  obtain ⟨entryPoint, hentry⟩ := entry_shellFs
  have hpath : Runs.Path (System.act shellFs) ⟨.user, firstShell⟩ visitRun := by
    unfold visitRun
    exact Runs.path_map (f := Activity.system) (fun _ _ _ h => h) (Runs.follow_path _ _ _)
  obtain ⟨hslot, hused, hmapped, hterminals⟩ := running_slot shellFs bootKernel firstShell
    bootKernel_booted zeroResidue entryPoint hentry visitRun hpath
  exact ⟨by decide +kernel, hslot, hused, hmapped, (hterminals 0 (by decide)).2.2⟩

end SnoopDos
