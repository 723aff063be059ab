import SnoopDos.Proofs.Schedule
import SnoopDos.Proofs.Slots

/-! Which page directories the kernel loads, from boot on. Once user code runs they
belong to slots that have held processes. Before that the terminals already name pid
0, whose directory nobody has set up. -/

namespace SnoopDos

open Kernel

namespace Kernel

variable {k k' : Kernel} {C : Set ℕ} {fs : Fs}

section Entry

/-- `entry` has not started a process: the terminals name pid 0, whose directory is
still what the loader left. -/
structure Entering (k : Kernel) : Prop where
  unstarted : k.Unstarted
  front : ∀ t, k.front t = 0
  cr3 : k.cr3 = .kernel
  cr3Log : k.cr3Log = []
  kernel : k.paging.Initialised .kernel
  zero : k.paging.userLevelPageDirectories 0 = fun _ => 0#32

theorem Entering.congr (h : k.Entering) (htasks : k.SameTasks k')
    (hvisible : k'.terminalState = k.terminalState) (hfront : ∀ t, k'.front t = k.front t)
    (hpaging : k'.paging = k.paging) (hcr3 : k'.cr3 = k.cr3) (hlog : k'.cr3Log = k.cr3Log) :
    k'.Entering where
  unstarted :=
    ⟨htasks.pidAvail.trans h.unstarted.pidAvail,
      htasks.terminalBeingServiced.trans h.unstarted.terminalBeingServiced,
      htasks.terminalsLaunched.trans h.unstarted.terminalsLaunched,
      hvisible.trans h.unstarted.terminalState, htasks.esp0.trans h.unstarted.esp0,
      fun a => by rw [htasks.pcbs]; exact h.unstarted.frame a⟩
  front t := (hfront t).trans (h.front t)
  cr3 := hcr3.trans h.cr3
  cr3Log := hlog.trans h.cr3Log
  kernel := hpaging ▸ h.kernel
  zero := hpaging ▸ h.zero

theorem Entering.drawn (h : k.Entering) (hdrawn : k.Drawn k') : k'.Entering := by
  obtain ⟨htasks, hvisible⟩ := hdrawn.sameTasks
  obtain ⟨_, _, _, _, _, _, _, rfl, hpid⟩ := hdrawn
  exact h.congr htasks hvisible hpid rfl rfl rfl

theorem Entering.iret (h : k.Entering) : k.iret.Entering :=
  h.congr ⟨rfl, rfl, rfl, rfl, rfl⟩ rfl (fun _ => rfl) rfl rfl rfl

/-- While only the first terminal has been launched a tick does nothing. -/
theorem Entering.irq0Handler (h : k.Entering) : k.irq0Handler = some k := by
  rw [Kernel.irq0Handler, roundRobinScheduler, if_pos h.unstarted.terminalsLaunched]
  split_ifs
  · rfl
  · rfl

theorem Entering.key_ignored (h : k.Entering) {residue : Residue} {raw : UInt8}
    (hignored : raw = DELETE_SCAN_CODE ∨ ¬ (scancodeTable raw).isMake)
    (hreturned : k.irq1Handler fs residue raw = .returned k') : k'.Entering := by
  rw [irq1Handler_eq, k.interrupted.processSentScancode_ignored fs residue k.currentPcb.flags hignored]
    at hreturned
  obtain rfl := KeyResult.returned.inj hreturned
  exact h.congr (irq1Return_sameTasks ⟨rfl, rfl, rfl, rfl, rfl⟩) rfl (fun _ => rfl) rfl rfl rfl

theorem Entering.starts (h : k.Entering) {residue : Residue} {entryPoint : Word}
    (hexec : k.executeShell fs residue = .started k' entryPoint) : ∃ C p, k'.Loaded C p := by
  have hslots : k.Slots ∅ := by
    refine ⟨fun p hp => absurd hp (Set.notMem_empty p), fun p _ c b hframe => ?_, h.kernel,
      fun c hc => ?_⟩
    · rw [pcb, h.unstarted.frame] at hframe
      cases hframe
    · rw [h.cr3Log] at hc
      cases hc
  obtain ⟨pid, hstarts⟩ := executeShell_started hexec
  have hpid : pid = 0 := by
    by_contra hne
    exact h.unstarted.not_used 0 (hstarts.least 0 (Nat.pos_of_ne_zero hne))
  subst hpid
  refine ⟨_, 0, hslots.started (q := 0) (Set.mem_insert 0 ∅) h.unstarted.esp0_eq hstarts
    (Or.inr ⟨rfl, rfl, by decide⟩) (fun _ c b hframe => ?_) (fun t _ => ?_) ?_ ?_⟩
  · rw [pcb, h.unstarted.frame] at hframe
    cases hframe
  · rw [h.front]
    exact Set.mem_insert 0 ∅
  · rw [h.unstarted.terminalState]
    decide
  · rw [h.unstarted.terminalBeingServiced]
    exact ⟨by decide, (h.unstarted.launched_iff (by decide)).mpr rfl⟩

end Entry

theorem irq1Handler_loads {residue : Residue} {raw : UInt8}
    (hmake : ¬ (raw = DELETE_SCAN_CODE ∨ ¬ (scancodeTable raw).isMake))
    (hreturned : k.irq1Handler fs residue raw = .returned k') :
    k.loadOf (getPageDirectoryForPid (k.front k.terminalState)) ∈ k'.cr3Log := by
  set c := k.loadOf (getPageDirectoryForPid (k.front k.terminalState)) with hc
  have hpressed (b : Bool) : c ∈ ((k.interrupted.pressed raw).setInterruptFlag b).cr3Log :=
    List.mem_append_right _ (List.mem_singleton.mpr rfl)
  have hback (k₁ : Kernel) (h : c ∈ k₁.cr3Log) : c ∈ k₁.switchTerminalContext.cr3Log :=
    List.mem_append_left _ h
  have hhandled := k.interrupted.processSentScancode_handled fs residue k.currentPcb.flags raw
  rw [irq1Handler_eq] at hreturned
  generalize k.interrupted.processSentScancode fs residue k.currentPcb.flags raw = r
    at hhandled hreturned
  cases hhandled with
  | ignored hignored => exact absurd hignored hmake
  | @drawn b k₁ h =>
    obtain rfl := KeyResult.returned.inj hreturned
    exact hback k₁ (h.reloads.grows c (hpressed b))
  | @switches toT h =>
    obtain rfl := KeyResult.returned.inj hreturned
    exact hback _ ((changeTerminalState_reloads _ _ toT).grows c (hpressed false))
  | @launches toT h =>
    have hlaunching := ((k.interrupted.pressed raw).setInterruptFlag false).launching_launching
      k.currentPcb.flags toT
    unfold launch at hreturned
    rcases (((k.interrupted.pressed raw).setInterruptFlag false).launching k.currentPcb.flags
      toT).executeShell_cases fs residue with hexec | ⟨pid, k₁, entryPoint, -, hexec⟩
    · rw [hexec] at hreturned
      obtain rfl := KeyResult.returned.inj hreturned
      obtain ⟨pcbs, hpro⟩ := (((k.interrupted.pressed raw).setInterruptFlag false).launching
        k.currentPcb.flags toT).executePrologue_frame
      rw [hpro]
      exact hback _ (hlaunching.reloads.grows c (hpressed false))
    · rw [hexec] at hreturned
      cases hreturned

end Kernel

namespace System

/-- The kernel is mapped, by directories that were set up when they were loaded. While
user code runs this includes what the next tick or key can load, and what a process
that ends has loaded when it jumps to its parent. -/
structure Mapped (fs : Fs) (s : System) : Prop where
  loads : ∀ c ∈ s.kernel.cr3Log, SetUp c.1 c.2
  mapped : Paging.KernelMapped (s.kernel.paging.directory s.kernel.cr3)
  terminals : s.phase = .user → ∀ t < NUM_TERMINALS,
    s.kernel.paging.Initialised (getPageDirectoryForPid (s.kernel.terminals t).pid)
  exits : s.phase = .user → ∀ residue status k' parent,
    s.kernel.haltExit fs residue status = .jumps k' parent → ∀ c ∈ k'.cr3Log, SetUp c.1 c.2

/-- Before the first shell runs no scancode arrives that is a make code by the table, other
than that of Delete. By the table some above 0x80 are: 0xA9, which is a release, and 0xE0. -/
def NoMakeCode (s : System) : SystemEvent → Prop
  | .event (.key _ raw) =>
    s.phase = .user ∨ raw = DELETE_SCAN_CODE ∨ ¬ (scancodeTable raw).isMake
  | _ => True

/-- What such a run keeps. -/
structure Sound (s : System) : Prop where
  entering : s.phase ≠ .user → s.kernel.Entering
  user : s.phase = .user → ∃ C p, s.kernel.Loaded C p

variable {fs : Fs} {s s' : System}

theorem Sound.mapped (h : s.Sound) : s.Mapped fs := by
  by_cases huser : s.phase = .user
  · obtain ⟨C, p, hloaded⟩ := h.user huser
    exact ⟨hloaded.serving.slots.log, hloaded.cr3.kernelMapped,
      fun _ t ht => hloaded.serving.initialised ht,
      fun _ residue status k' parent hexit => hloaded.exits hexit⟩
  · have hentering := h.entering huser
    refine ⟨fun c hc => ?_, ?_, fun h' => absurd h' huser, fun h' => absurd h' huser⟩
    · rw [hentering.cr3Log] at hc
      cases hc
    · rw [hentering.cr3]
      exact hentering.kernel.kernelMapped

theorem sound_of_entering {k : Kernel} {phase : EntryPhase} (h : k.Entering)
    (hphase : phase ≠ .user) : Sound ⟨phase, k⟩ := ⟨fun _ => h, fun huser => absurd huser hphase⟩

theorem sound_of_loaded {k : Kernel} {C : Set ℕ} {p : ℕ} (h : k.Loaded C p) :
    Sound ⟨.user, k⟩ := ⟨fun hne => absurd rfl hne, fun _ => ⟨C, p, h⟩⟩

theorem Sound.interrupt (h : s.kernel.Entering) (hphase : s.phase ≠ .user) {e : Event}
    (hnomake : s.NoMakeCode (.event e)) (hstep : s.interrupt fs e = some s') : s'.Sound := by
  cases e with
  | execute residue command => cases hstep
  | halt residue status => cases hstep
  | tick =>
    rw [System.interrupt, h.irq0Handler] at hstep
    obtain rfl := Option.some.inj hstep
    exact sound_of_entering h.iret hphase
  | key residue raw =>
    rw [System.interrupt] at hstep
    cases hkey : s.kernel.irq1Handler fs residue raw with
    | returned k =>
      rw [hkey] at hstep
      obtain rfl := Option.some.inj hstep
      exact sound_of_entering (h.key_ignored (hnomake.resolve_left hphase) hkey).iret hphase
    | switched k entryPoint =>
      rw [hkey] at hstep
      cases hstep

theorem step_sound (s : System) (e : SystemEvent) (s' : System) (h : s.Sound) (hnomake : s.NoMakeCode e)
    (hstep : s.step fs e = some s') : s'.Sound := by
  obtain ⟨phase, k⟩ := s
  cases e with
  | entry residue =>
    cases phase with
    | welcome =>
      obtain rfl := Option.some.inj hstep
      have hentering : k.Entering := h.entering EntryPhase.noConfusion
      exact sound_of_entering (hentering.drawn (k.printfT_shown WELCOME).drawn)
        EntryPhase.noConfusion
    | execute =>
      have hentering : k.Entering := h.entering EntryPhase.noConfusion
      simp only [System.step] at hstep
      cases hexec : k.executeShell fs residue with
      | failed k' => simp [hexec] at hstep
      | started k' entryPoint =>
        simp only [hexec, Option.some.injEq] at hstep
        obtain ⟨C, p, hloaded⟩ := hentering.starts hexec
        exact hstep ▸ sound_of_loaded hloaded
    | user => cases hstep
  | event e =>
    cases phase with
    | user =>
      obtain ⟨k', hk', rfl⟩ := Option.map_eq_some_iff.mp hstep
      obtain ⟨C, p, hloaded⟩ := h.user rfl
      obtain ⟨C', p', hloaded'⟩ := step_loaded hloaded e hk'
      exact sound_of_loaded hloaded'
    | welcome =>
      exact Sound.interrupt (h.entering EntryPhase.noConfusion) EntryPhase.noConfusion hnomake hstep
    | execute =>
      exact Sound.interrupt (h.entering EntryPhase.noConfusion) EntryPhase.noConfusion hnomake hstep

/-- A directory that nobody has written to does not map the kernel. -/
theorem not_setUp_zero (d : DirectoryPtr) : ¬ SetUp d fun _ => 0#32 := by
  intro h
  have hkernel := h.kernelMapped.kernel
  revert hkernel
  decide

theorem step_not_mapped (s : System) (e : SystemEvent) (s' : System) (h : s.Sound)
    (hpressed : ¬ s.NoMakeCode e) (hstep : s.step fs e = some s') : ¬ s'.Mapped fs := by
  obtain ⟨phase, k⟩ := s
  rcases e with residue | e
  · exact absurd trivial hpressed
  rcases e with ⟨residue, command⟩ | ⟨residue, status⟩ | - | ⟨residue, raw⟩
  · exact absurd trivial hpressed
  · exact absurd trivial hpressed
  · exact absurd trivial hpressed
  obtain ⟨hphase, hmake⟩ := not_or.mp hpressed
  have hentering := h.entering hphase
  have hinterrupt : System.interrupt fs ⟨phase, k⟩ (.key residue raw) = some s' := by
    cases phase with
    | user => exact absurd rfl hphase
    | welcome => exact hstep
    | execute => exact hstep
  rw [System.interrupt] at hinterrupt
  cases hkey : k.irq1Handler fs residue raw with
  | returned k' =>
    rw [hkey] at hinterrupt
    obtain rfl := Option.some.inj hinterrupt
    have hload := irq1Handler_loads hmake hkey
    have hzero : k.paging.directory (.user (0 : ℕ)) = fun _ => 0#32 := hentering.zero
    rw [hentering.front, loadOf, getPageDirectoryForPid_of_lt (by decide), hzero] at hload
    exact fun hmapped => not_setUp_zero _ (hmapped.loads _ hload)
  | switched k' entryPoint =>
    rw [hkey] at hinterrupt
    cases hinterrupt

end System

theorem Booted.entering {k : Kernel} (h : Booted k) : k.Entering := by
  obtain ⟨P, hpaging, hzero, -⟩ := h.paging
  refine ⟨h.unstarted, fun t => ?_, h.cr3, h.cr3Log, ?_, ?_⟩
  · obtain ⟨u, hu⟩ := h.terminals t
    rw [Kernel.front, hu]
  · rw [hpaging]
    exact ⟨P, rfl⟩
  · rw [hpaging]
    exact funext (hzero 0)

/-- From boot on, whatever the keyboard, the timer and the processes do, every directory
that is loaded has been set up and maps the kernel, exactly as long as no make code arrives
before the first shell runs. -/
theorem directory_loads (fs : Fs) (k : Kernel) (hboot : Booted k)
    (p : List (SystemEvent × System))
    (hp : Runs.Path (fun s e s' => System.step fs s e = some s') ⟨.welcome, k⟩ p) :
    System.Mapped fs ⟨.welcome, k⟩ ∧
      ((∀ x ∈ p, x.2.Mapped fs) ↔ Runs.Meets System.NoMakeCode ⟨.welcome, k⟩ p) := by
  have hsound : System.Sound ⟨.welcome, k⟩ :=
    System.sound_of_entering hboot.entering EntryPhase.noConfusion
  exact ⟨hsound.mapped, Runs.exact_guard (fun _ h => h.mapped) System.step_sound
    System.step_not_mapped hsound hp⟩

/-- The first shell starts and a tick comes. -/
theorem directory_loads_shell :
    (Runs.final ⟨.welcome, bootKernel⟩ (Runs.follow (System.step shellFs) ⟨.welcome, bootKernel⟩
      [.entry zeroResidue, .entry zeroResidue, .event .tick])).phase = .user ∧
    ∀ x ∈ Runs.follow (System.step shellFs) ⟨.welcome, bootKernel⟩
      [.entry zeroResidue, .entry zeroResidue, .event .tick], x.2.Mapped shellFs := by
  refine ⟨by decide +kernel, ?_⟩
  refine (directory_loads shellFs bootKernel bootKernel_booted _
    (Runs.follow_path _ _ _)).2.mpr (Runs.meets_of_forall fun x hx s => ?_)
  have hx := Runs.follow_mem _ _ _ x hx
  simp only [List.mem_cons, List.not_mem_nil, or_false] at hx
  rcases hx with heq | heq | heq
  all_goals
    rw [heq]
    trivial

/-- The key A is pressed after `sti`. -/
theorem key_before_shell : ∃ s', System.step shellFs ⟨.welcome, bootKernel⟩
    (.event (.key zeroResidue 0x1E)) = some s' ∧ ¬ s'.Mapped shellFs := by
  obtain ⟨s', hstep⟩ : ∃ s', System.step shellFs ⟨.welcome, bootKernel⟩
      (.event (.key zeroResidue 0x1E)) = some s' :=
    Option.isSome_iff_exists.mp (by decide +kernel)
  have hsound : System.Sound ⟨.welcome, bootKernel⟩ :=
    System.sound_of_entering bootKernel_booted.entering EntryPhase.noConfusion
  refine ⟨s', hstep, System.step_not_mapped _ _ s' hsound (fun hnomake => ?_) hstep⟩
  have hnomake : EntryPhase.welcome = .user ∨ (0x1E : UInt8) = DELETE_SCAN_CODE ∨
      ¬ (scancodeTable 0x1E).isMake := hnomake
  exact absurd hnomake (by decide)

end SnoopDos
