import SnoopDos.Lib.Runs
import SnoopDos.Proofs.Execute
import SnoopDos.Proofs.Switching
import SnoopDos.Spec.Files

/-! Isolation of address spaces. Whatever mix of creations, exits, `vidmap` calls
and switches of terminals has led to a state, user code of a process reaches its
own block and, once it has called `vidmap`, the page its terminal is shown on. -/

namespace SnoopDos

open PageWalk Kernel

/-- The kernel, and for each pid whether its process has called `vidmap` since it
was created. -/
structure AddressSpaces where
  kernel : Kernel
  vidmapped : ℕ → Bool

/-- The operations that change page tables or reassign pids. -/
inductive PagingEvent
  | create (fs : Fs) (residue : Residue) (command : ℕ → UInt8) (flags : Word)
  | exit (pid : ℕ)
  | vidmap (pid : ℕ) (u : UserMem) (screenStart : Addr)
  | switch (toT : ℕ)

/-- One operation. A `vidmap` is made by process `pid` when it runs, that is when
`esp0` selects its PCB. -/
def pagingStep (s : AddressSpaces) : PagingEvent → AddressSpaces → Prop
  | .create fs residue command flags, s' => ∃ entryPoint pid,
    Id.run (s.kernel.internalExecute fs residue (fun i => (command i : Id UInt8)) flags) =
      some (.started s'.kernel entryPoint) ∧
    s.kernel.getAvailablePid = some pid ∧
    s'.vidmapped = Function.update s.vidmapped pid false
  | .exit pid, s' => s' = { s with kernel := s.kernel.markPidFree pid }
  | .vidmap pid u screenStart, s' =>
    let r := ({ s.kernel with esp0 := kernelStackTop pid } : Kernel).vidmap screenStart u
    s.kernel.Used pid ∧ s'.kernel = r.1.2 ∧
      s'.vidmapped = if r.1.1 = SUCCESS then Function.update s.vidmapped pid true else s.vidmapped
  | .switch toT, s' =>
    toT < NUM_TERMINALS ∧ toT ≠ s.kernel.terminalState ∧
      s' = { s with kernel := s.kernel.changeTerminalState s.kernel.terminalState toT }

/-- The tables of every process in use are as `setup_task_paging` made them, up to
the grant of `vidmap`, with the screen its terminal is shown on. -/
structure Isolated (s : AddressSpaces) : Prop where
  terminalState : s.kernel.terminalState < NUM_TERMINALS
  owner : ∀ p, s.kernel.Used p → (s.kernel.pcbs (pcbAddr p)).ownedByTerminal < NUM_TERMINALS
  pid : ∀ p, s.kernel.Used p → (s.kernel.pcbs (pcbAddr p)).pid = p
  tables : ∀ p, s.kernel.Used p → s.kernel.paging.TaskPaging p (blockAddressForProcess p)
    (screenPage s.kernel.terminalState (s.kernel.pcbs (pcbAddr p)).ownedByTerminal) (s.vidmapped p)

theorem isolated_create {s s' : AddressSpaces} {fs residue command flags} (h : Isolated s)
    (hstep : pagingStep s (.create fs residue command flags) s') : Isolated s' := by
  obtain ⟨entryPoint, pid, hexec, hpid, hvid⟩ := hstep
  obtain ⟨pid', hstarts⟩ := s.kernel.internalExecute_started flags fs residue hexec
  obtain rfl := hstarts.pid_eq hpid
  have hchild := hstarts.child
  have hused := hstarts.used_iff
  have hother : ∀ q, s.kernel.Used q → q ≠ pid' ∧ ∃ frame, s'.kernel.pcbs (pcbAddr q) =
      { s.kernel.pcbs (pcbAddr q) with frame := frame } := by
    intro q hq
    have hne : q ≠ pid' := fun heq => hstarts.fresh (heq ▸ hq)
    refine ⟨hne, ?_⟩
    rw [hstarts.other hq fun heq => hne (pcbAddr_inj hq.1 hstarts.pid_lt heq)]
    split_ifs
    · exact ⟨_, rfl⟩
    · exact ⟨_, rfl⟩
  obtain ⟨args, mem, hk⟩ := hstarts.eq
  have hterm : s'.kernel.terminalState = s.kernel.terminalState := by rw [hk]; rfl
  have hpaging : s'.kernel.paging = s.kernel.paging.setupTaskPaging pid'
      (blockAddressForProcess pid') := by rw [hk]; rfl
  refine ⟨hterm ▸ h.terminalState, fun q hq => ?_, fun q hq => ?_, fun q hq => ?_⟩
  · rcases (hused q).mp hq with rfl | hq
    · rw [hchild.ownedByTerminal]
      exact h.terminalState
    · obtain ⟨-, frame, hpcb⟩ := hother q hq
      rw [hpcb]
      exact h.owner q hq
  · rcases (hused q).mp hq with rfl | hq
    · exact hchild.pid
    · obtain ⟨-, frame, hpcb⟩ := hother q hq
      rw [hpcb]
      exact h.pid q hq
  · rw [hpaging, hterm, hvid]
    rcases (hused q).mp hq with rfl | hq
    · rw [hchild.ownedByTerminal, screenPage, if_pos rfl, Function.update_self]
      exact Paging.setupTaskPaging_taskPaging _ _ _
    · obtain ⟨hne, frame, hpcb⟩ := hother q hq
      rw [hpcb, Function.update_of_ne hne]
      exact (h.tables q hq).setupTaskPaging_of_ne hne _

theorem isolated_exit {s s' : AddressSpaces} {pid} (h : Isolated s)
    (hstep : pagingStep s (.exit pid) s') : Isolated s' := by
  obtain rfl : s' = _ := hstep
  have hused : ∀ q, (s.kernel.markPidFree pid).Used q → s.kernel.Used q := by
    intro q hq
    by_cases hpid : pid < MAX_NUM_PROCS
    · exact ((used_remove hpid (markPidFree_pidAvail hpid)).mp hq).2
    · rwa [markPidFree, if_neg (by omega)] at hq
  have hframe : ∃ w, s.kernel.markPidFree pid = { s.kernel with pidAvail := w } := by
    rw [markPidFree]
    split_ifs
    · exact ⟨_, rfl⟩
    · exact ⟨_, rfl⟩
  obtain ⟨w, hw⟩ := hframe
  refine ⟨?_, fun q hq => ?_, fun q hq => ?_, fun q hq => ?_⟩
  · simp only [hw]
    exact h.terminalState
  · have := h.owner q (hused q hq)
    simpa only [hw] using this
  · have := h.pid q (hused q hq)
    simpa only [hw] using this
  · have := h.tables q (hused q hq)
    simpa only [hw] using this

theorem isolated_vidmap {s s' : AddressSpaces} {pid u screenStart} (h : Isolated s)
    (hstep : pagingStep s (.vidmap pid u screenStart) s') : Isolated s' := by
  obtain ⟨hpid, hk, hvid⟩ := hstep
  have hcur : ({ s.kernel with esp0 := kernelStackTop pid } : Kernel).currentPcb.pid = pid := by
    rw [currentPcb, pcbCurr_of_kernelStackTop hpid.1 rfl]
    exact h.pid pid hpid
  by_cases hwin : inWindow screenStart
  · have hrun : ({ s.kernel with esp0 := kernelStackTop pid } : Kernel).vidmap screenStart u =
        ((SUCCESS, { s.kernel with
          esp0 := kernelStackTop pid
          paging := s.kernel.paging.grantUserAccess pid (BitVec.ofNat 32 VIDEO) }),
          (UserMem.storeBytes screenStart [0x00, 0x80, 0x0B, 0x00] u).2) := by
      rw [Kernel.vidmap, if_neg (not_not.mpr hwin), hcur]
      rfl
    rw [hrun] at hk hvid
    rw [if_pos rfl] at hvid
    refine ⟨by rw [hk]; exact h.terminalState, fun q hq => ?_, fun q hq => ?_, fun q hq => ?_⟩ <;>
      rw [hk] at hq ⊢
    · exact h.owner q hq
    · exact h.pid q hq
    · rw [hvid]
      rcases eq_or_ne q pid with rfl | hne
      · rw [Function.update_self]
        exact (h.tables q hq).grantUserAccess
      · rw [Function.update_of_ne hne]
        exact (h.tables q hq).grantUserAccess_of_ne (by exact_mod_cast hne) _
  · have hrun : ({ s.kernel with esp0 := kernelStackTop pid } : Kernel).vidmap screenStart u =
        ((FAILURE, { s.kernel with esp0 := kernelStackTop pid }), u) := by
      rw [Kernel.vidmap, if_pos hwin]
      rfl
    rw [hrun] at hk hvid
    rw [if_neg (show FAILURE ≠ SUCCESS by decide)] at hvid
    exact ⟨by rw [hk]; exact h.terminalState, by rw [hk]; exact h.owner, by rw [hk]; exact h.pid,
      by rw [hk, hvid]; exact h.tables⟩

theorem isolated_switch {s s' : AddressSpaces} {toT} (h : Isolated s)
    (hstep : pagingStep s (.switch toT) s') : Isolated s' := by
  obtain ⟨hlt, -, rfl⟩ := hstep
  obtain ⟨P, hk, -, hP⟩ := s.kernel.changeTerminalState_spec s.kernel.terminalState toT
  refine ⟨by rw [hk]; exact hlt, by rw [hk]; exact h.owner, by rw [hk]; exact h.pid, ?_⟩
  rw [hk]
  intro q hq
  have hq' : s.kernel.Used q := hq
  have htask := hP q hq'.1 _ _ _ (h.tables q hq')
  rwa [s.kernel.remappedScreen_screenPage _ _ ((isPidUsed_iff hq'.1).mpr hq')] at htask

theorem pagingStep_isolated (s : AddressSpaces) (e : PagingEvent) (s' : AddressSpaces)
    (h : Isolated s) (hstep : pagingStep s e s') : Isolated s' := by
  cases e with
  | create => exact isolated_create h hstep
  | exit => exact isolated_exit h hstep
  | vidmap => exact isolated_vidmap h hstep
  | switch => exact isolated_switch h hstep

/-- In every state that creations, exits, `vidmap` calls and switches of terminals
lead to, whatever user code of a process in use can reach lies in its own block,
or is the page that its terminal is shown on, after a `vidmap` of its own. -/
theorem address_space_isolation (k : Kernel) (hnone : ∀ p, ¬ k.Used p)
    (hvisible : k.terminalState < NUM_TERMINALS) (p : List (PagingEvent × AddressSpaces))
    (hp : Runs.Path pagingStep ⟨k, fun _ => false⟩ p) :
    let s := Runs.final ⟨k, fun _ => false⟩ p
    ∀ pid, s.kernel.Used pid → ∀ (v : Addr) (t : Translation),
      s.kernel.paging.translate (.user pid) v = some t → t.user = true →
      (0x800000 + 0x400000 * pid ≤ t.phys.toNat ∧ t.phys.toNat < 0x800000 + 0x400000 * (pid + 1)) ∨
        (s.vidmapped pid = true ∧ VIDEO ≤ v.toNat ∧ v.toNat < VIDEO + LITERAL_4KB ∧
          t.phys.toNat = screenAddress s.kernel.terminalState
            (s.kernel.pcbs (pcbAddr pid)).ownedByTerminal + v.toNat % LITERAL_4KB) := by
  intro s pid hpid v t ht hu
  have hinv : Isolated s := Runs.invariant_final (fun s e s' h _ => pagingStep_isolated s e s' h)
    ⟨hvisible, fun q hq => absurd hq (hnone q), fun q hq => absurd hq (hnone q),
      fun q hq => absurd hq (hnone q)⟩ hp (Runs.meets_true fun _ _ => trivial)
  have hblock := blockAddressForProcess_toNat hpid.1
  rcases (hinv.tables pid hpid).translate_user hpid.1 (by rw [hblock]; omega) ht hu with
    ⟨-, hphys⟩ | ⟨hgranted, hlo, hhi, hphys⟩
  · left
    rw [hblock] at hphys
    omega
  · right
    refine ⟨hgranted, hlo, hhi, ?_⟩
    rw [hphys, frame_screenPage _ (hinv.owner pid hpid)]
    rfl

def createdSpaces : AddressSpaces := ⟨shellKernel, Function.update (fun _ => false) 0 false⟩

@[irreducible] def vidmapSpaces : AddressSpaces :=
  let r := ({ shellKernel with esp0 := kernelStackTop 0 } : Kernel).vidmap 0x8048000#32 ⟨fun _ => 0, []⟩
  ⟨r.1.2, if r.1.1 = SUCCESS then Function.update createdSpaces.vidmapped 0 true
    else createdSpaces.vidmapped⟩

@[irreducible] def hiddenSpaces : AddressSpaces :=
  { vidmapSpaces with
    kernel := vidmapSpaces.kernel.changeTerminalState vidmapSpaces.kernel.terminalState 1 }

theorem hiddenSpaces_path : Runs.Path pagingStep ⟨bootKernel, fun _ => false⟩
    [(.create shellFs zeroResidue (fun i => Id.run (ofList SHELL i)) FIRST_TERM_SHELL, createdSpaces),
      (.vidmap 0 ⟨fun _ => 0, []⟩ 0x8048000#32, vidmapSpaces), (.switch 1, hiddenSpaces)] := by
  obtain ⟨entryPoint, hexec⟩ := shellKernel_exec
  have hvisible : 1 ≠ vidmapSpaces.kernel.terminalState := by decide +kernel
  have hvidmap : pagingStep createdSpaces (.vidmap 0 ⟨fun _ => 0, []⟩ 0x8048000#32) vidmapSpaces := by
    rw [vidmapSpaces]
    exact ⟨(shellKernel_starts.used_iff 0).mpr (Or.inl rfl), rfl, rfl⟩
  have hswitch : pagingStep vidmapSpaces (.switch 1) hiddenSpaces := by
    rw [hiddenSpaces]
    exact ⟨by decide, hvisible, rfl⟩
  exact ⟨⟨entryPoint, 0, hexec, by decide, rfl⟩, hvidmap, hswitch, trivial⟩

/-- The shell reaches its own block then, and the backing store of its terminal. -/
theorem address_space_isolation_hidden :
    (∃ t, hiddenSpaces.kernel.paging.translate (.user 0) 0x8048000#32 = some t ∧
      0x800000 ≤ t.phys.toNat ∧ t.phys.toNat < 0xC00000) ∧
    ∃ t, hiddenSpaces.kernel.paging.translate (.user 0) 0xB8123#32 = some t ∧
      t.phys.toNat = screenAddress 1 0 + 0x123 := by
  have hisolated := address_space_isolation bootKernel bootKernel_not_used (by decide) _
    hiddenSpaces_path 0 (by decide +kernel)
  constructor
  · obtain ⟨t, ht, hu⟩ : ∃ t, hiddenSpaces.kernel.paging.translate (.user 0) 0x8048000#32 = some t ∧
        t.user = true := Option.map_eq_some_iff.mp (by decide +kernel)
    rcases hisolated _ t ht hu with h | ⟨-, -, hhi, -⟩
    · exact ⟨t, ht, h⟩
    · exact absurd hhi (by decide)
  · obtain ⟨t, ht, hlow⟩ : ∃ t,
        hiddenSpaces.kernel.paging.translate (.user 0) 0xB8123#32 = some t ∧
          (t.user, t.phys.toNat.blt 0x800000) = (true, true) :=
      Option.map_eq_some_iff.mp (by decide +kernel)
    obtain ⟨hu, hlt⟩ := Prod.mk.inj hlow
    rcases hisolated _ t ht hu with ⟨hlo, -⟩ | ⟨-, -, -, hphys⟩
    · exact absurd hlo (not_le.mpr (Nat.blt_eq.mp hlt))
    · have hplace : hiddenSpaces.kernel.terminalState = 1 ∧
          (hiddenSpaces.kernel.pcbs (pcbAddr (0 : ℕ))).ownedByTerminal = 0 := by decide +kernel
      simp only [Runs.final, hplace.1, hplace.2] at hphys
      exact ⟨t, ht, hphys⟩

end SnoopDos
