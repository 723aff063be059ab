import SnoopDos.Proofs.HaltExits
import SnoopDos.Proofs.Interrupts

/-! The slots that have held processes. In every run every process that anything leads
to, from a terminal or from the PCB of a child, is in such a slot, and its directory
has been set up. Nothing is asked of who calls `execute` and when. -/

namespace SnoopDos

open Kernel

/-- The entries of a directory that has been set up, at some moment. -/
def SetUp (d : DirectoryPtr) (entries : ℕ → Word) : Prop :=
  ∃ P : Paging, P.Initialised d ∧ P.directory d = entries

theorem Paging.Initialised.setUp {P : Paging} {d : DirectoryPtr} (h : P.Initialised d) :
    SetUp d (P.directory d) := ⟨P, h, rfl⟩

theorem SetUp.kernelMapped {d : DirectoryPtr} {entries : ℕ → Word} (h : SetUp d entries) :
    Paging.KernelMapped entries := by
  obtain ⟨P, hP, rfl⟩ := h
  exact hP.kernelMapped

theorem initialised_setupTaskPaging (P : Paging) {pid : ℕ} (hpid : pid < MAX_NUM_PROCS)
    (phys : Word) : (P.setupTaskPaging pid phys).Initialised (.user pid) :=
  ⟨pid, hpid, rfl, _, _, _, P.setupTaskPaging_taskPaging pid phys⟩

theorem Paging.Initialised.setupTaskPaging {P : Paging} {d : DirectoryPtr} (h : P.Initialised d)
    {pid : ℕ} (hpid : pid < MAX_NUM_PROCS) (phys : Word) :
    (P.setupTaskPaging pid phys).Initialised d := by
  cases d with
  | null => exact h
  | kernel => exact h
  | user z =>
    obtain ⟨p, hp, rfl, phys', screen, granted, htask⟩ := h
    rcases eq_or_ne p pid with rfl | hne
    · exact initialised_setupTaskPaging P hpid phys
    · exact ⟨p, hp, rfl, phys', screen, granted, htask.setupTaskPaging_of_ne hne phys⟩

/-- Whom a PCB leads to is the same, and no further call has been suspended. -/
structure Pcb.Linked (c c' : Pcb) : Prop where
  pid : c'.pid = c.pid
  parentPCB : c'.parentPCB = c.parentPCB
  esp0 : c'.esp0 = c.esp0
  frame : ∀ p b, c'.frame = .internalExecute p b → c.frame = .internalExecute p b

theorem Pcb.Linked.refl (c : Pcb) : c.Linked c := ⟨rfl, rfl, rfl, fun _ _ h => h⟩

theorem Pcb.Linked.trans {c c' c'' : Pcb} (h : c.Linked c') (h' : c'.Linked c'') : c.Linked c'' :=
  ⟨h'.pid.trans h.pid, h'.parentPCB.trans h.parentPCB, h'.esp0.trans h.esp0,
    fun p b hframe => h.frame p b (h'.frame p b hframe)⟩

theorem Pcb.linked_resumed (c : Pcb) : c.Linked c.resumed :=
  ⟨rfl, rfl, rfl, fun _ _ hframe => Frame.noConfusion hframe⟩

namespace Kernel

variable {k k' : Kernel} {C : Set ℕ} {fs : Fs}

theorem linked_update (pcbs : Addr → Pcb) (a : Addr) {c : Pcb} (h : (pcbs a).Linked c) (i : Addr) :
    (pcbs i).Linked (Function.update pcbs a c i) := by
  rcases eq_or_ne i a with rfl | hne
  · rw [Function.update_self]
    exact h
  · rw [Function.update_of_ne hne]
    exact Pcb.Linked.refl _

/-- The slots in `C` have held processes. Their directories have been set up, and the
parent of each is one of them. -/
structure Slots (k : Kernel) (C : Set ℕ) : Prop where
  slot : ∀ p ∈ C, p < MAX_NUM_PROCS ∧ k.paging.Initialised (.user p) ∧ (k.pcb p).pid = p ∧
    ∃ q ∈ C, (k.pcb p).parentPCB = pcbAddr q ∧ (k.pcb p).esp0 = kernelStackTop q ∧ (p = 0 → q = 0)
  frame : ∀ p < MAX_NUM_PROCS, ∀ c b, (k.pcb p).frame = .internalExecute c b → c ≠ 0
  kernel : k.paging.Initialised .kernel
  log : ∀ c ∈ k.cr3Log, SetUp c.1 c.2

theorem Slots.congr (h : k.Slots C) (hlinked : ∀ a, (k.pcbs a).Linked (k'.pcbs a))
    (hinit : ∀ d, k.paging.Initialised d → k'.paging.Initialised d)
    (hlog : ∀ c ∈ k'.cr3Log, SetUp c.1 c.2) : k'.Slots C where
  slot p hp := by
    obtain ⟨hlt, hdir, hpid, q, hq, hparent, hesp0, hzero⟩ := h.slot p hp
    have hkept := hlinked (pcbAddr p)
    exact ⟨hlt, hinit _ hdir, hkept.pid.trans hpid, q, hq, hkept.parentPCB.trans hparent,
      hkept.esp0.trans hesp0, hzero⟩
  frame p hp c b hframe := h.frame p hp c b ((hlinked (pcbAddr p)).frame c b hframe)
  kernel := hinit _ h.kernel
  log := hlog

/-- A child of `q` joins the slots. Pid 0 is only given out to the first shell of all,
which takes the slot it is started from. -/
theorem Slots.starts (h : k.Slots C) {q pid : ℕ} {flags : Word} (hq : q ∈ insert pid C)
    (hesp0 : k.esp0 = kernelStackTop q) (hstarts : k.Starts pid flags k')
    (hfirst : k.Used 0 ∨ pid = 0 ∧ q = 0 ∧ flags &&& 1#32 ≠ 0#32) : k'.Slots (insert pid C) := by
  have hqlt : q < MAX_NUM_PROCS := by
    rcases hq with rfl | hq
    · exact hstarts.pid_lt
    · exact (h.slot q hq).1
  have hcur : k.pcbCurr = pcbAddr q := pcbCurr_of_kernelStackTop hqlt hesp0
  have hchild := hstarts.child
  have hzero (h0 : pid = 0) : q = 0 ∧ flags &&& 1#32 ≠ 0#32 := by
    rcases hfirst with hused | hfirst
    · exact absurd (h0 ▸ hused) hstarts.fresh
    · exact hfirst.2
  have hother {p : ℕ} (hp : p < MAX_NUM_PROCS) (hne : p ≠ pid) :
      (k'.pcb p).pid = (k.pcb p).pid ∧ (k'.pcb p).parentPCB = (k.pcb p).parentPCB ∧
        (k'.pcb p).esp0 = (k.pcb p).esp0 := by
    have haddr : pcbAddr p ≠ pcbAddr pid := fun heq => hne (pcbAddr_inj hp hstarts.pid_lt heq)
    unfold pcb
    rcases hfirst with hused | ⟨rfl, rfl, hflags⟩
    · rw [hstarts.other hused haddr]
      split_ifs
      · exact ⟨rfl, rfl, rfl⟩
      · exact ⟨rfl, rfl, rfl⟩
    · rw [hstarts.other_of_slot hflags hcur haddr]
      exact ⟨rfl, rfl, rfl⟩
  obtain ⟨args, mem, hk⟩ := hstarts.eq
  have hpaging : k'.paging = k.paging.setupTaskPaging pid (blockAddressForProcess pid) := by
    rw [hk]
    rfl
  have hlog : k'.cr3Log = k.cr3Log ++ [(.user pid, k'.paging.directory (.user pid))] := by
    rw [hk]
    rfl
  have hinit (d : DirectoryPtr) (hd : k.paging.Initialised d) : k'.paging.Initialised d :=
    hpaging ▸ hd.setupTaskPaging hstarts.pid_lt _
  have hnew : k'.paging.Initialised (.user pid) :=
    hpaging ▸ initialised_setupTaskPaging _ hstarts.pid_lt _
  refine ⟨fun p hp => ?_, fun p hp c b hframe => ?_, hinit _ h.kernel, fun c hc => ?_⟩
  · rcases eq_or_ne p pid with rfl | hne
    · exact ⟨hstarts.pid_lt, hnew, hchild.pid, q, hq, hchild.parentPCB.trans hcur,
        hchild.esp0.trans hesp0, fun h0 => (hzero h0).1⟩
    · obtain ⟨hlt, hdir, hpid, r, hr, hparent, hesp0', hroot⟩ := h.slot p (hp.resolve_left hne)
      obtain ⟨hpid', hparent', hesp0''⟩ := hother hlt hne
      exact ⟨hlt, hinit _ hdir, hpid'.trans hpid, r, Set.mem_insert_of_mem pid hr,
        hparent'.trans hparent, hesp0''.trans hesp0', hroot⟩
  · rcases eq_or_ne (flags &&& 1#32) 0#32 with hcall | hcall
    · rcases hstarts.frame_cases (pcbAddr p) with hold | hnew
      · exact h.frame p hp c b (hold ▸ hframe)
      · obtain ⟨rfl, -⟩ := Frame.internalExecute.inj (hnew.symm.trans hframe)
        exact fun h0 => (hzero h0).2 hcall
    · exact h.frame p hp c b (hstarts.frame (Or.inl hcall) ▸ hframe)
  · rw [hlog] at hc
    rcases List.mem_append.mp hc with hold | hload
    · exact h.log c hold
    · obtain rfl := List.mem_singleton.mp hload
      exact hnew.setUp

section Halt

variable {q : ℕ} {parent : Addr}

/-- The state in which a jump to `JMP_POS_HALT` is made, on the frame of `q`. -/
theorem haltLeave_eq (hq : q < MAX_NUM_PROCS) (hpid : (k.pcbs parent).pid = q) (cur : Addr)
    (status : Word) : k.haltLeave cur parent status =
      { k with
        cr3 := .user q
        cr3Log := k.cr3Log ++ [k.loadOf (.user q)]
        pcbs := Function.update k.pcbs cur { k.pcbs cur with retVal := status }
        terminals := Function.update k.terminals (k.pcbs parent).ownedByTerminal
          { k.terminals (k.pcbs parent).ownedByTerminal with pid := q } } := by
  have hkernel : (q : ℤ) ≠ KERNEL_PID := by
    rw [KERNEL_PID]
    omega
  have hparent : (Function.update k.pcbs cur { k.pcbs cur with retVal := status } parent).pid = q ∧
      (Function.update k.pcbs cur { k.pcbs cur with retVal := status } parent).ownedByTerminal =
        (k.pcbs parent).ownedByTerminal := by
    rcases eq_or_ne parent cur with rfl | hne
    · rw [Function.update_self]
      exact ⟨hpid, rfl⟩
    · rw [Function.update_of_ne hne]
      exact ⟨hpid, rfl⟩
  simp only [haltLeave, hpid, if_neg hkernel, getPageDirectoryForPid_of_lt hq,
    setNewPageDirectory, setPcb, setTerminal, hparent, toUint8_of_pid hq]
  rfl

/-- A jump to `JMP_POS_HALT` on the frame of `q` comes back and has given back `c`. -/
structure ReturnsTo (k : Kernel) (parent : Addr) (q c : ℕ) (k' : Kernel) : Prop where
  pidAvail : k'.pidAvail = (k.markPidFree c).pidAvail
  serving : k'.terminalState = k.terminalState ∧
    k'.terminalBeingServiced = k.terminalBeingServiced ∧ k'.terminalsLaunched = k.terminalsLaunched
  esp0 : k'.esp0 = k.esp0
  linked : ∀ a, (k.pcbs a).Linked (k'.pcbs a)
  frame : (k'.pcbs parent).frame = .gone
  front : ∀ t, k'.front t = k.front t ∨ k'.front t = q
  paging : k'.paging = k.paging
  cr3 : k'.cr3 = .user q
  cr3Log : k'.cr3Log = k.cr3Log ++ [k.loadOf (.user q)]

theorem haltReturn_returns (hq : q < MAX_NUM_PROCS) (hpid : (k.pcbs parent).pid = q) (cur : Addr)
    (status : Word) {c : ℕ} {b : Bool} (hframe : (k.pcbs parent).frame = .internalExecute c b) :
    ∃ k' haltStatus, k.haltReturn cur parent status = .resumed k' haltStatus ∧
      k.ReturnsTo parent q c k' := by
  have hjump : k.haltReturn cur parent status =
      (k.haltLeave cur parent status).jmpPosHalt parent := rfl
  rw [hjump, haltLeave_eq hq hpid]
  set pcbs := Function.update k.pcbs cur { k.pcbs cur with retVal := status } with hpcbs
  have hkept (a : Addr) : (k.pcbs a).Linked (pcbs a) :=
    linked_update k.pcbs cur (c := { k.pcbs cur with retVal := status })
      ⟨rfl, rfl, rfl, fun _ _ h => h⟩ a
  have hframe' : (pcbs parent).frame = .internalExecute c b := by
    rw [hpcbs, ← hframe]
    rcases eq_or_ne parent cur with rfl | hne
    · rw [Function.update_self]
    · rw [Function.update_of_ne hne]
  simp only [jmpPosHalt, hframe']
  generalize hk₁ : setPcb { k with
    cr3 := .user q
    cr3Log := k.cr3Log ++ [k.loadOf (.user q)]
    pcbs := pcbs
    terminals := Function.update k.terminals (k.pcbs parent).ownedByTerminal
      { k.terminals (k.pcbs parent).ownedByTerminal with pid := q } } parent _ = k₁
  have hfreed : (k₁.markPidFree c).pidAvail = (k.markPidFree c).pidAvail := by
    rw [← hk₁]
    simp only [markPidFree]
    split_ifs
    · rfl
    · rfl
  obtain ⟨w, hw⟩ := k₁.markPidFree_frame c
  refine ⟨_, _, rfl, ?_⟩
  rw [hw] at hfreed ⊢
  have hlinked (a : Addr) : (k.pcbs a).Linked (k₁.pcbs a) := by
    rw [← hk₁]
    exact (hkept a).trans (linked_update pcbs parent (c := { pcbs parent with frame := .gone })
      ⟨rfl, rfl, rfl, fun _ _ h => Frame.noConfusion h⟩ a)
  have hself : (k₁.pcbs parent).frame = .gone := by
    rw [← hk₁, setPcb]
    simp only [Function.update_self]
  have hfront (t : ℕ) : k₁.front t = k.front t ∨ k₁.front t = q := by
    rw [← hk₁]
    simp only [front, setPcb]
    rcases eq_or_ne t (k.pcbs parent).ownedByTerminal with rfl | hne
    · rw [Function.update_self]
      exact Or.inr rfl
    · rw [Function.update_of_ne hne]
      exact Or.inl rfl
  refine ⟨hfreed, ?_, ?_, hlinked, hself, hfront, ?_, ?_, ?_⟩
  all_goals
    rw [← hk₁]
    first | exact ⟨rfl, rfl, rfl⟩ | rfl

/-- Any other frame lets the processor run into code that nobody has called. -/
theorem haltReturn_wild (cur : Addr) (status : Word)
    (hframe : ∀ c b, (k.pcbs parent).frame ≠ .internalExecute c b) :
    k.haltReturn cur parent status = .wild := by
  have hjump : k.haltReturn cur parent status =
      (k.haltLeave cur parent status).jmpPosHalt parent := rfl
  have hframe' : ((k.haltLeave cur parent status).pcbs parent).frame = (k.pcbs parent).frame := by
    simp only [haltLeave, setTerminal, setPcb, setNewPageDirectory]
    rcases eq_or_ne parent cur with rfl | hne
    · rw [Function.update_self]
    · rw [Function.update_of_ne hne]
  rw [hjump, jmpPosHalt, hframe']
  cases hcall : (k.pcbs parent).frame with
  | internalExecute c b => exact absurd hcall (hframe c b)
  | _ => rfl

end Halt

/-- Every terminal runs one of the slots. -/
structure Serving (k : Kernel) (C : Set ℕ) : Prop where
  slots : k.Slots C
  front : ∀ t < NUM_TERMINALS, k.front t ∈ C
  visible : k.terminalState < NUM_TERMINALS
  serviced : k.terminalBeingServiced < NUM_TERMINALS ∧ k.Launched k.terminalBeingServiced

/-- The slot `p` runs. The first shell is never a child, so pid 0 stays in use. -/
structure Loaded (k : Kernel) (C : Set ℕ) (p : ℕ) : Prop where
  serving : k.Serving C
  running : p ∈ C
  esp0 : k.esp0 = kernelStackTop p
  root : p = 0 → ∀ c b, (k.pcb p).frame ≠ .internalExecute c b
  used : k.Used 0
  cr3 : k.paging.Initialised k.cr3

theorem Serving.initialised (h : k.Serving C) {t : ℕ} (ht : t < NUM_TERMINALS) :
    k.paging.Initialised (getPageDirectoryForPid (k.front t)) := by
  obtain ⟨hlt, hdir, -⟩ := h.slots.slot _ (h.front t ht)
  rw [getPageDirectoryForPid_of_lt hlt]
  exact hdir

theorem Serving.reloads (h : k.Serving C) (hlinked : ∀ a, (k.pcbs a).Linked (k'.pcbs a))
    (hreloads : k.Reloads k') (hvisible : k'.terminalState < NUM_TERMINALS)
    (hserviced : k'.terminalBeingServiced < NUM_TERMINALS ∧ k'.Launched k'.terminalBeingServiced) :
    k'.Serving C where
  slots := by
    refine h.slots.congr hlinked hreloads.initialised fun c hc => ?_
    rcases hreloads.log c hc with hold | ⟨t, ht, P, hP, rfl⟩
    · exact h.slots.log c hold
    · exact (hP _ (h.initialised ht)).setUp
  front t ht := hreloads.front t ▸ h.front t ht
  visible := hvisible
  serviced := hserviced

theorem Loaded.reloads {p : ℕ} (h : k.Loaded C p) (hlinked : ∀ a, (k.pcbs a).Linked (k'.pcbs a))
    (hreloads : k.Reloads k') (hvisible : k'.terminalState < NUM_TERMINALS)
    (hserviced : k'.terminalBeingServiced < NUM_TERMINALS ∧ k'.Launched k'.terminalBeingServiced)
    (hesp0 : k'.esp0 = k.esp0) (hpidAvail : k'.pidAvail = k.pidAvail) : k'.Loaded C p where
  serving := h.serving.reloads hlinked hreloads hvisible hserviced
  running := h.running
  esp0 := hesp0.trans h.esp0
  root h0 c b hframe := h.root h0 c b ((hlinked (pcbAddr p)).frame c b hframe)
  used := (used_congr hpidAvail).mpr h.used
  cr3 := by
    rcases hreloads.cr3 with heq | ⟨t, ht, heq⟩
    · rw [heq]
      exact hreloads.initialised _ h.cr3
    · rw [heq]
      exact hreloads.initialised _ (h.serving.initialised ht)

theorem Slots.started (h : k.Slots C) {q pid : ℕ} {flags : Word} (hq : q ∈ insert pid C)
    (hesp0 : k.esp0 = kernelStackTop q) (hstarts : k.Starts pid flags k')
    (hfirst : k.Used 0 ∨ pid = 0 ∧ q = 0 ∧ flags &&& 1#32 ≠ 0#32)
    (hroot : pid = 0 → ∀ c b, (k.pcb pid).frame ≠ .internalExecute c b)
    (hfront : ∀ t < NUM_TERMINALS, k.front t ∈ insert pid C)
    (hvisible : k.terminalState < NUM_TERMINALS)
    (hserviced : k.terminalBeingServiced < NUM_TERMINALS ∧ k.Launched k.terminalBeingServiced) :
    k'.Loaded (insert pid C) pid := by
  have hslots := h.starts hq hesp0 hstarts hfirst
  obtain ⟨hterminals, hservice, hlaunched⟩ := hstarts.terminals
  refine ⟨⟨hslots, fun t ht => ?_, ?_, ?_⟩, Set.mem_insert pid C, hstarts.esp0,
    fun h0 c b hframe => ?_, ?_, ?_⟩
  · rw [Kernel.front, hterminals]
    rcases eq_or_ne t k.terminalState with rfl | hne
    · rw [Function.update_self]
      exact Set.mem_insert pid C
    · rw [Function.update_of_ne hne]
      exact hfront t ht
  · rw [hstarts.terminalState]
    exact hvisible
  · rw [hservice, launched_congr hlaunched]
    exact hserviced
  · rcases hfirst with hused | ⟨-, -, hflags⟩
    · exact hstarts.fresh (h0 ▸ hused)
    · exact hroot h0 c b ((hstarts.frame (Or.inl hflags)).symm.trans hframe)
  · rw [hstarts.used_iff]
    rcases hfirst with hused | ⟨rfl, -⟩
    · exact Or.inr hused
    · exact Or.inl rfl
  · have hcr3 : k'.cr3 = .user pid := by
      obtain ⟨args, mem, rfl⟩ := hstarts.eq
      rfl
    rw [hcr3]
    exact (hslots.slot pid (Set.mem_insert pid C)).2.1

theorem Loaded.starts {p pid : ℕ} {flags : Word} (h : k.Loaded C p)
    (hstarts : k.Starts pid flags k') : k'.Loaded (insert pid C) pid :=
  h.serving.slots.started (Set.mem_insert_of_mem pid h.running) h.esp0 hstarts (Or.inl h.used)
    (fun h0 => absurd (h0 ▸ h.used) hstarts.fresh)
    (fun t ht => Set.mem_insert_of_mem pid (h.serving.front t ht)) h.serving.visible
    h.serving.serviced

theorem Loaded.iret {p : ℕ} (h : k.Loaded C p) : k.iret.Loaded C p :=
  h.reloads (fun _ => Pcb.Linked.refl _) (.of_eq (fun _ => rfl) rfl rfl rfl) h.serving.visible
    h.serving.serviced rfl rfl

theorem Loaded.current {p : ℕ} (h : k.Loaded C p) :
    k.pcbCurr = pcbAddr p ∧ k.currentPcb = k.pcb p := by
  have hcur : k.pcbCurr = pcbAddr p :=
    pcbCurr_of_kernelStackTop (h.serving.slots.slot p h.running).1 h.esp0
  exact ⟨hcur, by rw [currentPcb, hcur, pcb]⟩

theorem ReturnsTo.loaded {q c : ℕ} (h : k.Serving C) (hq : q ∈ C) (hesp0 : k.esp0 = kernelStackTop q)
    (hused : k.Used 0) (hc : c ≠ 0) (hreturns : k.ReturnsTo (pcbAddr q) q c k') : k'.Loaded C q := by
  have hinit (d : DirectoryPtr) (hd : k.paging.Initialised d) : k'.paging.Initialised d :=
    hreturns.paging ▸ hd
  have hdir := (h.slots.slot q hq).2.1
  obtain ⟨hvisible, hserviced, hlaunched⟩ := hreturns.serving
  refine ⟨⟨h.slots.congr hreturns.linked hinit fun d hd => ?_, fun t ht => ?_, ?_, ?_⟩, hq,
    hreturns.esp0.trans hesp0, fun _ c b hframe => ?_, ?_, ?_⟩
  · rw [hreturns.cr3Log] at hd
    rcases List.mem_append.mp hd with hold | hload
    · exact h.slots.log d hold
    · obtain rfl := List.mem_singleton.mp hload
      exact hdir.setUp
  · rcases hreturns.front t with heq | heq
    · rw [heq]
      exact h.front t ht
    · rw [heq]
      exact hq
  · rw [hvisible]
    exact h.visible
  · rw [hserviced, launched_congr hlaunched]
    exact h.serviced
  · rw [pcb, hreturns.frame] at hframe
    cases hframe
  · have hfreed : k'.Used 0 ↔ (k.markPidFree c).Used 0 := used_congr hreturns.pidAvail
    rw [hfreed, used_markPidFree_of_ne k hc.symm]
    exact hused
  · rw [hreturns.cr3]
    exact hinit _ hdir

section Step

variable {p : ℕ}

theorem Loaded.step_execute (h : k.Loaded C p) {residue : Residue} {command : ℕ → UInt8}
    (hstep : k.step fs (.execute residue command) = some k') : ∃ C' p', k'.Loaded C' p' := by
  rcases step_execute_cases hstep with rfl | ⟨pid, -, hstarts, -⟩
  · rw [executePrologue_of_used k h.used]
    exact ⟨C, p, h.iret⟩
  · exact ⟨_, pid, h.starts hstarts⟩

theorem Loaded.switches (h : k.Loaded C p) {t : ℕ} (ht : t < NUM_TERMINALS) (hl : k.Launched t)
    (hswitch : k.Switches t (pcbAddr (k.front t)) k') : k'.Loaded C (k.front t) := by
  obtain ⟨cr3Log, hlog, hk⟩ := hswitch.eq
  have hfront := h.serving.front t ht
  have hlinked (a : Addr) : (k.pcbs a).Linked (k'.pcbs a) := by
    have hsaved (a : Addr) : (k.pcbs a).Linked (k.preempted a) :=
      linked_update k.pcbs k.pcbCurr (c := { k.currentPcb with
        eip := .switchContext, frame := .saveAndSwitch, eflags := k.interruptFlag })
        ⟨rfl, rfl, rfl, fun _ _ hframe => Frame.noConfusion hframe⟩ a
    rw [hk, scheduled]
    generalize pcbAddr (k.front t) = i
    exact (hsaved a).trans (linked_update k.preempted i (Pcb.linked_resumed _) a)
  have hgone : (k'.pcb (k.front t)).frame = .gone := by
    rw [hk, pcb, scheduled]
    simp only [Function.update_self]
    rfl
  rw [hk] at hlinked hgone ⊢
  refine ⟨⟨h.serving.slots.congr hlinked (fun _ hd => hd) fun c hc => ?_, h.serving.front,
    h.serving.visible, ht, hl⟩, hfront, rfl, fun _ c b hframe => ?_, h.used,
    h.serving.initialised ht⟩
  · rcases hlog c hc with hold | rfl
    · exact h.serving.slots.log c hold
    · exact (h.serving.initialised ht).setUp
  · rw [hgone] at hframe
    cases hframe

theorem Loaded.step_tick (h : k.Loaded C p) (hstep : k.step fs .tick = some k') :
    ∃ C' p', k'.Loaded C' p' := by
  obtain ⟨k₁, hirq, rfl⟩ := Option.map_eq_some_iff.mp hstep
  have hstack (t : ℕ) (ht : t < NUM_TERMINALS) (_ : k.Launched t) : k.front t < MAX_NUM_PROCS :=
    (h.serving.slots.slot _ (h.serving.front t ht)).1
  rcases k.irq0Handler_cases h.serving.serviced.1 h.serving.serviced.2 hstack hirq with
    rfl | ⟨t, ht, hl, -, hswitch⟩
  · exact ⟨C, p, h.iret⟩
  · exact ⟨C, _, (h.switches ht hl hswitch).iret⟩

theorem Loaded.launching (h : k.Loaded C p) {irqFlags : Word} {toT : ℕ} (hlaunch : k.Launches toT)
    (hbase : k.interrupted.Launching irqFlags toT k') : k'.Loaded C p := by
  obtain ⟨b, hpcbs⟩ := hbase.pcbs
  have hflagged (a : Addr) : (k.pcbs a).Linked (k.interrupted.pcbs a) :=
    linked_update k.pcbs k.pcbCurr
      (c := { k.currentPcb with flags := k.currentPcb.flags ||| IN_INTERRUPT_FLAG })
      ⟨rfl, rfl, rfl, fun _ _ hframe => hframe⟩ a
  have hlinked (a : Addr) : (k.pcbs a).Linked (k'.pcbs a) := by
    rw [hpcbs]
    refine (hflagged a).trans (linked_update k.interrupted.pcbs k.interrupted.pcbCurr ?_ a)
    exact ⟨rfl, rfl, rfl, fun _ _ hframe => Frame.noConfusion hframe⟩
  have hto := hlaunch.1
  have hlaunched : k'.Launched toT :=
    (launched_insert (k := k) (hto.trans (by decide)) (hto.trans (by decide))
      hbase.terminalsLaunched).mpr (Or.inl rfl)
  refine h.reloads hlinked (k.interrupted_reloads.trans hbase.reloads) ?_ ?_ hbase.esp0
    hbase.pidAvail
  · rw [hbase.terminalState]
    exact hto
  · rw [hbase.terminalBeingServiced]
    exact ⟨hto, hlaunched⟩

theorem Loaded.step_key (h : k.Loaded C p) {residue : Residue} {raw : UInt8}
    (hstep : k.step fs (.key residue raw) = some k') : ∃ C' p', k'.Loaded C' p' := by
  have houtcome := k.irq1Handler_outcome fs residue raw h.serving.visible h.serving.serviced.1
  have hstays {k₁ : Kernel} (htasks : k.SameTasks k₁) (hreloads : k.Reloads k₁)
      (hvisible : k₁.terminalState < NUM_TERMINALS) : k₁.iret.Loaded C p := by
    refine (h.reloads (fun a => ?_) hreloads hvisible ?_ htasks.esp0 htasks.pidAvail).iret
    · rw [htasks.pcbs]
      exact Pcb.Linked.refl _
    · rw [htasks.terminalBeingServiced, launched_congr htasks.terminalsLaunched]
      exact h.serving.serviced
  rw [Kernel.step] at hstep
  generalize k.irq1Handler fs residue raw = r at houtcome hstep
  cases houtcome with
  | stays htasks hvisible hreloads _ =>
    obtain rfl := Option.some.inj hstep
    exact ⟨C, p, hstays htasks hreloads (hvisible ▸ h.serving.visible)⟩
  | switches hto htasks hvisible hreloads _ =>
    obtain rfl := Option.some.inj hstep
    exact ⟨C, p, hstays htasks hreloads (hvisible ▸ hto.1)⟩
  | @launches toT pid k₁ k₂ entryPoint hlaunch hbase hstarts =>
    obtain rfl := Option.some.inj hstep
    exact ⟨_, pid, (h.launching hlaunch hbase).starts hstarts⟩
  | @fails toT k₁ hlaunch hbase hfailed =>
    obtain rfl := Option.some.inj hstep
    have hloaded := h.launching hlaunch hbase
    refine ⟨C, p, Loaded.iret ?_⟩
    rw [executePrologue_of_used k₁ hloaded.used]
    have hback : (k₁.setInterruptFlag false).Reloads
        (k₁.setInterruptFlag false).switchTerminalContext :=
      loadTerminalDirectory_reloads _ hloaded.serving.serviced.1
    refine hloaded.reloads (fun a => ?_) ?_ hloaded.serving.visible hloaded.serving.serviced rfl rfl
    · exact linked_update k₁.pcbs k.pcbCurr
        (c := { k₁.pcbs k.pcbCurr with flags := k.currentPcb.flags })
        ⟨rfl, rfl, rfl, fun _ _ hframe => hframe⟩ a
    · have hcli : k₁.Reloads (k₁.setInterruptFlag false) := .of_eq (fun _ => rfl) rfl rfl rfl
      exact (hcli.trans hback).trans (.of_eq (fun _ => rfl) rfl rfl rfl)

/-- The state in which a process that ends, a child of `q`, is about to leave. -/
structure IsLeaving (k : Kernel) (C : Set ℕ) (p q : ℕ) (k₂ : Kernel) : Prop where
  paging : k₂.paging = k.paging
  cr3Log : k₂.cr3Log = k.cr3Log
  pid : (k₂.pcb q).pid = q ∨ (k₂.pcb q).pid = KERNEL_PID
  frame : (k₂.pcb q).frame = (k.pcb q).frame
  serving : p ≠ 0 → (k₂.pcb q).pid = q ∧ k₂.Serving C ∧ k₂.Used 0
  esp0 : k₂.esp0 = kernelStackTop q

theorem Loaded.parent (h : k.Loaded C p) : k.currentPcb.pid = p ∧ ∃ q ∈ C, (k.pcb q).pid = q ∧
    k.currentPcb.parentPCB = pcbAddr q ∧ k.currentPcb.esp0 = kernelStackTop q ∧ (p = 0 → q = 0) := by
  obtain ⟨-, -, hpid, q, hq, hparent, hesp0, hroot⟩ := h.serving.slots.slot p h.running
  rw [h.current.2]
  exact ⟨hpid, q, hq, (h.serving.slots.slot q hq).2.2.1, hparent, hesp0, hroot⟩

theorem Loaded.dying_leaves (h : k.Loaded C p) {q : ℕ} (hpid : (k.pcb q).pid = q)
    (hesp0 : k.currentPcb.esp0 = kernelStackTop q) : k.IsLeaving C p q k.dying where
  paging := rfl
  cr3Log := rfl
  pid := Or.inl hpid
  frame := rfl
  serving _ := ⟨hpid, h.serving.reloads (fun _ => Pcb.Linked.refl _)
    (.of_eq (fun _ => rfl) rfl rfl rfl) h.serving.visible h.serving.serviced, h.used⟩
  esp0 := hesp0

theorem Loaded.failed_leaves (h : k.Loaded C p) {q : ℕ} (hpid : (k.pcb q).pid = q)
    (hesp0 : k.currentPcb.esp0 = kernelStackTop q) :
    k.IsLeaving C p q (k.dying.markPidFree p).executePrologue := by
  obtain ⟨w, hw⟩ := k.dying.markPidFree_frame p
  obtain ⟨pcbs, hpro⟩ := (k.dying.markPidFree p).executePrologue_frame
  have hpids := (k.dying.markPidFree p).executePrologue_pcb_pid (pcbAddr q)
  have hframe := (k.dying.markPidFree p).executePrologue_pcb_frame (pcbAddr q)
  have hold : (k.dying.markPidFree p).pcbs (pcbAddr q) = k.pcb q := by
    rw [hw, pcb]
    rfl
  rw [hold] at hpids hframe
  refine ⟨?_, ?_, hpids.imp_left fun heq => heq.trans hpid, hframe, fun hne => ?_, ?_⟩
  · rw [hpro, hw]
    rfl
  · rw [hpro, hw]
    rfl
  · have hused : (k.dying.markPidFree p).Used 0 := by
      rw [used_markPidFree_of_ne k.dying hne.symm]
      exact h.used
    rw [executePrologue_of_used _ hused]
    refine ⟨?_, ?_, hused⟩
    · rw [hw]
      exact hpid
    · rw [hw]
      exact h.serving.reloads (fun _ => Pcb.Linked.refl _) (.of_eq (fun _ => rfl) rfl rfl rfl)
        h.serving.visible h.serving.serviced
  · rw [hpro, hw]
    exact hesp0

theorem Loaded.leaves_log (h : k.Loaded C p) {q : ℕ} {k₂ : Kernel} (hq : q ∈ C)
    (hleaves : k.IsLeaving C p q k₂) (cur : Addr) (status : Word) :
    ∀ c ∈ (k₂.haltLeave cur (pcbAddr q) status).cr3Log, SetUp c.1 c.2 := by
  obtain ⟨hlt, hdir, -⟩ := h.serving.slots.slot q hq
  have hlog : ∃ d, k₂.paging.Initialised d ∧
      (k₂.haltLeave cur (pcbAddr q) status).cr3Log = k₂.cr3Log ++ [k₂.loadOf d] := by
    rw [hleaves.paging]
    rcases hleaves.pid with hpid | hpid
    · exact ⟨_, hdir, by rw [haltLeave_eq hlt hpid]⟩
    · refine ⟨_, h.serving.slots.kernel, ?_⟩
      have hpid' : (k₂.pcbs (pcbAddr q)).pid = KERNEL_PID := hpid
      simp only [haltLeave, hpid', if_true]
      rfl
  obtain ⟨d, hd, hlog⟩ := hlog
  rw [hlog, hleaves.cr3Log]
  intro c hc
  rcases List.mem_append.mp hc with hold | hload
  · exact h.serving.slots.log c hold
  · obtain rfl := List.mem_singleton.mp hload
    exact hd.setUp

theorem Loaded.leaves_resumed (h : k.Loaded C p) {q : ℕ} {k₂ : Kernel} (hq : q ∈ C)
    (hroot : p = 0 → q = 0) (hleaves : k.IsLeaving C p q k₂) {cur : Addr} {status haltStatus : Word}
    (hresumed : k₂.haltReturn cur (pcbAddr q) status = .resumed k' haltStatus) : k'.Loaded C q := by
  have hlt := (h.serving.slots.slot q hq).1
  by_cases hcall : ∃ c b, (k₂.pcb q).frame = .internalExecute c b
  · obtain ⟨c, b, hframe⟩ := hcall
    have hframe' := hleaves.frame.symm.trans hframe
    have hne : p ≠ 0 := fun h0 => h.root h0 c b (by rw [h0, ← hroot h0]; exact hframe')
    obtain ⟨hpid, hserving, hused⟩ := hleaves.serving hne
    obtain ⟨k₃, s, hreturn, hreturns⟩ := haltReturn_returns hlt hpid cur status hframe
    obtain ⟨rfl, -⟩ := HaltResult.resumed.inj (hreturn.symm.trans hresumed)
    exact hreturns.loaded hserving hq hleaves.esp0 hused (h.serving.slots.frame q hlt c b hframe')
  · have hwild := haltReturn_wild cur status fun c b hframe => hcall ⟨c, b, hframe⟩
    rw [hwild] at hresumed
    cases hresumed

theorem Loaded.restarts (h : k.Loaded C p) {q pid : ℕ} (hq : q ∈ C)
    (hroot : p = 0 → q = 0) (hesp0 : k.currentPcb.esp0 = kernelStackTop q)
    (hstarts : (k.dying.markPidFree p).Starts pid FIRST_TERM_SHELL k') :
    k'.Loaded (insert pid C) pid := by
  have hlt := (h.serving.slots.slot p h.running).1
  obtain ⟨w, hw⟩ := k.dying.markPidFree_frame p
  have hserving : (k.dying.markPidFree p).Serving C := by
    rw [hw]
    exact h.serving.reloads (fun _ => Pcb.Linked.refl _) (.of_eq (fun _ => rfl) rfl rfl rfl)
      h.serving.visible h.serving.serviced
  have hpcb (r : ℕ) : (k.dying.markPidFree p).pcb r = k.pcb r := by
    rw [hw]
    rfl
  refine hserving.slots.started (Set.mem_insert_of_mem pid hq) ?_ hstarts ?_ (fun h0 => ?_)
    (fun t ht => Set.mem_insert_of_mem pid (hserving.front t ht)) hserving.visible hserving.serviced
  · rw [hw]
    exact hesp0
  · rcases eq_or_ne p 0 with rfl | hne
    · refine Or.inr ⟨?_, hroot rfl, by decide⟩
      have hfree : ¬ (k.dying.markPidFree (0 : ℕ)).Used 0 := fun hused =>
        ((used_remove (k := k.dying) hlt (markPidFree_pidAvail hlt)).mp hused).1 rfl
      by_contra hpid
      exact hfree (hstarts.least 0 (Nat.pos_of_ne_zero hpid))
    · exact Or.inl ((used_markPidFree_of_ne k.dying hne.symm).mpr h.used)
  · intro c b hframe
    rw [hpcb] at hframe
    rcases eq_or_ne p 0 with rfl | hne
    · exact h.root rfl c b (h0 ▸ hframe)
    · have hused : (k.dying.markPidFree p).Used 0 :=
        (used_markPidFree_of_ne k.dying hne.symm).mpr h.used
      exact hstarts.fresh (h0 ▸ hused)

variable (fs) in
theorem Loaded.haltExit_cases (h : k.Loaded C p) (residue : Residue) (status : UInt8) :
    (∃ pid k' entryPoint, k.haltExit fs residue status = .restarted k' entryPoint ∧
      k'.Loaded (insert pid C) pid) ∨
    ∃ q ∈ C, ∃ k₂, (p = 0 → q = 0) ∧ k.IsLeaving C p q k₂ ∧ k.haltExit fs residue status =
      .jumps (k₂.haltLeave k.pcbCurr (pcbAddr q) (BitVec.ofNat 32 status.toNat)) (pcbAddr q) := by
  obtain ⟨hpid, q, hq, hqpid, hparent, hesp0, hroot⟩ := h.parent
  rw [haltExit, hpid, hparent]
  by_cases hfirst : k.currentPcb.flags = FIRST_TERM_SHELL
  · rw [if_pos hfirst]
    rcases (k.dying.markPidFree p).executeShell_cases fs residue with
      hexec | ⟨pid, k₁, entryPoint, hstarts, hexec⟩
    · rw [hexec]
      exact Or.inr ⟨q, hq, _, hroot, h.failed_leaves hqpid hesp0, rfl⟩
    · rw [hexec]
      exact Or.inl ⟨pid, k₁, entryPoint, rfl, h.restarts hq hroot hesp0 hstarts⟩
  · rw [if_neg hfirst]
    exact Or.inr ⟨q, hq, _, hroot, h.dying_leaves hqpid hesp0, rfl⟩

theorem Loaded.step_halt (h : k.Loaded C p) {residue : Residue} {status : UInt8}
    (hstep : k.step fs (.halt residue status) = some k') : ∃ C' p', k'.Loaded C' p' := by
  rw [Kernel.step, halt_eq_result] at hstep
  rcases h.haltExit_cases fs residue status with
    ⟨pid, k₁, entryPoint, hexit, hloaded⟩ | ⟨q, hq, k₂, hroot, hleaves, hexit⟩
  · rw [hexit] at hstep
    obtain rfl := Option.some.inj hstep
    exact ⟨_, pid, hloaded⟩
  · have hresult : (HaltExit.jumps (k₂.haltLeave k.pcbCurr (pcbAddr q)
        (BitVec.ofNat 32 status.toNat)) (pcbAddr q)).result =
        k₂.haltReturn k.pcbCurr (pcbAddr q) (BitVec.ofNat 32 status.toNat) := rfl
    rw [hexit, hresult] at hstep
    cases hreturn : k₂.haltReturn k.pcbCurr (pcbAddr q) (BitVec.ofNat 32 status.toNat) with
    | restarted k₃ entryPoint => exact absurd hreturn haltReturn_ne_restarted
    | resumed k₃ haltStatus =>
      rw [hreturn] at hstep
      obtain rfl := Option.some.inj hstep
      exact ⟨C, q, (h.leaves_resumed hq hroot hleaves hreturn).iret⟩
    | wild =>
      rw [hreturn] at hstep
      cases hstep

theorem Loaded.exits (h : k.Loaded C p) {residue : Residue} {status : UInt8} {parent : Addr}
    (hexit : k.haltExit fs residue status = .jumps k' parent) :
    ∀ c ∈ k'.cr3Log, SetUp c.1 c.2 := by
  rcases h.haltExit_cases fs residue status with
    ⟨pid, k₁, entryPoint, hrestarted, -⟩ | ⟨q, hq, k₂, -, hleaves, hjumps⟩
  · rw [hrestarted] at hexit
    cases hexit
  · obtain ⟨rfl, -⟩ := HaltExit.jumps.inj (hjumps.symm.trans hexit)
    exact h.leaves_log hq hleaves _ _

theorem step_loaded (h : k.Loaded C p) (e : Event) (hstep : k.step fs e = some k') :
    ∃ C' p', k'.Loaded C' p' := by
  cases e with
  | execute residue command => exact h.step_execute hstep
  | halt residue status => exact h.step_halt hstep
  | tick => exact h.step_tick hstep
  | key residue raw => exact h.step_key hstep

end Step

end Kernel

end SnoopDos
