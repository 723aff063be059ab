import SnoopDos.Proofs.ExecuteChecks
import SnoopDos.Proofs.HaltExits
import SnoopDos.Proofs.Interrupts

/-! Processes and terminals over whole runs. While `execute` is only called by the
process of the visible terminal, the serviced terminal runs the process that the
processor runs, the other terminals run processes that the scheduler can resume, and
whoever waits in `internal_execute` is run by no terminal. -/

namespace SnoopDos

open Kernel

namespace Pcb

variable (c : Pcb)

/-- The process was started by `execute` from user code. -/
def Called : Prop := c.flags &&& 1#32 = 0#32

def Settled : Prop := c.flags = USER_EXECUTE ∨ c.flags = FIRST_TERM_SHELL

/-- A context that the scheduler or the key handler has saved. -/
inductive Suspended : Prop
  | scheduler (eip : c.eip = .switchContext) (frame : c.frame = .saveAndSwitch)
      (settled : c.Settled)
  | key (irqFlags : Word) (eip : c.eip = .switchTerminalContext)
      (frame : c.frame = .processSentScancode irqFlags)
      (settled : irqFlags = USER_EXECUTE ∨ irqFlags = FIRST_TERM_SHELL)
      (flags : c.flags = irqFlags ||| IN_INTERRUPT_FLAG)

/-- What tells a process from others is the same. -/
structure Same (c c' : Pcb) : Prop where
  pid : c'.pid = c.pid
  parentPCB : c'.parentPCB = c.parentPCB
  esp0 : c'.esp0 = c.esp0
  ownedByTerminal : c'.ownedByTerminal = c.ownedByTerminal
  called : c'.Called ↔ c.Called

variable {c} {c' c'' : Pcb}

theorem Same.refl (c : Pcb) : c.Same c := ⟨rfl, rfl, rfl, rfl, Iff.rfl⟩

theorem Same.trans (h : c.Same c') (h' : c'.Same c'') : c.Same c'' :=
  ⟨h'.pid.trans h.pid, h'.parentPCB.trans h.parentPCB, h'.esp0.trans h.esp0,
    h'.ownedByTerminal.trans h.ownedByTerminal, h'.called.trans h.called⟩

theorem Suspended.frame_ne (h : c.Suspended) :
    c.frame ≠ .gone ∧ ∀ p b, c.frame ≠ .internalExecute p b := by
  cases h with
  | scheduler _ hframe _ =>
    rw [hframe]
    exact ⟨Frame.noConfusion, fun _ _ => Frame.noConfusion⟩
  | key irqFlags _ hframe _ _ =>
    rw [hframe]
    exact ⟨Frame.noConfusion, fun _ _ => Frame.noConfusion⟩

theorem Suspended.resumed (h : c.Suspended) :
    c.Same c.resumed ∧ c.resumed.frame = .gone ∧ c.resumed.Settled := by
  cases h with
  | scheduler heip hframe hsettled =>
    have hresumed : c.resumed = { c with frame := .gone } := by simp [Pcb.resumed, heip]
    rw [hresumed]
    exact ⟨⟨rfl, rfl, rfl, rfl, Iff.rfl⟩, rfl, hsettled⟩
  | key irqFlags heip hframe hsettled hflags =>
    have hresumed : c.resumed = { c with frame := .gone, flags := irqFlags } := by
      simp [Pcb.resumed, heip, hframe]
    rw [hresumed]
    refine ⟨⟨rfl, rfl, rfl, rfl, ?_⟩, rfl, hsettled⟩
    unfold Called
    rw [hflags]
    change irqFlags &&& 1#32 = 0#32 ↔ (irqFlags ||| IN_INTERRUPT_FLAG) &&& 1#32 = 0#32
    rcases hsettled with rfl | rfl
    · decide
    · decide

end Pcb

namespace Kernel

variable (k : Kernel)

/-- Process `q` waits in `internal_execute` for process `p`. -/
structure Awaits (q p : ℕ) : Prop where
  used : k.Used q
  parentPCB : (k.pcb p).parentPCB = pcbAddr q
  esp0 : (k.pcb p).esp0 = kernelStackTop q
  frame : ∃ b, (k.pcb q).frame = .internalExecute p b
  settled : (k.pcb q).Settled
  owner : (k.pcb q).ownedByTerminal = (k.pcb p).ownedByTerminal

/-- The process table: who has started whom. -/
structure Processes : Prop where
  pid : ∀ p, k.Used p → (k.pcb p).pid = p
  called : ∀ p, k.Used p → (k.pcb p).Called → ∃ q, k.Awaits q p
  shell : ∀ p, k.Used p → ¬ (k.pcb p).Called → ∃ q < MAX_NUM_PROCS,
    (k.pcb p).parentPCB = pcbAddr q ∧ (k.pcb p).esp0 = kernelStackTop q
  free : ∀ p < MAX_NUM_PROCS, ¬ k.Used p → (k.pcb p).frame = .gone

/-- The terminals: which process each of them runs. -/
structure Consistent : Prop where
  processes : k.Processes
  visible : k.terminalState < NUM_TERMINALS ∧ k.Launched k.terminalState
  serviced : k.terminalBeingServiced < NUM_TERMINALS ∧ k.Launched k.terminalBeingServiced
  first : k.Launched STATE_ONE
  esp0 : k.esp0 = kernelStackTop (k.front k.terminalBeingServiced)
  front : ∀ t < NUM_TERMINALS, k.Launched t →
    k.Used (k.front t) ∧ (k.pcb (k.front t)).ownedByTerminal = t
  current : (k.pcb (k.front k.terminalBeingServiced)).frame = .gone ∧
    (k.pcb (k.front k.terminalBeingServiced)).Settled
  suspended : ∀ t < NUM_TERMINALS, k.Launched t → t ≠ k.terminalBeingServiced →
    (k.pcb (k.front t)).Suspended

section Invariant

variable {k} {k' : Kernel}

theorem pcb_ne {p q : ℕ} (hp : p < MAX_NUM_PROCS) (hq : q < MAX_NUM_PROCS) (h : p ≠ q) :
    pcbAddr p ≠ pcbAddr q := fun heq => h (pcbAddr_inj hp hq heq)

theorem Consistent.used (h : k.Consistent) : k.Used (k.front k.terminalBeingServiced) :=
  (h.front _ h.serviced.1 h.serviced.2).1

theorem Consistent.pcbCurr (h : k.Consistent) :
    k.pcbCurr = pcbAddr (k.front k.terminalBeingServiced) :=
  pcbCurr_of_kernelStackTop h.used.1 h.esp0

theorem Consistent.currentPcb (h : k.Consistent) :
    k.currentPcb = k.pcb (k.front k.terminalBeingServiced) := by
  rw [Kernel.currentPcb, h.pcbCurr, pcb]

theorem Consistent.front_inj (h : k.Consistent) {t t' : ℕ} (ht : t < NUM_TERMINALS)
    (ht' : t' < NUM_TERMINALS) (hl : k.Launched t) (hl' : k.Launched t')
    (heq : k.front t = k.front t') : t = t' := by
  rw [← (h.front t ht hl).2, heq, (h.front t' ht' hl').2]

theorem Consistent.not_awaits (h : k.Consistent) {t : ℕ} (ht : t < NUM_TERMINALS)
    (hl : k.Launched t) (p : ℕ) : ¬ k.Awaits (k.front t) p := by
  rintro ⟨-, -, -, ⟨b, hframe⟩, -, -⟩
  rcases eq_or_ne t k.terminalBeingServiced with rfl | hne
  · rw [h.current.1] at hframe
    cases hframe
  · exact (h.suspended t ht hl hne).frame_ne.2 p b hframe

theorem Awaits.congr {q p : ℕ} (h : k.Awaits q p) (hused : k'.Used q) (hq : k'.pcb q = k.pcb q)
    (hp : (k.pcb p).Same (k'.pcb p)) : k'.Awaits q p where
  used := hused
  parentPCB := by rw [hp.parentPCB, h.parentPCB]
  esp0 := by rw [hp.esp0, h.esp0]
  frame := by
    rw [hq]
    exact h.frame
  settled := by
    rw [hq]
    exact h.settled
  owner := by rw [hq, hp.ownedByTerminal, h.owner]

/-- The process table survives whatever keeps its processes and those that wait. -/
theorem Processes.congr (h : k.Processes) (hused : ∀ p, k'.Used p ↔ k.Used p)
    (hsame : ∀ p < MAX_NUM_PROCS, (k.pcb p).Same (k'.pcb p))
    (hawaits : ∀ q p, k.Awaits q p → k'.pcb q = k.pcb q)
    (hfree : ∀ p < MAX_NUM_PROCS, ¬ k.Used p → (k'.pcb p).frame = .gone) : k'.Processes where
  pid p hp := by
    have hp := (hused p).mp hp
    rw [(hsame p hp.1).pid]
    exact h.pid p hp
  called p hp hcalled := by
    have hp := (hused p).mp hp
    obtain ⟨q, hq⟩ := h.called p hp ((hsame p hp.1).called.mp hcalled)
    exact ⟨q, hq.congr ((hused q).mpr hq.used) (hawaits q p hq) (hsame p hp.1)⟩
  shell p hp hshell := by
    have hp := (hused p).mp hp
    rw [(hsame p hp.1).parentPCB, (hsame p hp.1).esp0]
    exact h.shell p hp fun hcalled => hshell ((hsame p hp.1).called.mpr hcalled)
  free p hp hfree' := hfree p hp fun hused' => hfree' ((hused p).mpr hused')

theorem Consistent.sameTasks (h : k.Consistent) (htasks : k.SameTasks k')
    (hfront : ∀ t, k'.front t = k.front t)
    (hvisible : k'.terminalState < NUM_TERMINALS ∧ k.Launched k'.terminalState) :
    k'.Consistent := by
  have hused (p : ℕ) : k'.Used p ↔ k.Used p := used_congr htasks.pidAvail
  have hpcb (p : ℕ) : k'.pcb p = k.pcb p := by
    unfold pcb
    rw [htasks.pcbs]
  have hlaunched (t : ℕ) : k'.Launched t ↔ k.Launched t :=
    launched_congr htasks.terminalsLaunched t
  refine ⟨?_, ⟨hvisible.1, (hlaunched _).mpr hvisible.2⟩, ?_, (hlaunched _).mpr h.first, ?_, ?_,
    ?_, ?_⟩
  · refine h.processes.congr hused (fun p _ => ?_) (fun q _ _ => hpcb q) fun p hp hfree => ?_
    · rw [hpcb]
      exact Pcb.Same.refl _
    · rw [hpcb]
      exact h.processes.free p hp hfree
  · rw [htasks.terminalBeingServiced, hlaunched]
    exact h.serviced
  · rw [htasks.terminalBeingServiced, htasks.esp0, hfront]
    exact h.esp0
  · intro t ht hl
    rw [hfront, hpcb, hused]
    exact h.front t ht ((hlaunched t).mp hl)
  · rw [htasks.terminalBeingServiced, hfront, hpcb]
    exact h.current
  · intro t ht hl hne
    rw [htasks.terminalBeingServiced] at hne
    rw [hfront, hpcb]
    exact h.suspended t ht ((hlaunched t).mp hl) hne

/-- Once the running process has been saved, every terminal can be resumed. -/
theorem Consistent.preempted (h : k.Consistent) {t : ℕ} (ht : t < NUM_TERMINALS)
    (hl : k.Launched t) : (k.preempted (pcbAddr (k.front t))).Suspended ∧
      (k.pcb (k.front t)).Same (k.preempted (pcbAddr (k.front t))) := by
  unfold Kernel.preempted
  rw [h.pcbCurr, h.currentPcb]
  rcases eq_or_ne t k.terminalBeingServiced with rfl | hne
  · rw [Function.update_self]
    exact ⟨.scheduler rfl rfl h.current.2, ⟨rfl, rfl, rfl, rfl, Iff.rfl⟩⟩
  · have hfront : k.front t ≠ k.front k.terminalBeingServiced := fun heq =>
      hne (h.front_inj ht h.serviced.1 hl h.serviced.2 heq)
    rw [Function.update_of_ne (pcb_ne (h.front t ht hl).1.1 h.used.1 hfront)]
    exact ⟨h.suspended t ht hl hne, Pcb.Same.refl _⟩

theorem Consistent.preempted_other (h : k.Consistent) {p : ℕ} (hp : p < MAX_NUM_PROCS)
    (hne : p ≠ k.front k.terminalBeingServiced) : k.preempted (pcbAddr p) = k.pcb p := by
  unfold Kernel.preempted
  rw [h.pcbCurr, Function.update_of_ne (pcb_ne hp h.used.1 hne), pcb]

/-- A switch of the scheduler to a terminal that has been launched. -/
theorem Consistent.switches (h : k.Consistent) {t : ℕ} (ht : t < NUM_TERMINALS)
    (hl : k.Launched t) (hswitch : k.Switches t (pcbAddr (k.front t)) k') : k'.Consistent := by
  obtain ⟨cr3Log, -, hk⟩ := hswitch.eq
  have hfrontlt := (h.front t ht hl).1.1
  have hresumed : k'.pcb (k.front t) = (k.preempted (pcbAddr (k.front t))).resumed := by
    rw [hk, pcb, scheduled]
    simp only [Function.update_self]
  have hother {p : ℕ} (hp : p < MAX_NUM_PROCS) (hne : p ≠ k.front t) :
      k'.pcb p = k.preempted (pcbAddr p) := by
    rw [hk, pcb, scheduled]
    simp only [Function.update_of_ne (pcb_ne hp hfrontlt hne)]
  have hrest {p : ℕ} (hp : p < MAX_NUM_PROCS)
      (hne : ∀ t < NUM_TERMINALS, k.Launched t → p ≠ k.front t) : k'.pcb p = k.pcb p := by
    rw [hother hp (hne t ht hl), h.preempted_other hp (hne _ h.serviced.1 h.serviced.2)]
  have hsame (p : ℕ) (hp : p < MAX_NUM_PROCS) : (k.pcb p).Same (k'.pcb p) := by
    rcases eq_or_ne p (k.front t) with rfl | hne
    · obtain ⟨hsuspended, hsame⟩ := h.preempted ht hl
      rw [hresumed]
      exact hsame.trans hsuspended.resumed.1
    · rw [hother hp hne]
      rcases eq_or_ne p (k.front k.terminalBeingServiced) with rfl | hne'
      · exact (h.preempted h.serviced.1 h.serviced.2).2
      · rw [h.preempted_other hp hne']
        exact Pcb.Same.refl _
  have hframe : k'.pidAvail = k.pidAvail ∧ k'.terminalState = k.terminalState ∧
      k'.terminalBeingServiced = t ∧ k'.terminalsLaunched = k.terminalsLaunched ∧
      k'.esp0 = kernelStackTop (k.front t) ∧ ∀ t', k'.front t' = k.front t' := by
    rw [hk]
    exact ⟨rfl, rfl, rfl, rfl, rfl, fun _ => rfl⟩
  obtain ⟨havail, hvisible, hserviced, hlaunched, hesp0, hfront⟩ := hframe
  have hlaunched (t' : ℕ) : k'.Launched t' ↔ k.Launched t' := launched_congr hlaunched t'
  have hused (p : ℕ) : k'.Used p ↔ k.Used p := used_congr havail
  refine ⟨?_, ?_, ?_, (hlaunched _).mpr h.first, ?_, ?_, ?_, ?_⟩
  · refine h.processes.congr hused hsame (fun q p hq => ?_) fun p hp hfree => ?_
    · exact hrest hq.used.1 fun t' ht' hl' heq => h.not_awaits ht' hl' p (heq ▸ hq)
    · rw [hrest hp fun t' ht' hl' heq => hfree (heq ▸ (h.front t' ht' hl').1)]
      exact h.processes.free p hp hfree
  · rw [hvisible, hlaunched]
    exact h.visible
  · rw [hserviced, hlaunched]
    exact ⟨ht, hl⟩
  · rw [hserviced, hesp0, hfront]
  · intro t' ht' hl'
    have hold := h.front t' ht' ((hlaunched t').mp hl')
    rw [hfront, hused, (hsame _ hold.1.1).ownedByTerminal]
    exact hold
  · rw [hserviced, hfront, hresumed]
    exact (h.preempted ht hl).1.resumed.2
  · intro t' ht' hl' hne
    have hl' := (hlaunched t').mp hl'
    rw [hserviced] at hne
    rw [hfront, hother (h.front t' ht' hl').1.1 fun heq => hne (h.front_inj ht' ht hl' hl heq)]
    exact (h.preempted ht' hl').1

/-- What a call from user code needs of the process that makes it. -/
structure Caller (k : Kernel) (q : ℕ) : Prop where
  used : k.Used q
  settled : (k.pcb q).Settled
  owner : (k.pcb q).ownedByTerminal = k.terminalState
  not_awaits : ∀ p, ¬ k.Awaits q p

theorem Processes.starts (h : k.Processes) {q pid : ℕ} {flags : Word} (hq : q < MAX_NUM_PROCS)
    (hesp0 : k.esp0 = kernelStackTop q) (hstarts : k.Starts pid flags k')
    (hcaller : flags &&& 1#32 = 0#32 → k.Caller q) : k'.Processes := by
  have hcur : k.pcbCurr = pcbAddr q := pcbCurr_of_kernelStackTop hq hesp0
  have hchild := hstarts.child
  have hne {p : ℕ} (hp : k.Used p) : p ≠ pid := fun heq => hstarts.fresh (heq ▸ hp)
  have hother {p : ℕ} (hp : k.Used p) (hwrite : flags &&& 1#32 = 0#32 → p ≠ q) :
      k'.pcb p = k.pcb p := by
    unfold pcb
    rw [hstarts.other hp (pcb_ne hp.1 hstarts.pid_lt (hne hp)), if_neg]
    rintro ⟨hflags, heq⟩
    exact hwrite hflags (pcbAddr_inj hp.1 hq (heq.trans hcur))
  have hsame {p : ℕ} (hp : k.Used p) : (k.pcb p).Same (k'.pcb p) := by
    unfold pcb
    rw [hstarts.other hp (pcb_ne hp.1 hstarts.pid_lt (hne hp))]
    split_ifs
    · exact ⟨rfl, rfl, rfl, rfl, Iff.rfl⟩
    · exact Pcb.Same.refl _
  have hcalled : (k'.pcb pid).Called ↔ flags &&& 1#32 = 0#32 := by
    unfold Pcb.Called pcb
    rw [hchild.flags]
  refine ⟨fun p hp => ?_, fun p hp hpcalled => ?_, fun p hp hpshell => ?_, fun p hp hfree => ?_⟩
  · rcases (hstarts.used_iff p).mp hp with rfl | hp
    · exact hchild.pid
    · rw [(hsame hp).pid]
      exact h.pid p hp
  · rcases (hstarts.used_iff p).mp hp with rfl | hp
    · have hflags := hcalled.mp hpcalled
      obtain ⟨hused, hsettled, howner, -⟩ := hcaller hflags
      have hframe : k'.pcb q = { k.pcb q with frame := .internalExecute p k.interruptFlag } := by
        unfold pcb
        rw [hstarts.other hused (pcb_ne hq hstarts.pid_lt (hne hused)), if_pos ⟨hflags, hcur.symm⟩]
      refine ⟨q, (hstarts.used_iff q).mpr (Or.inr hused), hchild.parentPCB.trans hcur,
        hchild.esp0.trans hesp0, ?_, ?_, ?_⟩
      · rw [hframe]
        exact ⟨_, rfl⟩
      · rw [hframe]
        exact hsettled
      · rw [hframe]
        exact howner.trans hchild.ownedByTerminal.symm
    · obtain ⟨r, hr⟩ := h.called p hp ((hsame hp).called.mp hpcalled)
      have hrq (hflags : flags &&& 1#32 = 0#32) : r ≠ q := fun heq =>
        (hcaller hflags).not_awaits p (heq ▸ hr)
      have hrused := (hstarts.used_iff r).mpr (Or.inr hr.used)
      exact ⟨r, hr.congr hrused (hother hr.used hrq) (hsame hp)⟩
  · rcases (hstarts.used_iff p).mp hp with rfl | hp
    · exact ⟨q, hq, hchild.parentPCB.trans hcur, hchild.esp0.trans hesp0⟩
    · rw [(hsame hp).parentPCB, (hsame hp).esp0]
      exact h.shell p hp fun hcalled => hpshell ((hsame hp).called.mpr hcalled)
  · have hfree' : ¬ k.Used p := fun hp => hfree ((hstarts.used_iff p).mpr (Or.inr hp))
    rw [← h.free p hp hfree']
    refine hstarts.frame ?_
    by_cases hflags : flags &&& 1#32 = 0#32
    · refine Or.inr fun heq => hfree' ?_
      rw [pcbAddr_inj hp hq (heq.trans hcur)]
      exact (hcaller hflags).used
    · exact Or.inl hflags

/-- A state in which `internal_execute` is about to start a child of `q` for the
visible terminal, which is the one being serviced. -/
structure AboutToStart (k : Kernel) (q : ℕ) : Prop where
  processes : k.Processes
  pid_lt : q < MAX_NUM_PROCS
  esp0 : k.esp0 = kernelStackTop q
  visible : k.terminalState < NUM_TERMINALS ∧ k.Launched k.terminalState
  serviced : k.terminalBeingServiced = k.terminalState
  first : k.Launched STATE_ONE
  others : ∀ t < NUM_TERMINALS, k.Launched t → t ≠ k.terminalState →
    k.Used (k.front t) ∧ (k.pcb (k.front t)).ownedByTerminal = t ∧ (k.pcb (k.front t)).Suspended

theorem AboutToStart.starts {q pid : ℕ} {flags : Word} (h : k.AboutToStart q)
    (hflags : flags = USER_EXECUTE ∨ flags = FIRST_TERM_SHELL)
    (hcaller : flags &&& 1#32 = 0#32 → k.Caller q ∧ (k.pcb q).frame = .gone)
    (hstarts : k.Starts pid flags k') : k'.Consistent := by
  have hcur : k.pcbCurr = pcbAddr q := pcbCurr_of_kernelStackTop h.pid_lt h.esp0
  have hchild := hstarts.child
  obtain ⟨hterminals, hserviced, hlaunched⟩ := hstarts.terminals
  have hvisible := hstarts.terminalState
  have hserviced : k'.terminalBeingServiced = k.terminalState := hserviced.trans h.serviced
  have hlaunched (t : ℕ) : k'.Launched t ↔ k.Launched t := launched_congr hlaunched t
  have hfront : k'.front k.terminalState = pid := by
    rw [front, hterminals, Function.update_self]
  have hothers {t : ℕ} (ht : t < NUM_TERMINALS) (hl : k.Launched t) (hne : t ≠ k.terminalState) :
      k'.front t = k.front t ∧ k'.pcb (k.front t) = k.pcb (k.front t) := by
    obtain ⟨hused, -, hsuspended⟩ := h.others t ht hl hne
    have hfresh : k.front t ≠ pid := fun heq => hstarts.fresh (heq ▸ hused)
    refine ⟨by rw [front, hterminals, Function.update_of_ne hne, front], ?_⟩
    unfold pcb
    rw [hstarts.other hused (pcb_ne hused.1 hstarts.pid_lt hfresh), if_neg]
    rintro ⟨hcall, heq⟩
    rw [pcbAddr_inj hused.1 h.pid_lt (heq.trans hcur)] at hsuspended
    exact hsuspended.frame_ne.1 (hcaller hcall).2
  refine ⟨h.processes.starts h.pid_lt h.esp0 hstarts fun hcall => (hcaller hcall).1, ?_, ?_,
    (hlaunched _).mpr h.first, ?_, ?_, ?_, ?_⟩
  · rw [hvisible, hlaunched]
    exact h.visible
  · rw [hserviced, hlaunched]
    exact h.visible
  · rw [hserviced, hfront]
    exact hstarts.esp0
  · intro t ht hl
    have hl := (hlaunched t).mp hl
    rcases eq_or_ne t k.terminalState with rfl | hne
    · rw [hfront]
      exact ⟨(hstarts.used_iff pid).mpr (Or.inl rfl), hchild.ownedByTerminal⟩
    · obtain ⟨hf, hp⟩ := hothers ht hl hne
      obtain ⟨hused, howner, -⟩ := h.others t ht hl hne
      rw [hf, hp]
      exact ⟨(hstarts.used_iff _).mpr (Or.inr hused), howner⟩
  · rw [hserviced, hfront]
    constructor
    · rw [← h.processes.free pid hstarts.pid_lt hstarts.fresh]
      refine hstarts.frame ?_
      by_cases hcall : flags &&& 1#32 = 0#32
      · refine Or.inr fun heq => hstarts.fresh ?_
        rw [pcbAddr_inj hstarts.pid_lt h.pid_lt (heq.trans hcur)]
        exact (hcaller hcall).1.used
      · exact Or.inl hcall
    · unfold Pcb.Settled pcb
      rw [hchild.flags]
      exact hflags
  · intro t ht hl hne
    rw [hserviced] at hne
    obtain ⟨hf, hp⟩ := hothers ht ((hlaunched t).mp hl) hne
    rw [hf, hp]
    exact (h.others t ht ((hlaunched t).mp hl) hne).2.2

/-- While the visible terminal is the one being serviced, the running process may
execute a child. -/
theorem Consistent.ready (h : k.Consistent) (hguard : k.terminalState = k.terminalBeingServiced) :
    k.AboutToStart (k.front k.terminalBeingServiced) ∧
      k.Caller (k.front k.terminalBeingServiced) := by
  refine ⟨⟨h.processes, h.used.1, h.esp0, h.visible, hguard.symm, h.first, ?_⟩, ?_⟩
  · intro t ht hl hne
    obtain ⟨hused, howner⟩ := h.front t ht hl
    exact ⟨hused, howner, h.suspended t ht hl (hguard ▸ hne)⟩
  · obtain ⟨hused, howner⟩ := h.front _ h.serviced.1 h.serviced.2
    exact ⟨hused, h.current.2, howner.trans hguard.symm, h.not_awaits h.serviced.1 h.serviced.2⟩

theorem Consistent.execute (h : k.Consistent)
    (hguard : k.terminalState = k.terminalBeingServiced) {pid : ℕ}
    (hstarts : k.Starts pid USER_EXECUTE k') : k'.Consistent := by
  obtain ⟨hready, hcaller⟩ := h.ready hguard
  exact hready.starts (Or.inl rfl) (fun _ => ⟨hcaller, h.current.1⟩) hstarts

/-- The state in which a key launches a terminal: what ran is suspended below the
key handler. -/
theorem Consistent.launching (h : k.Consistent) {toT : ℕ} (hlaunch : k.Launches toT)
    (hbase : k.interrupted.Launching k.currentPcb.flags toT k') :
    k'.AboutToStart (k.front k.terminalBeingServiced) := by
  have hto := hlaunch.1
  have hto32 : toT < 32 := hto.trans (by decide)
  obtain ⟨b, hpcbs⟩ := hbase.pcbs
  have hcur := h.currentPcb
  have hsaved : k'.pcb (k.front k.terminalBeingServiced) = { k.currentPcb with
      flags := k.currentPcb.flags ||| IN_INTERRUPT_FLAG
      eip := .switchTerminalContext
      frame := .processSentScancode k.currentPcb.flags
      eflags := b } := by
    have hcurrent : k.interrupted.currentPcb =
        { k.currentPcb with flags := k.currentPcb.flags ||| IN_INTERRUPT_FLAG } :=
      Function.update_self _ _ _
    have hself : k.interrupted.pcbCurr = pcbAddr (k.front k.terminalBeingServiced) := h.pcbCurr
    rw [pcb, hpcbs, hcurrent, hself, Function.update_self]
  have hother {p : ℕ} (hp : p < MAX_NUM_PROCS) (hne : p ≠ k.front k.terminalBeingServiced) :
      k'.pcb p = k.pcb p := by
    have haddr : pcbAddr p ≠ k.pcbCurr := by
      rw [h.pcbCurr]
      exact pcb_ne hp h.used.1 hne
    have hself : k.interrupted.pcbCurr = k.pcbCurr := rfl
    rw [pcb, hpcbs, hself, Function.update_of_ne haddr]
    simp only [interrupted, setInterruptFlag, setPcb, Function.update_of_ne haddr, pcb]
  have hsettled : k.currentPcb.Settled := by
    rw [hcur]
    exact h.current.2
  have hsuspended : (k'.pcb (k.front k.terminalBeingServiced)).Suspended := by
    rw [hsaved]
    exact .key k.currentPcb.flags rfl rfl hsettled rfl
  have hsame (p : ℕ) (hp : p < MAX_NUM_PROCS) : (k.pcb p).Same (k'.pcb p) := by
    rcases eq_or_ne p (k.front k.terminalBeingServiced) with rfl | hne
    · rw [hsaved, ← hcur]
      refine ⟨rfl, rfl, rfl, rfl, ?_⟩
      unfold Pcb.Called
      change (k.currentPcb.flags ||| IN_INTERRUPT_FLAG) &&& 1#32 = 0#32 ↔
        k.currentPcb.flags &&& 1#32 = 0#32
      rcases hsettled with hflags | hflags
      · rw [hflags]
        decide
      · rw [hflags]
        decide
    · rw [hother hp hne]
      exact Pcb.Same.refl _
  have hused (p : ℕ) : k'.Used p ↔ k.Used p := used_congr hbase.pidAvail
  have hfront (t : ℕ) : k'.front t = k.front t := hbase.reloads.front t
  have hlaunched {t : ℕ} (ht : t < NUM_TERMINALS) : k'.Launched t ↔ t = toT ∨ k.Launched t :=
    launched_insert hto32 (ht.trans (by decide)) hbase.terminalsLaunched
  refine ⟨?_, h.used.1, hbase.esp0.trans h.esp0, ?_, ?_, ?_, ?_⟩
  · refine h.processes.congr hused hsame (fun q p hq => ?_) fun p hp hfree => ?_
    · exact hother hq.used.1 fun heq => h.not_awaits h.serviced.1 h.serviced.2 p (heq ▸ hq)
    · rw [hother hp fun heq => hfree (heq ▸ h.used)]
      exact h.processes.free p hp hfree
  · rw [hbase.terminalState, hlaunched hto]
    exact ⟨hto, Or.inl rfl⟩
  · rw [hbase.terminalBeingServiced, hbase.terminalState]
  · have hone : STATE_ONE < NUM_TERMINALS := by decide
    exact (hlaunched hone).mpr (Or.inr h.first)
  · intro t ht hl hne
    rw [hbase.terminalState] at hne
    have hl := ((hlaunched ht).mp hl).resolve_left hne
    obtain ⟨hu, howner⟩ := h.front t ht hl
    rw [hfront, hused, (hsame _ hu.1).ownedByTerminal]
    refine ⟨hu, howner, ?_⟩
    rcases eq_or_ne t k.terminalBeingServiced with rfl | hserviced
    · exact hsuspended
    · rw [hother hu.1 fun heq => hserviced (h.front_inj ht h.serviced.1 hl h.serviced.2 heq)]
      exact h.suspended t ht hl hserviced

/-- The first shell of the visible terminal ends, and is about to start again. -/
theorem Consistent.restarting (h : k.Consistent)
    (hguard : k.terminalState = k.terminalBeingServiced)
    (hshell : k.currentPcb.flags = FIRST_TERM_SHELL) :
    ∃ q, (k.dying.markPidFree k.currentPcb.pid).AboutToStart q := by
  set p := k.front k.terminalBeingServiced with hp
  have hcur : k.currentPcb = k.pcb p := h.currentPcb
  have hpid : k.currentPcb.pid = p := by
    rw [hcur]
    exact h.processes.pid p h.used
  have hnot : ¬ (k.pcb p).Called := by
    unfold Pcb.Called
    rw [← hcur, hshell]
    decide
  obtain ⟨q, hq, -, hesp0⟩ := h.processes.shell p h.used hnot
  rw [hpid]
  set k₀ := k.dying.markPidFree p with hk₀
  have hused (r : ℕ) : k₀.Used r ↔ r ≠ p ∧ k.Used r :=
    used_remove (k := k.dying) h.used.1 (markPidFree_pidAvail h.used.1)
  obtain ⟨w, hw⟩ := k.dying.markPidFree_frame p
  rw [← hk₀] at hw
  have hpcb (r : ℕ) : k₀.pcb r = k.pcb r := by
    rw [hw]
    rfl
  have hrest : k₀.esp0 = k.currentPcb.esp0 ∧ k₀.terminalState = k.terminalState ∧
      k₀.terminalBeingServiced = k.terminalBeingServiced ∧ (∀ t, k₀.front t = k.front t) ∧
      ∀ t, k₀.Launched t ↔ k.Launched t := by
    rw [hw]
    exact ⟨rfl, rfl, rfl, fun _ => rfl, fun _ => Iff.rfl⟩
  obtain ⟨hesp0', hvisible, hserviced, hfront, hlaunched⟩ := hrest
  refine ⟨q, ⟨fun r hr => ?_, fun r hr hcalled => ?_, fun r hr hnotcalled => ?_,
    fun r hr hfree => ?_⟩, hq, ?_, ?_, ?_, (hlaunched _).mpr h.first, ?_⟩
  · rw [hpcb]
    exact h.processes.pid r ((hused r).mp hr).2
  · rw [hpcb] at hcalled
    obtain ⟨a, ha⟩ := h.processes.called r ((hused r).mp hr).2 hcalled
    have hap : a ≠ p := fun heq =>
      h.not_awaits h.serviced.1 h.serviced.2 r (show k.Awaits p r from heq ▸ ha)
    exact ⟨a, ha.congr ((hused a).mpr ⟨hap, ha.used⟩) (hpcb a) (hpcb r ▸ Pcb.Same.refl _)⟩
  · rw [hpcb] at hnotcalled ⊢
    exact h.processes.shell r ((hused r).mp hr).2 hnotcalled
  · rw [hpcb]
    rcases eq_or_ne r p with rfl | hne
    · exact h.current.1
    · exact h.processes.free r hr fun hu => hfree ((hused r).mpr ⟨hne, hu⟩)
  · rw [hesp0', hcur]
    exact hesp0
  · rw [hvisible, hlaunched]
    exact h.visible
  · rw [hserviced, hvisible]
    exact hguard.symm
  · intro t ht hl hne
    have hl := (hlaunched t).mp hl
    have hts : t ≠ k.terminalBeingServiced := fun heq =>
      hne (heq.trans (hguard.symm.trans hvisible.symm))
    obtain ⟨hu, howner⟩ := h.front t ht hl
    rw [hfront, hpcb, hused]
    refine ⟨⟨fun heq => hts ?_, hu⟩, howner, h.suspended t ht hl hts⟩
    exact h.front_inj ht h.serviced.1 hl h.serviced.2 heq

theorem dying_haltReturn (k : Kernel) {p q : ℕ} {b : Bool} (hp : p < MAX_NUM_PROCS)
    (hq : q < MAX_NUM_PROCS) (hne : pcbAddr q ≠ pcbAddr p) (hpid : (k.pcbs (pcbAddr q)).pid = q)
    (hframe : (k.pcbs (pcbAddr q)).frame = .internalExecute p b) (status : Word) :
    ∃ k', k.dying.haltReturn (pcbAddr p) (pcbAddr q) status = .resumed k' status ∧
      k'.pidAvail = k.pidAvail &&& ~~~(1#32 <<< p) ∧
      (k'.terminalState = k.terminalState ∧ k'.terminalBeingServiced = k.terminalBeingServiced) ∧
      k'.terminalsLaunched = k.terminalsLaunched ∧ k'.esp0 = k.currentPcb.esp0 ∧
      k'.pcbs = Function.update
        (Function.update k.pcbs (pcbAddr p) { k.pcbs (pcbAddr p) with retVal := status })
        (pcbAddr q) { k.pcbs (pcbAddr q) with frame := .gone } ∧
      k'.terminals = Function.update k.terminals (k.pcbs (pcbAddr q)).ownedByTerminal
        { k.terminals (k.pcbs (pcbAddr q)).ownedByTerminal with pid := q } := by
  have hhalt : k.dying.haltReturn (pcbAddr p) (pcbAddr q) status = .resumed _ status :=
    haltReturn_resumed hp hq hne hpid hframe
  refine ⟨_, hhalt, rfl, ⟨rfl, rfl⟩, rfl, rfl, ?_, rfl⟩
  generalize pcbAddr p = a
  generalize pcbAddr q = b
  rfl

/-- From `k` to `k'` process `p` has ended, and `q`, which waited for it, goes on. -/
structure Ended (k : Kernel) (p q : ℕ) (k' : Kernel) : Prop where
  used : ∀ r, k'.Used r ↔ r ≠ p ∧ k.Used r
  child : (k'.pcb p).frame = (k.pcb p).frame
  parent : k'.pcb q = { k.pcb q with frame := .gone }
  other : ∀ r < MAX_NUM_PROCS, r ≠ p → r ≠ q → k'.pcb r = k.pcb r

section Ended

variable {p q : ℕ}

theorem Ended.of_update (hp : p < MAX_NUM_PROCS) (hq : q < MAX_NUM_PROCS) (hne : q ≠ p)
    {status : Word} (hpidAvail : k'.pidAvail = k.pidAvail &&& ~~~(1#32 <<< p))
    (hpcbs : k'.pcbs = Function.update
      (Function.update k.pcbs (pcbAddr p) { k.pcbs (pcbAddr p) with retVal := status })
      (pcbAddr q) { k.pcbs (pcbAddr q) with frame := .gone }) : k.Ended p q k' where
  used r := used_remove hp hpidAvail
  child := by
    rw [pcb, hpcbs, Function.update_of_ne (pcb_ne hp hq hne.symm), Function.update_self, pcb]
  parent := by rw [pcb, hpcbs, Function.update_self, pcb]
  other r hr hrp hrq := by
    rw [pcb, hpcbs, Function.update_of_ne (pcb_ne hr hq hrq),
      Function.update_of_ne (pcb_ne hr hp hrp), pcb]

theorem Ended.same (h : k.Ended p q k') {r : ℕ} (hr : r < MAX_NUM_PROCS) (hrp : r ≠ p) :
    (k.pcb r).Same (k'.pcb r) := by
  rcases eq_or_ne r q with rfl | hrq
  · rw [h.parent]
    exact ⟨rfl, rfl, rfl, rfl, Iff.rfl⟩
  · rw [h.other r hr hrp hrq]
    exact Pcb.Same.refl _

theorem Ended.awaits (h : k.Ended p q k') (hq : k.Awaits q p) (hnotawaits : ∀ r, ¬ k.Awaits p r)
    {a r : ℕ} (hr : r < MAX_NUM_PROCS) (hrp : r ≠ p) (ha : k.Awaits a r) : k'.Awaits a r := by
  obtain ⟨b, hframe⟩ := hq.frame
  have hap : a ≠ p := fun heq => hnotawaits r (heq ▸ ha)
  have haq : a ≠ q := by
    rintro rfl
    obtain ⟨b', hframe'⟩ := ha.frame
    rw [hframe] at hframe'
    exact hrp (Frame.internalExecute.inj hframe').1.symm
  exact ha.congr ((h.used a).mpr ⟨hap, ha.used⟩) (h.other a ha.used.1 hap haq) (h.same hr hrp)

/-- A process that waits for nobody, and that `q` waits for, may end. -/
theorem Processes.ended (h : k.Processes) (hended : k.Ended p q k') (hq : k.Awaits q p)
    (hnotawaits : ∀ r, ¬ k.Awaits p r) (hgone : (k.pcb p).frame = .gone) : k'.Processes where
  pid r hr := by
    obtain ⟨hrp, hr⟩ := (hended.used r).mp hr
    rw [(hended.same hr.1 hrp).pid]
    exact h.pid r hr
  called r hr hcalled := by
    obtain ⟨hrp, hr⟩ := (hended.used r).mp hr
    obtain ⟨a, ha⟩ := h.called r hr ((hended.same hr.1 hrp).called.mp hcalled)
    exact ⟨a, hended.awaits hq hnotawaits hr.1 hrp ha⟩
  shell r hr hshell := by
    obtain ⟨hrp, hr⟩ := (hended.used r).mp hr
    rw [(hended.same hr.1 hrp).parentPCB, (hended.same hr.1 hrp).esp0]
    exact h.shell r hr fun hcalled => hshell ((hended.same hr.1 hrp).called.mpr hcalled)
  free r hr hfree := by
    rcases eq_or_ne r p with rfl | hrp
    · rw [hended.child]
      exact hgone
    · have hfree' : ¬ k.Used r := fun hu => hfree ((hended.used r).mpr ⟨hrp, hu⟩)
      rw [hended.other r hr hrp fun heq => hfree' (heq ▸ hq.used)]
      exact h.free r hr hfree'

end Ended

/-- A process that `execute` has started ends, and its parent goes on. -/
theorem Consistent.returns (h : k.Consistent) (hcalled : k.currentPcb.Called) (status : Word) :
    ∃ k', k.dying.haltReturn k.pcbCurr k.currentPcb.parentPCB status = .resumed k' status ∧
      k'.Consistent := by
  set p := k.front k.terminalBeingServiced with hp
  have hcur : k.currentPcb = k.pcb p := h.currentPcb
  rw [hcur] at hcalled
  obtain ⟨q, hq⟩ := h.processes.called p h.used hcalled
  have hnotawaits : ∀ r, ¬ k.Awaits p r := h.not_awaits h.serviced.1 h.serviced.2
  obtain ⟨b, hframe⟩ := hq.frame
  have hqp : q ≠ p := fun heq => hnotawaits p (show k.Awaits p p from heq ▸ hq)
  have howner : (k.pcb q).ownedByTerminal = k.terminalBeingServiced := by
    rw [hq.owner]
    exact (h.front _ h.serviced.1 h.serviced.2).2
  rw [h.pcbCurr, hcur, hq.parentPCB]
  obtain ⟨k', hresumed, hpidAvail, hstate, hlaunched, hesp0, hpcbs, hterminals⟩ :=
    k.dying_haltReturn h.used.1 hq.used.1 (pcb_ne hq.used.1 h.used.1 hqp)
      (h.processes.pid q hq.used) hframe status
  have hended : k.Ended p q k' := .of_update h.used.1 hq.used.1 hqp hpidAvail hpcbs
  have hlaunched (t : ℕ) : k'.Launched t ↔ k.Launched t := launched_congr hlaunched t
  have hfront : k'.front k.terminalBeingServiced = q := by
    rw [Kernel.front, hterminals]
    change (Function.update k.terminals (k.pcb q).ownedByTerminal _ _).pid = q
    rw [howner, Function.update_self]
  have hfronts {t : ℕ} (hne : t ≠ k.terminalBeingServiced) : k'.front t = k.front t := by
    rw [Kernel.front, hterminals]
    change (Function.update k.terminals (k.pcb q).ownedByTerminal _ _).pid = k.front t
    rw [howner, Function.update_of_ne hne, Kernel.front]
  -- another terminal runs neither the process that has ended nor its parent
  have hfront_ne {t : ℕ} (ht : t < NUM_TERMINALS) (hl : k.Launched t)
      (hne : t ≠ k.terminalBeingServiced) : k.front t ≠ p ∧ k.front t ≠ q :=
    ⟨fun heq => hne (h.front_inj ht h.serviced.1 hl h.serviced.2 heq),
      fun heq => h.not_awaits ht hl p (heq ▸ hq)⟩
  refine ⟨k', hresumed, h.processes.ended hended hq hnotawaits h.current.1, ?_, ?_,
    (hlaunched _).mpr h.first, ?_, ?_, ?_, ?_⟩
  · rw [hstate.1, hlaunched]
    exact h.visible
  · rw [hstate.2, hlaunched]
    exact h.serviced
  · rw [hstate.2, hfront, hesp0, hcur]
    exact hq.esp0
  · intro t ht hl
    have hl := (hlaunched t).mp hl
    rcases eq_or_ne t k.terminalBeingServiced with rfl | hne
    · rw [hfront, hended.parent]
      exact ⟨(hended.used q).mpr ⟨hqp, hq.used⟩, howner⟩
    · obtain ⟨hu, hown⟩ := h.front t ht hl
      obtain ⟨hrp, hrq⟩ := hfront_ne ht hl hne
      rw [hfronts hne, hended.other _ hu.1 hrp hrq]
      exact ⟨(hended.used _).mpr ⟨hrp, hu⟩, hown⟩
  · rw [hstate.2, hfront, hended.parent]
    exact ⟨rfl, hq.settled⟩
  · intro t ht hl hne
    rw [hstate.2] at hne
    have hl := (hlaunched t).mp hl
    obtain ⟨hrp, hrq⟩ := hfront_ne ht hl hne
    rw [hfronts hne, hended.other _ (h.front t ht hl).1.1 hrp hrq]
    exact h.suspended t ht hl hne

end Invariant

end Kernel

/-- The image has an executable with the name of the shell, all of whose header can be
read. -/
def Fs.HasShell (fs : Fs) : Prop :=
  ∃ entry, Id.run (readDentryByName fs (ofList SHELL)) = some entry ∧
    fs.IsExecutable entry ∧ 28 ≤ fs.firstBytes entry.inode

namespace Kernel

variable {k k' : Kernel} {fs : Fs}

theorem executeShell_starts (hshell : fs.HasShell) (hpid : k.getAvailablePid ≠ none)
    (residue : Residue) : ∃ pid k' entryPoint, k.Starts pid FIRST_TERM_SHELL k' ∧
      k.executeShell fs residue = .started k' entryPoint := by
  obtain ⟨entry, hname, hexecutable, hlong⟩ := hshell
  have hnul : NulFree SHELL := by decide
  have hchecks : k.ChecksFile fs (fun i => Id.run (ofList SHELL i)) entry := by
    refine ⟨hpid, ⟨SHELL.length, by decide, ?_⟩, ?_, hexecutable.regular⟩
    · exact strlen_ofList hnul _ _ (Nat.zero_le _) (by decide)
    · have hcopy : Id.run (strcpy (ofList SHELL) MAX_EXECUTE_ARG_SIZE 0) = SHELL :=
        strcpy_ofList hnul _ _ (Nat.zero_le _) (by decide)
      change Id.run (readDentryByName fs (ofList (splitCommand
        (Id.run (strcpy (ofList SHELL) MAX_EXECUTE_ARG_SIZE 0))).1)) = some entry
      rw [hcopy]
      exact hname
  obtain ⟨k', hrun⟩ := internalExecute_checks FIRST_TERM_SHELL hchecks
  have hmagic : (List.range 4).map (overlay (readData fs entry.inode 0#32 4#32).bytes
      residue.magic) = EXECUTABLE_CHECK := by
    rw [magic_iff]
    intro i hi
    rw [overlay_readData entry.inode _ (Nat.zero_le 24) hi, Nat.zero_add, if_pos (by omega)]
    exact (magic_iff _).mp hexecutable.magic i hi
  have hstarted := (hrun residue).trans (if_neg (not_not.mpr hmagic))
  change Id.run (k.internalExecute fs residue (ofList SHELL) FIRST_TERM_SHELL) = _ at hstarted
  obtain ⟨e, hexec⟩ : ∃ e, k.executeShell fs residue = .started k' e := by
    rw [Kernel.executeShell, hstarted]
    exact ⟨_, rfl⟩
  obtain ⟨pid, hstarts⟩ := executeShell_started hexec
  exact ⟨pid, k', e, hstarts, hexec⟩

section Step

/-- When the steps may happen: a process is started from user code, and the first
shell of a terminal starts again, on the terminal that is visible. -/
def Foreground (fs : Fs) (k : Kernel) : Event → Prop
  | .execute residue command =>
    (∃ k' entryPoint, Id.run (k.internalExecute fs residue (fun i => (command i : Id UInt8))
      USER_EXECUTE) = some (.started k' entryPoint)) →
    k.terminalState = k.terminalBeingServiced
  | .halt .. => k.currentPcb.flags = FIRST_TERM_SHELL →
    k.terminalState = k.terminalBeingServiced
  | .tick => True
  | .key .. => True

theorem Consistent.iret (h : k.Consistent) : k.iret.Consistent :=
  h.sameTasks ⟨rfl, rfl, rfl, rfl, rfl⟩ (fun _ => rfl) h.visible

theorem Consistent.step_execute (h : k.Consistent) {residue : Residue} {command : ℕ → UInt8}
    (hguard : k.Foreground fs (.execute residue command))
    (hstep : k.step fs (.execute residue command) = some k') : k'.Consistent := by
  rcases step_execute_cases hstep with rfl | ⟨pid, entryPoint, hstarts, hexec⟩
  · rw [executePrologue_of_used k h.used]
    exact (h.sameTasks ⟨rfl, rfl, rfl, rfl, rfl⟩ (fun _ => rfl) h.visible).iret
  · exact h.execute (hguard ⟨k', entryPoint, hexec⟩) hstarts

theorem Consistent.step_halt (h : k.Consistent) (hshell : fs.HasShell) {residue : Residue}
    {status : UInt8} (hguard : k.Foreground fs (.halt residue status))
    (hstep : k.step fs (.halt residue status) = some k') : k'.Consistent := by
  have hhalt := k.halt_eq_result fs residue status
  rw [Kernel.haltExit] at hhalt
  rw [Kernel.step] at hstep
  by_cases hfirst : k.currentPcb.flags = FIRST_TERM_SHELL
  · obtain ⟨q, hready⟩ := h.restarting (hguard hfirst) hfirst
    have hpid : (k.dying.markPidFree k.currentPcb.pid).getAvailablePid ≠ none := by
      have hp : k.currentPcb.pid = k.front k.terminalBeingServiced := by
        rw [h.currentPcb]
        exact h.processes.pid _ h.used
      intro hnone
      rw [hp] at hnone
      exact ((used_remove (k := k.dying) h.used.1 (markPidFree_pidAvail h.used.1)).mp
        (getAvailablePid_eq_none hnone h.used.1)).1 rfl
    obtain ⟨pid, k₁, entryPoint, hstarts, hexec⟩ := executeShell_starts hshell hpid residue
    rw [if_pos hfirst, hexec] at hhalt
    simp only [hhalt, HaltExit.result, Option.some.injEq] at hstep
    rw [← hstep]
    exact hready.starts (Or.inr rfl) (fun hcall => absurd hcall (by decide)) hstarts
  · have hcalled : k.currentPcb.Called := by
      unfold Pcb.Called
      rcases h.current.2 with hflags | hflags
      · rw [h.currentPcb, hflags]
        decide
      · rw [h.currentPcb] at hfirst
        exact absurd hflags hfirst
    obtain ⟨k₁, hresumed, hconsistent⟩ := h.returns hcalled (BitVec.ofNat 32 status.toNat)
    rw [if_neg hfirst] at hhalt
    have hhalt := hhalt.trans hresumed
    simp only [hhalt, Option.some.injEq] at hstep
    rw [← hstep]
    exact hconsistent.iret

theorem Consistent.step_tick (h : k.Consistent) (hstep : k.step fs .tick = some k') :
    k'.Consistent := by
  obtain ⟨k₁, hirq, rfl⟩ := Option.map_eq_some_iff.mp hstep
  rcases k.irq0Handler_cases h.serviced.1 h.serviced.2 (fun t ht hl => (h.front t ht hl).1.1) hirq
    with rfl | ⟨t, ht, hl, -, hswitch⟩
  · exact h.iret
  · exact (h.switches ht hl hswitch).iret

theorem Consistent.step_key (h : k.Consistent) (hshell : fs.HasShell) {residue : Residue}
    {raw : UInt8} (hstep : k.step fs (.key residue raw) = some k') : k'.Consistent := by
  have houtcome := k.irq1Handler_outcome fs residue raw h.visible.1 h.serviced.1
  rw [Kernel.step] at hstep
  generalize k.irq1Handler fs residue raw = r at houtcome hstep
  cases houtcome with
  | stays htasks hvisible hreloads _ =>
    obtain rfl := Option.some.inj hstep
    exact (h.sameTasks htasks hreloads.front (hvisible ▸ h.visible)).iret
  | @switches toT k₁ hto htasks hvisible hreloads _ =>
    obtain rfl := Option.some.inj hstep
    have hlaunched : k.Launched toT := by
      rcases hto.2.2 with rfl | hl
      · exact h.first
      · exact hl
    exact (h.sameTasks htasks hreloads.front (hvisible ▸ ⟨hto.1, hlaunched⟩)).iret
  | launches hlaunch hbase hstarts =>
    obtain rfl := Option.some.inj hstep
    exact (h.launching hlaunch hbase).starts (Or.inr rfl)
      (fun hcall => absurd hcall (by decide)) hstarts
  | @fails toT k₁ hlaunch hbase hfailed =>
    have hpid : k₁.getAvailablePid ≠ none := by
      have havail : k₁.pidAvail = k.pidAvail := hbase.pidAvail
      unfold getAvailablePid
      rw [havail]
      exact Option.isSome_iff_ne_none.mp hlaunch.2.2.2.2
    obtain ⟨pid, k₂, entryPoint, -, hexec⟩ := executeShell_starts hshell hpid residue
    rw [hexec] at hfailed
    cases hfailed

theorem step_consistent (hshell : fs.HasShell) (k : Kernel) (e : Event) (k' : Kernel)
    (h : k.Consistent) (hguard : k.Foreground fs e) (hstep : k.step fs e = some k') :
    k'.Consistent := by
  cases e with
  | execute residue command => exact h.step_execute hguard hstep
  | halt residue status => exact h.step_halt hshell hguard hstep
  | tick => exact h.step_tick hstep
  | key residue raw => exact h.step_key hshell hstep

/-- No process has been started yet. -/
structure Unstarted (k : Kernel) : Prop where
  pidAvail : k.pidAvail = 0#32
  terminalBeingServiced : k.terminalBeingServiced = 0
  terminalsLaunched : k.terminalsLaunched = 1#32
  terminalState : k.terminalState = 0
  esp0 : k.esp0 = 0x800000#32
  frame : ∀ a, (k.pcbs a).frame = .gone

theorem Unstarted.drawn (h : k.Unstarted) (hdrawn : k.Drawn k') : k'.Unstarted := by
  obtain ⟨_, _, _, _, _, _, _, rfl, -⟩ := hdrawn
  exact ⟨h.pidAvail, h.terminalBeingServiced, h.terminalsLaunched, h.terminalState, h.esp0,
    h.frame⟩

theorem Unstarted.not_used (h : k.Unstarted) (p : ℕ) : ¬ k.Used p := by
  rintro ⟨-, hbit⟩
  rw [h.pidAvail, BitVec.getLsbD_zero] at hbit
  cases hbit

theorem Unstarted.launched_iff (h : k.Unstarted) {t : ℕ} (ht : t < NUM_TERMINALS) :
    k.Launched t ↔ t = STATE_ONE := by
  unfold Launched
  rw [h.terminalsLaunched]
  obtain rfl | rfl | rfl : t = 0 ∨ t = 1 ∨ t = 2 := by
    rw [NUM_TERMINALS] at ht
    omega
  all_goals decide

theorem Unstarted.esp0_eq (h : k.Unstarted) : k.esp0 = kernelStackTop (0 : ℕ) := by
  rw [h.esp0]
  decide

theorem Unstarted.consistent (h : k.Unstarted) {residue : Residue} {entryPoint : Word}
    (hexec : k.executeShell fs residue = .started k' entryPoint) : k'.Consistent := by
  have hone : k.Launched STATE_ONE := (h.launched_iff (by decide)).mpr rfl
  have hready : k.AboutToStart 0 := by
    refine ⟨⟨fun p hp => absurd hp (h.not_used p), fun p hp => absurd hp (h.not_used p),
      fun p hp => absurd hp (h.not_used p), fun p _ _ => h.frame _⟩, by decide, h.esp0_eq, ?_, ?_,
      hone, fun t ht hl hne => ?_⟩
    · rw [h.terminalState]
      exact ⟨by decide, hone⟩
    · rw [h.terminalBeingServiced, h.terminalState]
    · rw [h.terminalState] at hne
      exact absurd ((h.launched_iff ht).mp hl) hne
  obtain ⟨pid, hstarts⟩ := executeShell_started hexec
  exact hready.starts (Or.inr rfl) (fun hcall => absurd hcall (by decide)) hstarts

end Step

end Kernel

/-- The scheduler's view of the processes agrees with the processes: the serviced
terminal runs what the processor runs, a launched terminal runs a live process of its
own that no live process is waited for by, and a child belongs to the terminal of its
parent. -/
structure Kernel.TerminalsAgree (k : Kernel) : Prop where
  running : k.pcbCurr = pcbAddr (k.terminals k.terminalBeingServiced).pid ∧
    k.currentPcb.pid = (k.terminals k.terminalBeingServiced).pid
  launched : ∀ t < NUM_TERMINALS, k.Launched t → k.Used (k.terminals t).pid ∧
    (k.pcbs (pcbAddr (k.terminals t).pid)).ownedByTerminal = t ∧
    ∀ p, k.Used p → (k.pcbs (pcbAddr p)).Called →
      (k.pcbs (pcbAddr p)).parentPCB ≠ pcbAddr (k.terminals t).pid
  child : ∀ p, k.Used p → (k.pcbs (pcbAddr p)).Called →
    (k.pcbs (pcbAddr p)).ownedByTerminal =
      (k.pcbs (k.pcbs (pcbAddr p)).parentPCB).ownedByTerminal
  distinct : ∀ t < NUM_TERMINALS, ∀ t' < NUM_TERMINALS, k.Launched t → k.Launched t' →
    (k.terminals t).pid = (k.terminals t').pid → t = t'

theorem Kernel.Consistent.terminalsAgree {k : Kernel} (h : k.Consistent) : k.TerminalsAgree where
  running := by
    refine ⟨h.pcbCurr, ?_⟩
    rw [h.currentPcb]
    exact h.processes.pid _ h.used
  launched := by
    intro t ht hl
    obtain ⟨hused, howner⟩ := h.front t ht hl
    refine ⟨hused, howner, fun p hp hcalled heq => ?_⟩
    obtain ⟨q, hq⟩ := h.processes.called p hp hcalled
    have hqt : q = k.front t := pcbAddr_inj hq.used.1 hused.1 (hq.parentPCB.symm.trans heq)
    exact h.not_awaits ht hl p (hqt ▸ hq)
  child := by
    intro p hp hcalled
    obtain ⟨q, hq⟩ := h.processes.called p hp hcalled
    have hparent : (k.pcbs (pcbAddr p)).parentPCB = pcbAddr q := hq.parentPCB
    rw [hparent]
    exact hq.owner.symm
  distinct t ht t' ht' hl hl' := h.front_inj ht ht' hl hl'

theorem Booted.unstarted {k : Kernel} (h : Booted k) : k.Unstarted :=
  ⟨h.pidAvail, h.terminalBeingServiced, h.terminalsLaunched, h.terminalState, h.esp0,
    fun a => (h.pcbs a).2⟩

/-- In every run from the first shell in which processes are started from user code,
and first shells end, on the terminal that is visible, the terminals and the processes
agree in every state. -/
theorem terminals_agree (fs : Fs) (hshell : fs.HasShell) (k₀ k : Kernel) (hboot : Booted k₀)
    (residue : Residue) (entryPoint : Word)
    (hentry : k₀.entry fs residue = .started k entryPoint) (p : List (Event × Kernel))
    (hp : Runs.Path (fun k e k' => k.step fs e = some k') k p)
    (hg : Runs.Meets (Foreground fs) k p) :
    k.TerminalsAgree ∧ ∀ x ∈ p, x.2.TerminalsAgree := by
  have hgreeted : (k₀.printfT WELCOME).Unstarted :=
    hboot.unstarted.drawn (k₀.printfT_shown WELCOME).drawn
  have hstart : k.Consistent := hgreeted.consistent hentry
  refine ⟨hstart.terminalsAgree, fun x hx => ?_⟩
  exact (Runs.invariant (step_consistent hshell) hstart hp hg x hx).terminalsAgree

theorem shellFs_hasShell : shellFs.HasShell :=
  ⟨shellFs.files 0, rfl, ⟨by decide, by decide, by decide, by decide⟩, by decide⟩

/-- The next state of a system with the smallest image, when there is one. -/
@[irreducible] def advance (k : Kernel) (e : Event) : Kernel := (k.step shellFs e).getD k

theorem step_advance {k : Kernel} {e : Event} (h : (k.step shellFs e).isSome = true) :
    k.step shellFs e = some (advance k e) := by
  obtain ⟨k', hk'⟩ := Option.isSome_iff_exists.mp h
  rw [advance, hk', Option.getD_some]

/-- The state in which the first shell begins, on a machine whose memory was zero. -/
@[irreducible] def firstShell : Kernel :=
  match bootKernel.entry shellFs zeroResidue with
  | .started k _ => k
  | .failed k => k

theorem entry_shellFs : ∃ entryPoint,
    bootKernel.entry shellFs zeroResidue = .started firstShell entryPoint := by
  have hpid : (bootKernel.printfT WELCOME).getAvailablePid ≠ none := by decide +kernel
  obtain ⟨pid, k, entryPoint, -, hexec⟩ := executeShell_starts shellFs_hasShell hpid zeroResidue
  have hentry : bootKernel.entry shellFs zeroResidue = .started k entryPoint := hexec
  refine ⟨entryPoint, ?_⟩
  rw [firstShell, hentry]

/-- The first shell executes a second while its terminal is visible. -/
theorem terminals_agree_shell : ∃ k, firstShell.step shellFs
    (.execute zeroResidue fun i => Id.run (ofList SHELL i)) = some k ∧ k.TerminalsAgree := by
  let command : Event := .execute zeroResidue fun i => Id.run (ofList SHELL i)
  have hstep : firstShell.step shellFs command = some (advance firstShell command) :=
    step_advance (by decide +kernel)
  obtain ⟨entryPoint, hentry⟩ := entry_shellFs
  have h := terminals_agree shellFs shellFs_hasShell bootKernel firstShell bootKernel_booted
    zeroResidue entryPoint hentry [(command, advance firstShell command)] ⟨hstep, trivial⟩
    ⟨fun _ => by decide +kernel, trivial⟩
  exact ⟨_, hstep, h.2 _ List.mem_cons_self⟩

/-- Alt+F2, a tick, and then an execute of a shell. -/
def background : List Event :=
  [.key zeroResidue ALT_PRESS, .key zeroResidue 0x3C, .tick,
    .execute zeroResidue fun i => Id.run (ofList SHELL i)]

/-- The first shell executes a second after Alt+F2 and a tick, when the second
terminal is visible and the first is serviced: the scheduler takes the child for the
process of the second terminal. -/
theorem executed_in_background : ∃ entryPoint p,
    bootKernel.entry shellFs zeroResidue = .started firstShell entryPoint ∧
      Runs.Path (fun k e k' => k.step shellFs e = some k') firstShell p ∧
      ¬ (Runs.final firstShell p).TerminalsAgree := by
  obtain ⟨entryPoint, hentry⟩ := entry_shellFs
  refine ⟨entryPoint, Runs.follow (fun k e => k.step shellFs e) firstShell background, hentry,
    Runs.follow_path _ firstShell background, fun hagree => ?_⟩
  exact absurd hagree.running.2 (by decide +kernel)

end SnoopDos
