import SnoopDos.Proofs.Execute
import SnoopDos.Proofs.FdTable
import SnoopDos.Spec.System

/-! Brackets of `execute` and `halt` on the first terminal. The life of a process
is a tree: it makes calls on descriptors, executes children that live and end
before it goes on, and ends. By induction on the tree, what a child leaves behind
is what its caller had, and a status. -/

namespace SnoopDos

open Kernel

/-- How a process ends: by `halt`, or by an exception. -/
inductive Ending
  | halt (residue : Residue) (status : UInt8)
  | exception

namespace Ending

/-- The status that the parent is to get. -/
def status : Ending → Word
  | .halt _ status => BitVec.ofNat 32 status.toNat
  | .exception => 256#32

def run (fs : Fs) (k : Kernel) : Ending → HaltResult
  | .halt residue status => k.halt fs residue status
  | .exception => k.haltExcep 256#32

end Ending

/-- The life of a process from some point on. -/
inductive Life
  | ends (ending : Ending)
  | fdCall (u : UserMem) (c : FdCall) (rest : Life)
  | execute (residue : Residue) (command : ℕ → UInt8) (child : Life) (rest : Life)

namespace Life

def status : Life → Word
  | .ends ending => ending.status
  | .fdCall _ _ rest => rest.status
  | .execute _ _ _ rest => rest.status

/-- What the end of the process leads to. The result is `none` when a call that it
or a descendant makes never returns. -/
def run (fs : Fs) : Life → Kernel → Option HaltResult
  | .ends ending, k => some (ending.run fs k)
  | .fdCall u c rest, k =>
    match (c.run fs k u).1 with
    | some (_, k) => rest.run fs k
    | none => none
  | .execute residue command child rest, k =>
    match Id.run (k.internalExecute fs residue (fun i => (command i : Id UInt8)) USER_EXECUTE) with
    | none => none
    | some (.failed k) => rest.run fs k.iret
    | some (.started k _) =>
      match child.run fs k with
      | some (.resumed k _) => rest.run fs k.iret
      | r => r

end Life

/-- Process `p` runs on the first terminal. -/
structure OnFirstTerminal (k : Kernel) (p : ℕ) : Prop where
  used : k.Used p
  esp0 : k.esp0 = kernelStackTop p
  cr3 : k.cr3 = .user p
  terminalState : k.terminalState = 0
  terminal : (k.terminals 0).pid = p
  pid : (k.pcbs (pcbAddr p)).pid = p
  owner : (k.pcbs (pcbAddr p)).ownedByTerminal = 0

/-- What the calls of process `p`, and its descendants, leave as it was. -/
structure Kept (k : Kernel) (p : ℕ) (k' : Kernel) : Prop where
  esp0 : k'.esp0 = k.esp0
  cr3 : k'.cr3 = k.cr3
  pidAvail : k'.pidAvail = k.pidAvail
  terminalState : k'.terminalState = k.terminalState
  terminal : (k'.terminals 0).pid = (k.terminals 0).pid
  others : ∀ q, k.Used q → q ≠ p → k'.pcbs (pcbAddr q) = k.pcbs (pcbAddr q)
  own : ∃ frame fdArray, k'.pcbs (pcbAddr p) =
    { k.pcbs (pcbAddr p) with frame := frame, fdArray := fdArray }

section Steps

variable {fs : Fs} {k k' k₁ : Kernel} {p c : ℕ}

theorem Kept.refl (k : Kernel) (p : ℕ) : Kept k p k :=
  ⟨rfl, rfl, rfl, rfl, rfl, fun _ _ _ => rfl, _, _, rfl⟩

theorem Kept.trans {k'' : Kernel} (h : Kept k p k') (h' : Kept k' p k'') : Kept k p k'' where
  esp0 := h'.esp0.trans h.esp0
  cr3 := h'.cr3.trans h.cr3
  pidAvail := h'.pidAvail.trans h.pidAvail
  terminalState := h'.terminalState.trans h.terminalState
  terminal := h'.terminal.trans h.terminal
  others q hq hne := (h'.others q ((used_congr h.pidAvail).mpr hq) hne).trans (h.others q hq hne)
  own := by
    obtain ⟨frame, fdArray, hown⟩ := h.own
    obtain ⟨frame', fdArray', hown'⟩ := h'.own
    exact ⟨frame', fdArray', by rw [hown', hown]⟩

theorem Kept.setInterruptFlag (h : Kept k p k') (b : Bool) : Kept k p (k'.setInterruptFlag b) :=
  ⟨h.esp0, h.cr3, h.pidAvail, h.terminalState, h.terminal, h.others, h.own⟩

theorem OnFirstTerminal.kept (h : OnFirstTerminal k p) (hkept : Kept k p k') :
    OnFirstTerminal k' p := by
  obtain ⟨frame, fdArray, hown⟩ := hkept.own
  exact ⟨(used_congr hkept.pidAvail).mpr h.used, hkept.esp0.trans h.esp0, hkept.cr3.trans h.cr3,
    hkept.terminalState.trans h.terminalState, hkept.terminal.trans h.terminal, by rw [hown, h.pid],
    by rw [hown, h.owner]⟩

theorem OnFirstTerminal.pcbCurr (h : OnFirstTerminal k p) : k.pcbCurr = pcbAddr p :=
  pcbCurr_of_kernelStackTop h.used.1 h.esp0

theorem run_withFds {u : UserMem} {call : FdCall} {ret : Word}
    (h : (call.run fs k u).1 = some (ret, k')) : ∃ t, k.WithFds k' t := by
  cases call with
  | «open» filename => exact open_withFds h
  | close fd => exact close_withFds h
  | read stdin fd buf numBytes =>
    obtain ⟨pos, hk⟩ := read_withFds h
    exact ⟨_, hk⟩
  | write fd buf numBytes => exact ⟨_, write_withFds h⟩

theorem OnFirstTerminal.kept_fdCall (h : OnFirstTerminal k p) {u : UserMem} {call : FdCall}
    {ret : Word} (hcall : (call.run fs k u).1 = some (ret, k')) : Kept k p k' := by
  obtain ⟨t, hk⟩ := run_withFds hcall
  have hcur := h.pcbCurr
  refine ⟨hk.esp0, hk.cr3, hk.pidAvail, hk.terminalState, hk.terminalPid 0, fun q hq hne => ?_, ?_⟩
  · rw [hk.pcbs, hcur, Function.update_of_ne fun heq => hne (pcbAddr_inj hq.1 h.used.1 heq)]
  · refine ⟨(k.pcbs (pcbAddr p)).frame, t, ?_⟩
    rw [hk.pcbs, hcur, Function.update_self, Kernel.currentPcb, hcur]

theorem OnFirstTerminal.kept_failed (h : OnFirstTerminal k p) :
    Kept k p k.executePrologue.iret := by
  rw [executePrologue_of_used k h.used]
  exact ((Kept.refl k p).setInterruptFlag false).setInterruptFlag true

/-- Any process that `internal_execute` starts on the first terminal runs there. -/
theorem Kernel.Starts.running {flags : Word} (hs : k.Starts c flags k₁) (h0 : k.terminalState = 0) :
    OnFirstTerminal k₁ c := by
  have hchild := hs.child
  obtain ⟨args, mem, hk⟩ := hs.eq
  refine ⟨(hs.used_iff c).mpr (Or.inl rfl), by rw [hk]; rfl, by rw [hk]; rfl, by rw [hk]; exact h0, ?_,
    hchild.pid, hchild.ownedByTerminal.trans h0⟩
  rw [hk]
  simp [started, h0]

/-- The child `c` of `p` came from a caller in state `k`. -/
structure Child (k : Kernel) (p c : ℕ) (k₁ : Kernel) : Prop where
  caller : OnFirstTerminal k p
  starts : k.Starts c USER_EXECUTE k₁

theorem Child.ne (h : Child k p c k₁) : p ≠ c := fun heq => h.starts.fresh (heq ▸ h.caller.used)

theorem Child.ends (h : Child k p c k₁) (hkept : Kept k₁ c k') (ending : Ending) :
    ∃ k₂, ending.run fs k' = .resumed k₂ ending.status ∧ Kept k p k₂ ∧
      (k₂.pcbs (pcbAddr p)).fdArray = (k.pcbs (pcbAddr p)).fdArray := by
  have hp := h.caller.used
  have hc := h.starts.pid_lt
  have hcur := h.caller.pcbCurr
  have hchild := h.starts.child
  have hrun := (h.starts.running h.caller.terminalState).kept hkept
  have hused₁ : k₁.Used p := (h.starts.used_iff p).mpr (Or.inr hp)
  obtain ⟨frame, fdArray, hown⟩ := hkept.own
  have hne : pcbAddr p ≠ pcbAddr c := fun heq => h.ne (pcbAddr_inj hp.1 hc heq)
  have hparent : k'.pcbs (pcbAddr p) =
      { k.pcbs (pcbAddr p) with frame := .internalExecute c k.interruptFlag } := by
    rw [hkept.others p hused₁ h.ne, h.starts.other hp hne, if_pos ⟨rfl, hcur.symm⟩]
  have hflags : (k'.pcbs (pcbAddr c)).flags ≠ FIRST_TERM_SHELL := by
    rw [hown]
    simp only [hchild.flags]
    decide
  have hend : ending.run fs k' = haltReturn
      { k' with interruptFlag := false, esp0 := (k'.pcbs (pcbAddr c)).esp0 } (pcbAddr c) (pcbAddr p)
      ending.status := by
    have hpar : (k'.pcbs (pcbAddr c)).parentPCB = pcbAddr p := by
      rw [hown]
      exact hchild.parentPCB.trans hcur
    have hcur' : (k'.setInterruptFlag false).pcbCurr = pcbAddr c := hrun.pcbCurr
    cases ending with
    | halt residue status =>
      rw [Ending.run, Kernel.halt, hcur']
      exact (if_neg hflags).trans (by rw [← hpar]; rfl)
    | exception =>
      rw [Ending.run, haltExcep, hcur', ← hpar]
      rfl
  rw [hend, haltReturn_resumed (p := p) (b := k.interruptFlag) hc hp.1 hne
    (by simp only [hparent]; exact h.caller.pid) (by simp only [hparent])]
  refine ⟨_, rfl, ⟨?_, h.caller.cr3.symm, ?_, ?_, ?_, fun q hq hqp => ?_, .gone, ?_⟩, ?_⟩
  · rw [hown]
    exact hchild.esp0
  · rw [hkept.pidAvail]
    exact h.starts.pidAvail_freed
  · exact hkept.terminalState.trans h.starts.terminalState
  · simp only [hparent, h.caller.owner, Function.update_self, h.caller.terminal]
  · have hqc : q ≠ c := fun heq => h.starts.fresh (heq ▸ hq)
    have hq₁ : k₁.Used q := (h.starts.used_iff q).mpr (Or.inr hq)
    have hqp' : pcbAddr q ≠ pcbAddr p := fun heq => hqp (pcbAddr_inj hq.1 hp.1 heq)
    have hqc' : pcbAddr q ≠ pcbAddr c := fun heq => hqc (pcbAddr_inj hq.1 hc heq)
    simp only [Function.update_of_ne hqp', Function.update_of_ne hqc', hkept.others q hq₁ hqc]
    rw [h.starts.other hp hqc', if_neg fun hcon => hqp' (hcon.2.trans hcur)]
  · exact ⟨(k.pcbs (pcbAddr p)).fdArray, by simp only [Function.update_self, hparent]⟩
  · simp only [Function.update_self, hparent]

theorem Child.run (life : Life) : ∀ {k k₁ k' : Kernel} {p c : ℕ}, Child k p c k₁ → Kept k₁ c k' →
    ∀ r, life.run fs k' = some r → ∃ k₂, r = .resumed k₂ life.status ∧ Kept k p k₂ ∧
      (k₂.pcbs (pcbAddr p)).fdArray = (k.pcbs (pcbAddr p)).fdArray := by
  induction life with
  | ends ending =>
    intro k k₁ k' p c h hkept r hr
    obtain ⟨k₂, hend, hk₂⟩ := h.ends hkept ending
    obtain rfl : ending.run fs k' = r := Option.some.inj hr
    exact ⟨k₂, hend, hk₂⟩
  | fdCall u call rest ih =>
    intro k k₁ k' p c h hkept r hr
    have hrun := (h.starts.running h.caller.terminalState).kept hkept
    rw [Life.run] at hr
    split at hr
    · rename_i ret k'' hcall
      exact ih h (hkept.trans (hrun.kept_fdCall hcall)) r hr
    · simp at hr
  | execute residue command child rest ihchild ihrest =>
    intro k k₁ k' p c h hkept r hr
    have hrun := (h.starts.running h.caller.terminalState).kept hkept
    rw [Life.run] at hr
    rcases k'.internalExecute_cases USER_EXECUTE fs residue (fun i => (command i : Id UInt8)) with
      hexec | hexec | ⟨d, k₃, entryPoint, hstarts, hexec⟩ <;> rw [hexec] at hr
    · simp at hr
    · exact ihrest h (hkept.trans hrun.kept_failed) r hr
    · have hchild : Child k' c d k₃ := ⟨hrun, hstarts⟩
      simp only at hr
      cases hinner : child.run fs k₃ with
      | none => simp [hinner] at hr
      | some r' =>
        obtain ⟨k₄, rfl, hk₄, -⟩ := ihchild hchild (Kept.refl k₃ d) r' hinner
        rw [hinner] at hr
        exact ihrest h (hkept.trans (hk₄.setInterruptFlag true)) r hr

end Steps

/-- A state in which a process runs on the first terminal: its shell has been
started at boot or again, a process has executed a child, or calls of the running
process have returned. -/
inductive Active (fs : Fs) : Kernel → Prop
  | boot {k₀ k : Kernel} {residue : Residue} {entryPoint : Word} (h : Booted k₀)
      (hexec : k₀.executeShell fs residue = .started k entryPoint) : Active fs k
  | restart {k k' : Kernel} {residue : Residue} {status : UInt8} {entryPoint : Word}
      (h : Active fs k) (hhalt : k.halt fs residue status = .restarted k' entryPoint) : Active fs k'
  | enter {k k' : Kernel} {residue : Residue} {command : ℕ → UInt8} {entryPoint : Word}
      (h : Active fs k)
      (hexec : Id.run (k.internalExecute fs residue (fun i => (command i : Id UInt8)) USER_EXECUTE) =
        some (.started k' entryPoint)) : Active fs k'
  | fdCall {k k' : Kernel} {u : UserMem} {c : FdCall} {ret : Word} (h : Active fs k)
      (hcall : (c.run fs k u).1 = some (ret, k')) : Active fs k'
  | failed {k k' : Kernel} {residue : Residue} {command : ℕ → UInt8} (h : Active fs k)
      (hexec : Id.run (k.internalExecute fs residue (fun i => (command i : Id UInt8)) USER_EXECUTE) =
        some (.failed k')) : Active fs k'.iret
  | returned {k k₁ k' : Kernel} {residue : Residue} {command : ℕ → UInt8} {entryPoint ret : Word}
      {child : Life} (h : Active fs k)
      (hexec : Id.run (k.internalExecute fs residue (fun i => (command i : Id UInt8)) USER_EXECUTE) =
        some (.started k₁ entryPoint))
      (hrun : child.run fs k₁ = some (.resumed k' ret)) : Active fs k'.iret

theorem Active.running {fs : Fs} {k : Kernel} (h : Active fs k) : ∃ p, OnFirstTerminal k p := by
  induction h with
  | @boot k₀ k residue entryPoint h hexec =>
    obtain ⟨pid, hs⟩ := executeShell_started hexec
    exact ⟨pid, hs.running h.terminalState⟩
  | restart _ hhalt ih =>
    obtain ⟨p, hp⟩ := ih
    obtain ⟨pid, k₀, hs, hstate⟩ := halt_restarted hhalt
    exact ⟨pid, hs.running (hstate.trans hp.terminalState)⟩
  | enter _ hexec ih =>
    obtain ⟨p, hp⟩ := ih
    obtain ⟨pid, hs⟩ := internalExecute_started _ _ _ _ hexec
    exact ⟨pid, hs.running hp.terminalState⟩
  | fdCall _ hcall ih =>
    obtain ⟨p, hp⟩ := ih
    exact ⟨p, hp.kept (hp.kept_fdCall hcall)⟩
  | @failed k k' residue command _ hexec ih =>
    obtain ⟨p, hp⟩ := ih
    rcases k.internalExecute_cases USER_EXECUTE fs residue (fun i => (command i : Id UInt8)) with
      hc | hc | ⟨d, k₁, e, -, hc⟩ <;> rw [hc] at hexec
    · simp at hexec
    · obtain rfl : k.executePrologue = k' := by simpa using hexec
      exact ⟨p, hp.kept hp.kept_failed⟩
    · simp at hexec
  | returned _ hexec hrun ih =>
    obtain ⟨p, hp⟩ := ih
    obtain ⟨c, hs⟩ := internalExecute_started _ _ _ _ hexec
    obtain ⟨k₂, heq, hkept, -⟩ := Child.run _ ⟨hp, hs⟩ (Kept.refl _ c) _ hrun
    obtain ⟨rfl, -⟩ := HaltResult.resumed.inj heq
    exact ⟨p, hp.kept (hkept.setInterruptFlag true)⟩

/-- All descendants only execute, and end: every command has a terminator. -/
def Life.Plain : Life → Prop
  | .ends _ => True
  | .fdCall .. => False
  | .execute _ command child rest => (∃ i < 2 ^ 32, command i = NULL_CHAR) ∧ child.Plain ∧ rest.Plain

theorem Child.returns {fs : Fs} (life : Life) : ∀ {k k₁ k' : Kernel} {p c : ℕ}, Child k p c k₁ →
    Kept k₁ c k' → life.Plain → life.run fs k' ≠ none := by
  induction life with
  | ends ending =>
    intro k k₁ k' p c _ _ _
    exact Option.some_ne_none _
  | fdCall u call rest ih =>
    intro k k₁ k' p c _ _ hplain
    exact hplain.elim
  | execute residue command child rest ihchild ihrest =>
    intro k k₁ k' p c h hkept hplain
    obtain ⟨⟨i, hi, hend⟩, hchild, hrest⟩ := hplain
    have hrun := (h.starts.running h.caller.terminalState).kept hkept
    rw [Life.run]
    rcases k'.internalExecute_cases USER_EXECUTE fs residue (fun i => (command i : Id UInt8)) with
      hexec | hexec | ⟨d, k₃, entryPoint, hstarts, hexec⟩
    · exact absurd hexec (k'.internalExecute_ne_none USER_EXECUTE fs residue hi hend)
    · rw [hexec]
      exact ihrest h (hkept.trans hrun.kept_failed) hrest
    · rw [hexec]
      have hinner : Child k' c d k₃ := ⟨hrun, hstarts⟩
      cases hr : child.run fs k₃ with
      | none => exact absurd hr (ihchild hinner (Kept.refl k₃ d) hchild)
      | some r =>
        obtain ⟨k₄, rfl, hk₄, -⟩ := Child.run child hinner (Kept.refl k₃ d) r hr
        simp only [hr]
        exact ihrest h (hkept.trans (hk₄.setInterruptFlag true)) hrest

/-- An `execute` that started a child returns the status of that child, whatever
its descendants have done, and leaves its caller with the kernel stack, the page
directory, the pids, the terminal, the descriptors and the arguments it had. -/
theorem execute_halt_brackets (fs : Fs) (k k₁ : Kernel) (hk : Active fs k) (residue : Residue)
    (command : ℕ → UInt8) (entryPoint : Word)
    (hexec : Id.run (k.internalExecute fs residue (fun i => (command i : Id UInt8)) USER_EXECUTE) =
      some (.started k₁ entryPoint)) (child : Life) :
    (∀ r, child.run fs k₁ = some r → ∃ k', r = .resumed k' child.status ∧
      k'.esp0 = k.esp0 ∧ k'.cr3 = k.cr3 ∧ k'.pidAvail = k.pidAvail ∧
      (k'.terminals 0).pid = (k.terminals 0).pid ∧ k'.fds = k.fds ∧
      k'.currentPcb.args = k.currentPcb.args) ∧
    (child.Plain → child.run fs k₁ ≠ none) := by
  obtain ⟨p, hp⟩ := hk.running
  obtain ⟨c, hs⟩ := k.internalExecute_started USER_EXECUTE fs residue hexec
  refine ⟨fun r hr => ?_, Child.returns child ⟨hp, hs⟩ (Kept.refl k₁ c)⟩
  obtain ⟨k', hres, hkept, hfds⟩ := Child.run child ⟨hp, hs⟩ (Kept.refl k₁ c) r hr
  have hcur : k'.currentPcb = k'.pcbs (pcbAddr p) := by
    rw [currentPcb, (hp.kept hkept).pcbCurr]
  have hcur₀ : k.currentPcb = k.pcbs (pcbAddr p) := by rw [currentPcb, hp.pcbCurr]
  obtain ⟨frame, fdArray, hown⟩ := hkept.own
  refine ⟨k', hres, hkept.esp0, hkept.cr3, hkept.pidAvail, hkept.terminal, ?_, ?_⟩
  · rw [Kernel.fds, Kernel.fds, hcur, hcur₀, hfds]
  · rw [hcur, hcur₀, hown]

theorem execute_halt_brackets_shell : ∃ k₁ entryPoint k',
    Id.run (shellKernel.internalExecute shellFs zeroResidue (ofList SHELL) USER_EXECUTE) =
      some (.started k₁ entryPoint) ∧
    (Life.ends (.halt zeroResidue 5)).run shellFs k₁ = some (.resumed k' 5#32) ∧
    k'.pidAvail = shellKernel.pidAvail := by
  obtain ⟨k₁, entryPoint, hexec⟩ : ∃ k₁ entryPoint,
      Id.run (shellKernel.internalExecute shellFs zeroResidue (ofList SHELL) USER_EXECUTE) =
        some (.started k₁ entryPoint) := ⟨_, _, rfl⟩
  obtain ⟨k', hrun, -, -, hpids, -⟩ := (execute_halt_brackets shellFs shellKernel k₁
    (.boot bootKernel_booted executeShell_shellFs) zeroResidue (fun i => Id.run (ofList SHELL i))
    entryPoint hexec (.ends (.halt zeroResidue 5))).1 _ rfl
  exact ⟨k₁, entryPoint, k', hexec, congrArg some hrun, hpids⟩

end SnoopDos
