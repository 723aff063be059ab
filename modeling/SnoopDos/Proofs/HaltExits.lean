import SnoopDos.Proofs.Execute

/-! `halt` and `halt_excep` are two copies of one sequence. They leave the kernel in
the same state but for the first shell of a terminal, which only `halt` starts again. -/

namespace SnoopDos

/-- Where a process that ends leaves: to the first shell of its terminal, or by a
jump to `JMP_POS_HALT` with the PCB of its parent. -/
inductive HaltExit
  | restarted (k : Kernel) (entryPointAddress : Word)
  | jumps (k : Kernel) (parent : Addr)

def HaltExit.result : HaltExit → HaltResult
  | .restarted k entryPointAddress => .restarted k entryPointAddress
  | .jumps k parent => k.jmpPosHalt parent

namespace Kernel

variable (k : Kernel)

def haltLeave (cur parent : Addr) (status : Word) : Kernel :=
  let pid := (k.pcbs parent).pid
  let pd := if pid = KERNEL_PID then DirectoryPtr.kernel else getPageDirectoryForPid pid
  let k := k.setNewPageDirectory pd
  let k := k.setPcb cur fun p => { p with retVal := status }
  let parentPcb := k.pcbs parent
  k.setTerminal parentPcb.ownedByTerminal fun t => { t with pid := toUint8 parentPcb.pid }

def dying : Kernel := { k.setInterruptFlag false with esp0 := k.currentPcb.esp0 }

def haltExit (fs : Fs) (residue : Residue) (status : UInt8) : HaltExit :=
  let parent := k.currentPcb.parentPCB
  let status := BitVec.ofNat 32 status.toNat
  if k.currentPcb.flags = FIRST_TERM_SHELL then
    match (k.dying.markPidFree k.currentPcb.pid).executeShell fs residue with
    | .started k entryPointAddress => .restarted k entryPointAddress
    | .failed k' => .jumps (k'.haltLeave k.pcbCurr parent status) parent
  else .jumps (k.dying.haltLeave k.pcbCurr parent status) parent

def haltExcepExit (status : Word) : HaltExit :=
  .jumps (k.dying.haltLeave k.pcbCurr k.currentPcb.parentPCB status) k.currentPcb.parentPCB

theorem halt_eq_result (fs : Fs) (residue : Residue) (status : UInt8) :
    k.halt fs residue status = (k.haltExit fs residue status).result := by
  have hhalt : k.halt fs residue status =
      if k.currentPcb.flags = FIRST_TERM_SHELL then
        match (k.dying.markPidFree k.currentPcb.pid).executeShell fs residue with
        | .started k entryPointAddress => .restarted k entryPointAddress
        | .failed k' =>
          k'.haltReturn k.pcbCurr k.currentPcb.parentPCB (BitVec.ofNat 32 status.toNat)
      else k.dying.haltReturn k.pcbCurr k.currentPcb.parentPCB (BitVec.ofNat 32 status.toNat) := rfl
  rw [hhalt, haltExit]
  split_ifs
  · cases (k.dying.markPidFree k.currentPcb.pid).executeShell fs residue <;> rfl
  · rfl

theorem haltExcep_eq_result (status : Word) :
    k.haltExcep status = (k.haltExcepExit status).result := rfl

theorem haltLeave_pidAvail (cur parent : Addr) (status : Word) :
    (k.haltLeave cur parent status).pidAvail = k.pidAvail := rfl

variable {k}

/-- The first shell of a terminal does not leave by `halt_excep` as it does by `halt`:
even when it cannot be started again, only `halt` has given back its pid. -/
theorem haltExit_ne {p : ℕ} (hused : k.Used p) (hpid : k.currentPcb.pid = p)
    (hfirst : k.currentPcb.flags = FIRST_TERM_SHELL) (fs : Fs) (residue : Residue)
    (status : UInt8) (status' : Word) :
    k.haltExit fs residue status ≠ k.haltExcepExit status' := by
  rw [haltExit, if_pos hfirst, hpid]
  rcases (k.dying.markPidFree p).executeShell_cases fs residue with
    hfailed | ⟨pid, k', entryPoint, -, hstarted⟩
  · rw [hfailed]
    intro heq
    have hkernel := congrArg Kernel.pidAvail (HaltExit.jumps.inj heq).1
    obtain ⟨pcbs, hpro⟩ := (k.dying.markPidFree p).executePrologue_frame
    rw [haltLeave_pidAvail, haltLeave_pidAvail, hpro] at hkernel
    have hfreed : ¬ (k.dying.markPidFree p).Used p := fun h =>
      ((used_remove hused.1 (markPidFree_pidAvail hused.1)).mp h).1 rfl
    exact hfreed ((used_congr hkernel).mpr hused)
  · rw [hstarted]
    exact HaltExit.noConfusion

end Kernel

/-- Death by an exception and a voluntary exit leave the running process in the same
state and by the same way exactly when it is not the first shell of a terminal; then
they end alike. -/
theorem halt_excep_agrees (fs : Fs) (residue : Residue) (k : Kernel) (p : ℕ) (hused : k.Used p)
    (hpid : k.currentPcb.pid = p) (status : UInt8) :
    (k.haltExit fs residue status = k.haltExcepExit (BitVec.ofNat 32 status.toNat) ↔
      k.currentPcb.flags ≠ FIRST_TERM_SHELL) ∧
    (k.currentPcb.flags ≠ FIRST_TERM_SHELL →
      k.halt fs residue status = k.haltExcep (BitVec.ofNat 32 status.toNat)) := by
  have hexit (hnot : k.currentPcb.flags ≠ FIRST_TERM_SHELL) :
      k.haltExit fs residue status = k.haltExcepExit (BitVec.ofNat 32 status.toNat) := by
    rw [Kernel.haltExit, if_neg hnot]
    rfl
  refine ⟨⟨?_, hexit⟩, fun hnot => ?_⟩
  · exact fun heq hfirst => Kernel.haltExit_ne hused hpid hfirst fs residue status _ heq
  · rw [Kernel.halt_eq_result, Kernel.haltExcep_eq_result, hexit hnot]

/-- The first shell of the system. -/
theorem halt_excep_agrees_shell :
    shellKernel.haltExit shellFs zeroResidue 0 = shellKernel.haltExcepExit 0#32 ↔
      shellKernel.currentPcb.flags ≠ FIRST_TERM_SHELL :=
  (halt_excep_agrees shellFs zeroResidue shellKernel 0
    ((shellKernel_starts.used_iff 0).mpr (Or.inl rfl)) rfl 0).1

/-- By `halt` it starts again; `halt_excep` jumps into a frame that no call has saved. -/
theorem shell_dies_by_exception :
    shellKernel.halt shellFs zeroResidue 0 ≠ shellKernel.haltExcep 0#32 := by
  have hwild : shellKernel.haltExcep 0#32 = .wild := rfl
  have hfirst : shellKernel.currentPcb.flags = FIRST_TERM_SHELL := rfl
  rw [hwild, Kernel.halt_eq_result, Kernel.haltExit, if_pos hfirst]
  have hstarted : ∃ k' entryPoint, (shellKernel.dying.markPidFree
      shellKernel.currentPcb.pid).executeShell shellFs zeroResidue = .started k' entryPoint :=
    ⟨_, _, rfl⟩
  obtain ⟨k', entryPoint, hstarted⟩ := hstarted
  rw [hstarted]
  exact HaltResult.noConfusion

end SnoopDos
