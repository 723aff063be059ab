import SnoopDos.Proofs.Activities
import SnoopDos.Proofs.CallTrees
import SnoopDos.Proofs.Fairness
import SnoopDos.Proofs.ProgramCalls

/-! The descriptors of all processes at once, over whole runs of the machine: every live
process can call through its own table, and nothing that happens to the others changes
it. -/

namespace SnoopDos

open Kernel

/-- A table in which the terminal's descriptors are in use, and what is in use can be
called. -/
def SoundTable (fds : ℕ → FileInfo) : Prop :=
  ∃ opened : Finset ℕ, 0 ∈ opened ∧ 1 ∈ opened ∧ Tracks opened fds

/-- Every live process has such a table. -/
def Kernel.TablesSound (k : Kernel) : Prop :=
  ∀ p, k.Used p → SoundTable (k.pcbs (pcbAddr p)).fdArray

namespace Kernel

/-- From `k` to `k'` no descriptor has changed and no process has been started. -/
structure KeepsTables (k k' : Kernel) : Prop where
  fds : ∀ a, (k'.pcbs a).fdArray = (k.pcbs a).fdArray
  used : ∀ p, k'.Used p → k.Used p

variable {k k' k'' : Kernel} {fs : Fs}

section Keeps

theorem KeepsTables.refl (k : Kernel) : k.KeepsTables k := ⟨fun _ => rfl, fun _ => id⟩

theorem KeepsTables.trans (h : k.KeepsTables k') (h' : k'.KeepsTables k'') : k.KeepsTables k'' :=
  ⟨fun a => (h'.fds a).trans (h.fds a), fun p hp => h.used p (h'.used p hp)⟩

theorem KeepsTables.of_eq (hpcbs : k'.pcbs = k.pcbs) (hpidAvail : k'.pidAvail = k.pidAvail) :
    k.KeepsTables k' :=
  ⟨fun a => by rw [hpcbs], fun p hp => (used_congr hpidAvail).mp hp⟩

theorem setPcb_keepsTables (k : Kernel) (a : Addr) {f : Pcb → Pcb}
    (hf : ∀ c, (f c).fdArray = c.fdArray) : k.KeepsTables (k.setPcb a f) := by
  refine ⟨fun b => ?_, fun p hp => (used_congr (show (k.setPcb a f).pidAvail = _ from rfl)).mp hp⟩
  change (Function.update k.pcbs a (f (k.pcbs a)) b).fdArray = _
  rcases eq_or_ne b a with rfl | hne
  · rw [Function.update_self]
    exact hf _
  · rw [Function.update_of_ne hne]

theorem executePrologue_keepsTables (k : Kernel) : k.KeepsTables k.executePrologue := by
  have hflag : k.KeepsTables (k.setInterruptFlag false) := .of_eq rfl rfl
  unfold executePrologue
  extract_lets k₁
  split_ifs
  · exact hflag.trans (k₁.setPcb_keepsTables _ fun _ => rfl)
  · exact hflag

end Keeps

section Sound

theorem KeepsTables.sound (h : k.KeepsTables k') (hk : k.TablesSound) : k'.TablesSound := by
  intro p hp
  rw [h.fds]
  exact hk p (h.used p hp)

theorem Starts.fds {pid : ℕ} {flags : Word} (h : k.Starts pid flags k') {a : Addr}
    (ha : a ≠ pcbAddr pid) : (k'.pcbs a).fdArray = (k.pcbs a).fdArray := by
  obtain ⟨args, mem, rfl⟩ := h.eq
  refine Eq.trans ?_ (k.executePrologue_keepsTables.fds a)
  change (k.executePrologue.startedPcbs pid args flags k.interruptFlag a).fdArray = _
  rw [startedPcbs_of_ne _ _ _ _ _ ha]
  split_ifs <;> rfl

theorem Starts.sound {pid : ℕ} {flags : Word} (h : k.Starts pid flags k') (hk : k.TablesSound) :
    k'.TablesSound := by
  intro p hp
  rcases (h.used_iff p).mp hp with rfl | hused
  · refine ⟨{0, 1}, by decide, by decide, ?_⟩
    have hcur : k'.pcbCurr = pcbAddr p := pcbCurr_of_kernelStackTop h.pid_lt h.esp0
    have htracks := h.tracks
    rwa [Kernel.fds, currentPcb, hcur] at htracks
  · have hne : p ≠ pid := fun heq => h.fresh (heq ▸ hused)
    rw [h.fds (pcb_ne hused.1 h.pid_lt hne)]
    exact hk p hused

end Sound

/-- What something that the machine does makes of the tables. -/
inductive TableEffect (k : Kernel) : Kernel → Prop
  | keeps {k' : Kernel} (h : k.KeepsTables k') : k.TableEffect k'
  | starts {k₁ k₂ k' : Kernel} {pid : ℕ} {flags : Word} (h : k.KeepsTables k₁)
      (hused : ∀ q, k.Used q → k.pcbCurr ≠ pcbAddr q → k₁.Used q) (hstarts : k₁.Starts pid flags k₂)
      (h' : k₂.KeepsTables k') : k.TableEffect k'
  | own {k' : Kernel} {t : ℕ → FileInfo} (h : k.WithFds k' t)
      (hsound : SoundTable k.fds → SoundTable t) : k.TableEffect k'

section Effect

theorem TableEffect.sound (h : k.TableEffect k') (hk : k.TablesSound) : k'.TablesSound := by
  cases h with
  | keeps h => exact h.sound hk
  | starts h _ hstarts h' => exact h'.sound (hstarts.sound (h.sound hk))
  | own h hsound =>
    intro p hp
    have hold := hk p ((used_congr h.pidAvail).mp hp)
    rw [h.pcbs]
    rcases eq_or_ne (pcbAddr p) k.pcbCurr with heq | hne
    · rw [heq, Function.update_self]
      rw [heq] at hold
      exact hsound hold
    · rw [Function.update_of_ne hne]
      exact hold

theorem TableEffect.iret (h : k.TableEffect k') : k.TableEffect k'.iret := by
  have hflag : k'.KeepsTables k'.iret := .of_eq rfl rfl
  cases h with
  | keeps h => exact .keeps (h.trans hflag)
  | starts h hused hstarts h' => exact .starts h hused hstarts (h'.trans hflag)
  | own h hsound => exact .own ⟨h.esp0, h.pcbs, h.pidAvail, h.cr3, h.terminalState, h.terminalPid⟩ hsound

variable {C : Set ℕ} {p : ℕ}

end Effect

end Kernel

namespace System

variable {fs : Fs} {s s' : System}

/-- What a run from the first shell keeps. -/
structure Private (s : System) : Prop where
  running : s.RunsProcess
  sound : s.kernel.TablesSound

end System

theorem Booted.tables {fs : Fs} {k₀ k : Kernel} (hboot : Booted k₀) {residue : Residue}
    {entryPoint : Word} (hentry : k₀.entry fs residue = .started k entryPoint) :
    System.Private ⟨.user, k⟩ := by
  have hgreeted : (k₀.printfT WELCOME).Unstarted :=
    hboot.unstarted.drawn (k₀.printfT_shown WELCOME).drawn
  obtain ⟨pid, hstarts⟩ := executeShell_started hentry
  exact ⟨hboot.running hentry, hstarts.sound fun p hp => absurd hp (hgreeted.not_used p)⟩

end SnoopDos
