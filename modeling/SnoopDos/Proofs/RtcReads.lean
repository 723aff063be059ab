import SnoopDos.Lib.Runs
import SnoopDos.Spec.System

/-! Processes that wait for the real time clock. All of them share one flag: a read
sets it and waits until it is clear, the interrupt clears it. A wake-up is lost when
another read begins before the reader has seen the flag clear. -/

namespace SnoopDos

/-- Where a process is in `read_rtc`: outside, or in its loop. Whether an interrupt
has come since it set the flag is ghost state. -/
inductive RtcReader
  | outside
  | waiting (interrupted : Bool)
  deriving DecidableEq

/-- The kernel, and every process that may read. -/
structure RtcSystem where
  kernel : Kernel
  reader : ℕ → RtcReader

/-- The steps between which a process can be preempted, and the interrupt. -/
inductive RtcEvent
  | set (r : ℕ)
  | test (r : ℕ)
  | interrupt

def RtcReader.interrupt : RtcReader → RtcReader
  | .outside => .outside
  | .waiting _ => .waiting true

def rtcStep (s : RtcSystem) : RtcEvent → RtcSystem → Prop
  | .set r, s' => s.reader r = .outside ∧
    s' = ⟨s.kernel.readRtcSet, Function.update s.reader r (.waiting false)⟩
  | .test r, s' => s.reader r ≠ .outside ∧
    s' = if s.kernel.readRtcTest then { s with reader := Function.update s.reader r .outside } else s
  | .interrupt, s' => s' = ⟨s.kernel.irq8Handler, fun r => (s.reader r).interrupt⟩

namespace RtcSystem

variable (s : RtcSystem)

/-- The test of a reader ends its loop when an interrupt has come since it set the
flag, and only then. -/
def Wakes : Prop :=
  ∀ r interrupted, s.reader r = .waiting interrupted → s.kernel.readRtcTest = interrupted

def Waits : Prop := ∀ r, s.reader r = .waiting false → s.kernel.readRtcTest = false

/-- No read begins while another reader has not yet tested the flag after the
interrupt it waited for. -/
def Spaced : RtcEvent → Prop
  | .set _ => ∀ r, s.reader r ≠ .waiting true
  | _ => True

variable {s} {s' : RtcSystem}

theorem interrupt_ne_waiting_false (reader : RtcReader) : reader.interrupt ≠ .waiting false := by
  cases reader <;> exact fun h => nomatch h

theorem waits_step (e : RtcEvent) (h : s.Waits) (hstep : rtcStep s e s') : s'.Waits := by
  intro i hi
  cases e with
  | set r =>
    obtain ⟨-, rfl⟩ := hstep
    rfl
  | test r =>
    obtain ⟨-, rfl⟩ := hstep
    split_ifs at hi ⊢ with htest
    · simp only [Function.update_apply] at hi
      split_ifs at hi
      exact h i hi
    · exact h i hi
  | interrupt =>
    subst hstep
    exact absurd hi (interrupt_ne_waiting_false _)

theorem wakes_step (e : RtcEvent) (h : s.Wakes) (hg : s.Spaced e) (hstep : rtcStep s e s') :
    s'.Wakes := by
  intro i interrupted hi
  cases e with
  | set r =>
    obtain ⟨-, rfl⟩ := hstep
    simp only [Function.update_apply] at hi
    split_ifs at hi with heq
    · rw [← RtcReader.waiting.inj hi]
      rfl
    · cases interrupted with
      | false => rfl
      | true => exact absurd hi (hg i)
  | test r =>
    obtain ⟨-, rfl⟩ := hstep
    split_ifs at hi ⊢ with htest
    · simp only [Function.update_apply] at hi
      split_ifs at hi
      exact h i interrupted hi
    · exact h i interrupted hi
  | interrupt =>
    subst hstep
    have hwaiting : (s.reader i).interrupt = .waiting interrupted := hi
    cases hreader : s.reader i with
    | outside =>
      rw [hreader] at hwaiting
      cases hwaiting
    | waiting before =>
      rw [hreader] at hwaiting
      rw [← RtcReader.waiting.inj hwaiting]
      rfl

theorem not_wakes_step (e : RtcEvent) (hg : ¬ s.Spaced e) (hstep : rtcStep s e s') :
    ¬ s'.Wakes := by
  cases e with
  | set r =>
    obtain ⟨houtside, rfl⟩ := hstep
    obtain ⟨i, hi⟩ := not_forall_not.mp hg
    have hne : i ≠ r := by
      rintro rfl
      rw [houtside] at hi
      cases hi
    intro h
    have hclear := h i true ((Function.update_of_ne hne _ _).trans hi)
    exact absurd hclear Bool.false_ne_true
  | test r => exact absurd trivial hg
  | interrupt => exact absurd trivial hg

end RtcSystem

/-- In a run of any number of readers none returns before an interrupt. No wake-up is
lost exactly when no read begins between an interrupt and the test of a reader that
waited for it. -/
theorem rtc_wake_ups (k : Kernel) (p : List (RtcEvent × RtcSystem))
    (hp : Runs.Path rtcStep ⟨k, fun _ => .outside⟩ p) :
    (∀ x ∈ p, x.2.Waits) ∧
      ((∀ x ∈ p, x.2.Wakes) ↔ Runs.Meets RtcSystem.Spaced ⟨k, fun _ => .outside⟩ p) := by
  constructor
  · exact Runs.invariant (G := fun _ _ => True)
      (fun _ e _ h _ hstep => RtcSystem.waits_step e h hstep) (fun _ h => by cases h) hp
      (Runs.meets_true fun _ _ => trivial)
  · exact Runs.exact_guard (fun _ h => h)
      (fun _ e _ h hg hstep => RtcSystem.wakes_step e h hg hstep)
      (fun _ e _ _ hg hstep => RtcSystem.not_wakes_step e hg hstep) (fun _ _ h => by cases h) hp

/-- One process reads, and its interrupt comes. -/
theorem rtc_wake_ups_one : ∃ s : RtcSystem, s.reader 0 = .waiting true ∧ s.Wakes :=
  let s₀ : RtcSystem := ⟨bootKernel, fun _ => .outside⟩
  let s₁ : RtcSystem := ⟨s₀.kernel.readRtcSet, Function.update s₀.reader 0 (.waiting false)⟩
  let s₂ : RtcSystem := ⟨s₁.kernel.irq8Handler, fun r => (s₁.reader r).interrupt⟩
  ⟨s₂, rfl, (rtc_wake_ups bootKernel [(.set 0, s₁), (.interrupt, s₂)]
    ⟨⟨rfl, rfl⟩, rfl, trivial⟩).2.mpr ⟨(fun _ h => nomatch h), trivial, trivial⟩
      (.interrupt, s₂) (by simp)⟩

/-- A second process begins to read before the first has seen its interrupt: the
test of the first finds the flag set, and it goes on waiting. -/
theorem wake_up_lost : ∃ p : List (RtcEvent × RtcSystem),
    Runs.Path rtcStep ⟨bootKernel, fun _ => .outside⟩ p ∧
      p.map Prod.fst = [.set 0, .interrupt, .set 1, .test 0] ∧
      (Runs.final ⟨bootKernel, fun _ => .outside⟩ p).reader 0 = .waiting true := by
  let s₀ : RtcSystem := ⟨bootKernel, fun _ => .outside⟩
  let s₁ : RtcSystem := ⟨s₀.kernel.readRtcSet, Function.update s₀.reader 0 (.waiting false)⟩
  let s₂ : RtcSystem := ⟨s₁.kernel.irq8Handler, fun r => (s₁.reader r).interrupt⟩
  let s₃ : RtcSystem := ⟨s₂.kernel.readRtcSet, Function.update s₂.reader 1 (.waiting false)⟩
  refine ⟨[(.set 0, s₁), (.interrupt, s₂), (.set 1, s₃), (.test 0, s₃)], ?_, rfl, rfl⟩
  exact ⟨⟨rfl, rfl⟩, rfl, ⟨rfl, rfl⟩, ⟨by decide, rfl⟩, trivial⟩

end SnoopDos
