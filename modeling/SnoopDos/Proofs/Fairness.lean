import SnoopDos.Proofs.Schedule

/-! No terminal starves. Whatever the processes call and whichever keys are pressed, the
round robin comes back to a terminal that has been launched within three ticks: a key
that launches a terminal jumps the queue, but each terminal does so only once. -/

namespace SnoopDos

open Kernel

/-- The event is an interrupt of the timer. -/
def Event.isTick : Event → Bool
  | .tick => true
  | _ => false

namespace Kernel

section Robin

/-- Terminal `t'` comes next after `t` among those that have been launched. -/
structure Next (k : Kernel) (t t' : ℕ) : Prop where
  launched : k.Launched t'
  first : ∃ i < NUM_TERMINALS, t' = (t + i + 1) % NUM_TERMINALS ∧
    ∀ j < i, ¬ k.Launched ((t + j + 1) % NUM_TERMINALS)

end Robin

section Rank

variable {k k' : Kernel} {fs : Fs} {t : ℕ}

/-- How many ticks other terminals may get before terminal `t` is served. -/
def wait (k : Kernel) (t : ℕ) : ℕ :=
  if k.terminalBeingServiced = t then 2
  else if (k.terminalBeingServiced + 1) % NUM_TERMINALS = t ∧ k.Launched ((t + 1) % NUM_TERMINALS)
    then 0
  else 1

/-- From `k` to `k'` the same terminal is served and the same ones are launched. -/
structure KeepsTurn (k k' : Kernel) : Prop where
  serviced : k'.terminalBeingServiced = k.terminalBeingServiced
  launched : k'.terminalsLaunched = k.terminalsLaunched

theorem KeepsTurn.trans {k'' : Kernel} (h : k.KeepsTurn k') (h' : k'.KeepsTurn k'') :
    k.KeepsTurn k'' :=
  ⟨h'.serviced.trans h.serviced, h'.launched.trans h.launched⟩

/-- What an event does to the round robin: nothing, or a tick passes on, or a key
launches a terminal and serves it. -/
inductive Turn (k k' : Kernel) (e : Event) : Prop
  | keeps (event : e.isTick = false) (turn : k.KeepsTurn k')
  | passes (next : k.Next k.terminalBeingServiced k'.terminalBeingServiced)
      (launched : k'.terminalsLaunched = k.terminalsLaunched)
  | launches {toT : ℕ} (event : e.isTick = false) (lt : toT < NUM_TERMINALS)
      (fresh : ¬ k.Launched toT) (serviced : k'.terminalBeingServiced = toT)
      (launched : k'.terminalsLaunched = k.terminalsLaunched ||| 1#32 <<< toT)

theorem Consistent.inHardwareInt (h : k.Consistent) : k.inHardwareInt = false := by
  unfold Kernel.inHardwareInt
  rw [h.currentPcb]
  rcases h.current.2 with hflags | hflags
  · rw [hflags]
    decide
  · rw [hflags]
    decide

theorem wait_eq_two (h : k.terminalBeingServiced = t) : k.wait t = 2 := if_pos h

theorem wait_le_one (h : k.terminalBeingServiced ≠ t) : k.wait t ≤ 1 := by
  rw [wait, if_neg h]
  split
  · exact Nat.zero_le 1
  · exact le_rfl

theorem wait_eq_zero (h : k.terminalBeingServiced ≠ t)
    (hbefore : (k.terminalBeingServiced + 1) % NUM_TERMINALS = t)
    (hthird : k.Launched ((t + 1) % NUM_TERMINALS)) : k.wait t = 0 := by
  rw [wait, if_neg h, if_pos ⟨hbefore, hthird⟩]

theorem wait_eq_one (h : k.terminalBeingServiced ≠ t)
    (hfar : (k.terminalBeingServiced + 1) % NUM_TERMINALS = t →
      ¬ k.Launched ((t + 1) % NUM_TERMINALS)) : k.wait t = 1 := by
  rw [wait, if_neg h, if_neg fun hnear => hfar hnear.1 hnear.2]

theorem KeepsTurn.wait (h : k.KeepsTurn k') : k'.wait t = k.wait t := by
  simp only [Kernel.wait, h.serviced, launched_congr h.launched]

/-- The round robin passes over terminal `t` only for one that comes before it. -/
theorem Next.wait (hnext : k.Next k.terminalBeingServiced k'.terminalBeingServiced)
    (hlaunched : k'.terminalsLaunched = k.terminalsLaunched) (ht : t < NUM_TERMINALS)
    (hl : k.Launched t) (hserviced : k.terminalBeingServiced < NUM_TERMINALS)
    (hserves : k.Launched k.terminalBeingServiced) (hne : k'.terminalBeingServiced ≠ t) :
    k'.wait t < k.wait t := by
  obtain ⟨i, hi, hk', hbefore⟩ := hnext.first
  by_cases hself : k.terminalBeingServiced = t
  · rw [wait_eq_two hself]
    exact Nat.lt_succ_of_le (wait_le_one hne)
  · -- on the way round `t` has not been reached
    have hpassed {j : ℕ} (hj : j ≤ i) : (k.terminalBeingServiced + j + 1) % NUM_TERMINALS ≠ t := by
      rintro rfl
      rcases Nat.lt_or_eq_of_le hj with hlt | rfl
      · exact hbefore j hlt hl
      · exact hne hk'
    have hzero := hpassed (Nat.zero_le i)
    have hi : i = 0 := by
      rcases Nat.eq_zero_or_pos i with hi | hi
      · exact hi
      · have hone := hpassed hi
        rw [NUM_TERMINALS] at *
        omega
    subst hi
    have hthird : (t + 1) % NUM_TERMINALS = k.terminalBeingServiced := by
      rw [NUM_TERMINALS] at *
      omega
    have hbefore' : (k'.terminalBeingServiced + 1) % NUM_TERMINALS = t := by
      rw [NUM_TERMINALS] at *
      omega
    have hlast : k'.Launched ((t + 1) % NUM_TERMINALS) := by
      rw [launched_congr hlaunched, hthird]
      exact hserves
    rw [wait_eq_zero hne hbefore' hlast, wait_eq_one hself fun h => absurd h hzero]
    exact Nat.one_pos

theorem Turn.wait {e : Event} (hturn : k.Turn k' e) (ht : t < NUM_TERMINALS) (hl : k.Launched t)
    (hserviced : k.terminalBeingServiced < NUM_TERMINALS)
    (hserves : k.Launched k.terminalBeingServiced) :
    k'.terminalBeingServiced = t ∨
      k'.Launched t ∧ k'.wait t ≤ k.wait t ∧ (e.isTick = true → k'.wait t < k.wait t) := by
  have hnotick {P : Prop} (h : e.isTick = false) (hyes : e.isTick = true) : P := by
    rw [h] at hyes
    cases hyes
  rcases eq_or_ne k'.terminalBeingServiced t with hgoal | hne
  · exact Or.inl hgoal
  refine Or.inr ?_
  cases hturn with
  | keeps hevent hkeeps =>
    exact ⟨(launched_congr hkeeps.launched t).mpr hl, hkeeps.wait.le, hnotick hevent⟩
  | passes hnext hlaunched =>
    have hlt := hnext.wait hlaunched ht hl hserviced hserves hne
    exact ⟨(launched_congr hlaunched t).mpr hl, hlt.le, fun _ => hlt⟩
  | @launches toT hevent hlt hfresh hserviced' hlaunched =>
    have hbits {t : ℕ} (ht : t < NUM_TERMINALS) : t < 32 := ht.trans (by decide)
    refine ⟨(launched_insert (hbits hlt) (hbits ht) hlaunched).mpr (Or.inr hl), ?_,
      hnotick hevent⟩
    by_cases hself : k.terminalBeingServiced = t
    · rw [wait_eq_two hself]
      exact (wait_le_one hne).trans (by decide)
    · have htoT : toT ≠ k.terminalBeingServiced := fun heq => hfresh (heq ▸ hserves)
      rw [wait_eq_one hself fun hnear hthird => hfresh ?_]
      · exact wait_le_one hne
      · have heq : toT = (t + 1) % NUM_TERMINALS := by
          rw [hserviced'] at hne
          rw [NUM_TERMINALS] at *
          omega
        exact heq ▸ hthird

end Rank

end Kernel

end SnoopDos
