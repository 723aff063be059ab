import Mathlib.Tactic

/-! Counted loops over function arrays. `forRange lo n f` runs `f lo`, then
`f (lo + 1)`, and so on for `n` rounds; an array is a function on its indices. -/

namespace Loops

variable {σ α : Type*}

/-- `for (i = lo; i < lo + n; i++) s = f(i, s)`. -/
def forRange (lo : ℕ) : ℕ → (ℕ → σ → σ) → σ → σ
  | 0, _, s => s
  | n + 1, f, s => forRange (lo + 1) n f (f lo s)

@[simp] theorem forRange_zero (lo : ℕ) (f : ℕ → σ → σ) (s : σ) : forRange lo 0 f s = s := rfl

theorem forRange_succ (lo n : ℕ) (f : ℕ → σ → σ) (s : σ) :
    forRange lo (n + 1) f s = f (lo + n) (forRange lo n f s) := by
  induction n generalizing lo s with
  | zero => rfl
  | succ n ih =>
    rw [forRange, ih, show lo + 1 + n = lo + (n + 1) by omega]
    rfl

/-- The loop rule: what holds at the start of round `i` and is re-established
for round `i + 1` holds with `i = lo + n` at the end. -/
theorem forRange_invariant {lo n : ℕ} {f : ℕ → σ → σ} {s : σ} (I : ℕ → σ → Prop)
    (h0 : I lo s) (hstep : ∀ i s, lo ≤ i → i < lo + n → I i s → I (i + 1) (f i s)) :
    I (lo + n) (forRange lo n f s) := by
  induction n with
  | zero => exact h0
  | succ n ih =>
    rw [forRange_succ]
    exact hstep (lo + n) _ (by omega) (by omega) (ih fun i s h1 h2 => hstep i s h1 (by omega))

theorem forRange_fill {lo n : ℕ} {f : ℕ → (ℕ → α) → ℕ → α} {g : ℕ → α}
    (hf : ∀ i a, lo ≤ i → i < lo + n → f i a = Function.update a i (g i)) (a : ℕ → α) (j : ℕ) :
    forRange lo n f a j = if lo ≤ j ∧ j < lo + n then g j else a j := by
  induction n with
  | zero => simp
  | succ n ih =>
    rw [forRange_succ, hf _ _ (by omega) (by omega), Function.update_apply,
      ih fun i a h1 h2 => hf i a h1 (by omega)]
    by_cases hj : j = lo + n
    · simp [hj]
    · rw [if_neg hj]
      congr 1
      simp only [eq_iff_iff]
      omega

theorem forRange_map {τ : Type*} (h : σ → τ) {lo n : ℕ} {f : ℕ → σ → σ} {g : ℕ → τ → τ}
    (hfg : ∀ i s, lo ≤ i → i < lo + n → h (f i s) = g i (h s)) (s : σ) :
    h (forRange lo n f s) = forRange lo n g (h s) := by
  induction n with
  | zero => rfl
  | succ n ih =>
    rw [forRange_succ, forRange_succ, hfg _ _ (by omega) (by omega),
      ih fun i s h1 h2 => hfg i s h1 (by omega)]

theorem forRange_rel {τ : Type*} {R : σ → τ → Prop} {lo n : ℕ} {f : ℕ → σ → σ} {g : ℕ → τ → τ}
    (hfg : ∀ i s t, lo ≤ i → i < lo + n → R s t → R (f i s) (g i t)) {s : σ} {t : τ} (h : R s t) :
    R (forRange lo n f s) (forRange lo n g t) := by
  induction n with
  | zero => exact h
  | succ n ih =>
    rw [forRange_succ, forRange_succ]
    exact hfg _ _ _ (by omega) (by omega) (ih fun i s t h1 h2 => hfg i s t h1 (by omega))

end Loops
