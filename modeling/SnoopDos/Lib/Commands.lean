import Mathlib.Tactic

/-! Commands over a state that may fail to return, and their rules of total
correctness. A loop runs its body until the body breaks; the fuel bounds the
rounds, and the rule for loops says how much of it is enough. -/

/-- `none` is a command that does not return. -/
abbrev Command (σ : Type) := StateT σ Option

namespace Command

variable {σ τ α β : Type}

/-- From `s` the command returns, with a value and a state that `Q` holds of. -/
def Returns (c : Command σ α) (s : σ) (Q : α → σ → Prop) : Prop :=
  ∃ a s', c s = some (a, s') ∧ Q a s'

/-- `while (1)`: the body ends the loop with a value or goes on with new locals. -/
def loop (body : β → Command σ (α ⊕ β)) : ℕ → β → Command σ α
  | 0, _ => fun _ => none
  | n + 1, b => do
    let r ← body b
    match r with
    | .inl a => pure a
    | .inr b => loop body n b

/-- Whatever the command returns with, the states before and after are related. -/
def Moves (R : σ → σ → Prop) (c : Command σ α) : Prop := ∀ s a s', c s = some (a, s') → R s s'

section Returns

variable {c : Command σ α} {f : α → Command σ β} {s : σ} {Q Q' : α → σ → Prop} {P : β → σ → Prop}

theorem Returns.mono (h : Returns c s Q) (hQ : ∀ a s', Q a s' → Q' a s') : Returns c s Q' := by
  obtain ⟨a, s', hrun, hq⟩ := h
  exact ⟨a, s', hrun, hQ a s' hq⟩

theorem returns_pure {a : α} (h : Q a s) : Returns (pure a) s Q := ⟨a, s, rfl, h⟩

theorem Returns.bind (h : Returns c s Q) (hf : ∀ a s', Q a s' → Returns (f a) s' P) :
    Returns (c >>= f) s P := by
  obtain ⟨a, s', hrun, hq⟩ := h
  obtain ⟨b, s'', hrun', hp⟩ := hf a s' hq
  refine ⟨b, s'', ?_, hp⟩
  change (c s).bind (fun r => f r.1 r.2) = some (b, s'')
  rw [hrun]
  exact hrun'

/-- A loop returns when every round either breaks or brings a measure down. -/
theorem returns_loop {body : β → Command σ (α ⊕ β)} (I : ℕ → β → σ → Prop)
    (hbody : ∀ n b s, I n b s → Returns (body b) s fun r s' =>
      (∀ a, r = .inl a → Q a s') ∧ ∀ b', r = .inr b' → ∃ m < n, I m b' s')
    {n fuel : ℕ} {b : β} (hn : n < fuel) (h : I n b s) : Returns (loop body fuel b) s Q := by
  induction fuel generalizing n b s with
  | zero => omega
  | succ fuel ih =>
    refine (hbody n b s h).bind fun r s' hr => ?_
    cases r with
    | inl a => exact returns_pure (hr.1 a rfl)
    | inr b' =>
      obtain ⟨m, hm, hI⟩ := hr.2 b' rfl
      exact ih (by omega) hI

theorem Returns.of_eq (h : Returns c s Q) {a : α} {s' : σ} (hrun : c s = some (a, s')) : Q a s' := by
  obtain ⟨b, s'', hrun', hq⟩ := h
  obtain ⟨rfl, rfl⟩ : b = a ∧ s'' = s' := by simpa [hrun] using hrun'.symm
  exact hq

end Returns

section Moves

variable {R : σ → σ → Prop} {c : Command σ α} {f : α → Command σ β}

theorem moves_pure (hrefl : ∀ s, R s s) (a : α) : Moves R (pure a : Command σ α) := by
  intro s b s' h
  change some (a, s) = some (b, s') at h
  obtain ⟨-, rfl⟩ := Prod.mk.inj (Option.some.inj h)
  exact hrefl s

theorem Moves.bind (htrans : ∀ s s' s'', R s s' → R s' s'' → R s s'') (h : Moves R c)
    (hf : ∀ a, Moves R (f a)) : Moves R (c >>= f) := by
  intro s b s'' hrun
  change (c s).bind (fun r => f r.1 r.2) = some (b, s'') at hrun
  cases hc : c s with
  | none => simp [hc] at hrun
  | some r =>
    rw [hc] at hrun
    exact htrans s r.2 s'' (h s r.1 r.2 hc) (hf r.1 r.2 b s'' hrun)

theorem moves_loop (htrans : ∀ s s' s'', R s s' → R s' s'' → R s s'') (hrefl : ∀ s, R s s)
    {body : β → Command σ (α ⊕ β)} (h : ∀ b, Moves R (body b)) (fuel : ℕ) (b : β) :
    Moves R (loop body fuel b) := by
  induction fuel generalizing b with
  | zero =>
    intro s a s' hrun
    cases hrun
  | succ fuel ih =>
    refine (h b).bind htrans fun r => ?_
    cases r with
    | inl a => exact moves_pure hrefl a
    | inr b' => exact ih b'

theorem Returns.moved {s : σ} {Q : α → σ → Prop} (h : Returns c s Q) (hc : Moves R c) :
    Returns c s fun a s' => Q a s' ∧ R s s' := by
  obtain ⟨a, s', hrun, hq⟩ := h
  exact ⟨a, s', hrun, hq, hc s a s' hrun⟩

end Moves

end Command
