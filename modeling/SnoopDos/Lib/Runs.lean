import Mathlib.Tactic

/-! Runs of a labelled transition relation, written as the list of the events
taken and the states they led to. A guard is a condition on the state before an
event. The rules below carry an invariant through a run whose steps all meet a
guard, and turn a guard that is broken at once into an exact condition. -/

namespace Runs

variable {σ ε : Type*}

/-- `Path Step s p`: from `s`, the events of `p` lead through the states of `p`. -/
def Path (Step : σ → ε → σ → Prop) : σ → List (ε × σ) → Prop
  | _, [] => True
  | s, x :: p => Step s x.1 x.2 ∧ Path Step x.2 p

/-- Every step of the path meets the guard in the state it starts from. -/
def Meets (G : σ → ε → Prop) : σ → List (ε × σ) → Prop
  | _, [] => True
  | s, x :: p => G s x.1 ∧ Meets G x.2 p

def final : σ → List (ε × σ) → σ
  | s, [] => s
  | _, x :: p => final x.2 p

/-- The run of a partial step function on a list of events, up to the first it refuses. -/
def follow (step : σ → ε → Option σ) : σ → List ε → List (ε × σ)
  | _, [] => []
  | s, e :: es =>
    match step s e with
    | none => []
    | some s' => (e, s') :: follow step s' es

variable {Step : σ → ε → σ → Prop} {G : σ → ε → Prop} {I P : σ → Prop} {s : σ} {p : List (ε × σ)}

@[simp] theorem path_nil : Path Step s [] := trivial

@[simp] theorem path_cons {x : ε × σ} : Path Step s (x :: p) ↔ Step s x.1 x.2 ∧ Path Step x.2 p :=
  Iff.rfl

@[simp] theorem meets_nil : Meets G s ([] : List (ε × σ)) := trivial

@[simp] theorem meets_cons {x : ε × σ} : Meets G s (x :: p) ↔ G s x.1 ∧ Meets G x.2 p := Iff.rfl

theorem meets_of_forall (h : ∀ x ∈ p, ∀ s, G s x.1) : Meets G s p := by
  induction p generalizing s with
  | nil => trivial
  | cons x p ih =>
    exact ⟨h x List.mem_cons_self s, ih fun y hy => h y (List.mem_cons_of_mem x hy)⟩

theorem meets_true (h : ∀ s e, G s e) : Meets G s p := meets_of_forall fun x _ s => h s x.1

theorem path_append {q : List (ε × σ)} :
    Path Step s (p ++ q) ↔ Path Step s p ∧ Path Step (final s p) q := by
  induction p generalizing s with
  | nil => simp [final]
  | cons x p ih => simp only [List.cons_append, path_cons, ih, final, and_assoc]

theorem path_map {ε' : Type*} {Step' : σ → ε' → σ → Prop} {f : ε → ε'}
    (h : ∀ s e s', Step s e s' → Step' s (f e) s') (hp : Path Step s p) :
    Path Step' s (p.map fun x => (f x.1, x.2)) := by
  induction p generalizing s with
  | nil => trivial
  | cons x p ih => exact ⟨h s x.1 x.2 hp.1, ih hp.2⟩

/-- The same run of another relation, when its steps are steps of that one. -/
theorem path_imp {Step' : σ → ε → σ → Prop}
    (h : ∀ x ∈ p, ∀ s, Step s x.1 x.2 → Step' s x.1 x.2) (hp : Path Step s p) : Path Step' s p := by
  induction p generalizing s with
  | nil => trivial
  | cons x p ih =>
    exact ⟨h x List.mem_cons_self s hp.1, ih (fun y hy => h y (List.mem_cons_of_mem x hy)) hp.2⟩

theorem follow_path (step : σ → ε → Option σ) (s : σ) (es : List ε) :
    Path (fun s e s' => step s e = some s') s (follow step s es) := by
  induction es generalizing s with
  | nil => trivial
  | cons e es ih =>
    rw [follow]
    cases hs : step s e with
    | none => trivial
    | some s' => exact ⟨hs, ih s'⟩

theorem follow_mem (step : σ → ε → Option σ) (s : σ) (es : List ε) :
    ∀ x ∈ follow step s es, x.1 ∈ es := by
  induction es generalizing s with
  | nil => simp [follow]
  | cons e es ih =>
    rw [follow]
    cases hs : step s e with
    | none => simp
    | some s' =>
      intro x hx
      rcases List.mem_cons.mp hx with rfl | hx
      · exact List.mem_cons_self
      · exact List.mem_cons_of_mem e (ih s' x hx)

/-- The invariant rule: what guarded steps preserve holds at every state. -/
theorem invariant (hstep : ∀ s e s', I s → G s e → Step s e s' → I s')
    (hs : I s) (hp : Path Step s p) (hg : Meets G s p) : ∀ x ∈ p, I x.2 := by
  induction p generalizing s with
  | nil => simp
  | cons x p ih =>
    have hx : I x.2 := hstep s x.1 x.2 hs hg.1 hp.1
    intro y hy
    rcases List.mem_cons.mp hy with rfl | hy
    · exact hx
    · exact ih hx hp.2 hg.2 y hy

theorem invariant_final (hstep : ∀ s e s', I s → G s e → Step s e s' → I s')
    (hs : I s) (hp : Path Step s p) (hg : Meets G s p) : I (final s p) := by
  induction p generalizing s with
  | nil => exact hs
  | cons x p ih => exact ih (hstep s x.1 x.2 hs hg.1 hp.1) hp.2 hg.2

/-- A guard is exact for what steps do when it is so for each step. -/
theorem path_iff_meets {Q : σ → ε → σ → Prop} (h : ∀ s e s', Step s e s' → (Q s e s' ↔ G s e))
    (hp : Path Step s p) : Path Q s p ↔ Meets G s p := by
  induction p generalizing s with
  | nil => exact Iff.rfl
  | cons x p ih => exact and_congr (h s x.1 x.2 hp.1) (ih hp.2)

/-- A guard is exact for `P` when guarded steps keep an invariant that implies
`P` and an unguarded step from such a state breaks `P` at once. -/
theorem exact_guard (hP : ∀ s, I s → P s)
    (hstep : ∀ s e s', I s → G s e → Step s e s' → I s')
    (hbreak : ∀ s e s', I s → ¬ G s e → Step s e s' → ¬ P s')
    (hs : I s) (hp : Path Step s p) : (∀ x ∈ p, P x.2) ↔ Meets G s p := by
  induction p generalizing s with
  | nil => simp
  | cons x p ih =>
    rw [List.forall_mem_cons, meets_cons]
    by_cases hg : G s x.1
    · have hx : I x.2 := hstep s x.1 x.2 hs hg hp.1
      simp only [hP _ hx, hg, true_and]
      exact ih hx hp.2
    · have hx : ¬ P x.2 := hbreak s x.1 x.2 hs hg hp.1
      simp [hx, hg]

/-- The ranking rule: a run reaches the goal when no step raises the rank, the counted
events lower it, and there are more of these than the rank. -/
theorem reaches {goal : σ → Prop} {rank : σ → ℕ} {counts : ε → Bool}
    (hstep : ∀ s e s', I s → G s e → Step s e s' →
      goal s' ∨ I s' ∧ rank s' ≤ rank s ∧ (counts e = true → rank s' < rank s))
    (hs : I s) (hp : Path Step s p) (hg : Meets G s p)
    (hlong : rank s < p.countP fun x => counts x.1) : ∃ x ∈ p, goal x.2 := by
  induction p generalizing s with
  | nil => simp at hlong
  | cons x p ih =>
    rcases hstep s x.1 x.2 hs hg.1 hp.1 with hgoal | ⟨hx, hle, hlt⟩
    · exact ⟨x, List.mem_cons_self, hgoal⟩
    · have hlong' : rank x.2 < p.countP fun x => counts x.1 := by
        rw [List.countP_cons] at hlong
        split at hlong
        · have := hlt ‹_›
          omega
        · omega
      obtain ⟨y, hy, hgoal⟩ := ih hx hp.2 hg.2 hlong'
      exact ⟨y, List.mem_cons_of_mem x hy, hgoal⟩

end Runs
