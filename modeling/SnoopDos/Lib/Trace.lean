import Mathlib.Tactic

/-! Computations that log what they access. A property of all accesses of a
sequence is one of the accesses of its parts. -/

/-- A value, and the accesses made on the way to it. -/
structure Trace (ε α : Type) where
  val : α
  log : List ε

namespace Trace

variable {ε α β : Type}

instance : Monad (Trace ε) where
  pure a := ⟨a, []⟩
  bind t f := ⟨(f t.val).val, t.log ++ (f t.val).log⟩

def access (e : ε) (a : α) : Trace ε α := ⟨a, [e]⟩

def All (P : ε → Prop) (t : Trace ε α) : Prop := ∀ e ∈ t.log, P e

variable {P : ε → Prop} (a : α) (e : ε) (t : Trace ε α) (f : α → Trace ε β)

@[simp] theorem val_pure : (pure a : Trace ε α).val = a := rfl

@[simp] theorem val_bind : (t >>= f).val = (f t.val).val := rfl

@[simp] theorem log_bind : (t >>= f).log = t.log ++ (f t.val).log := rfl

@[simp] theorem val_access : (access e a).val = a := rfl

@[simp] theorem all_pure : All P (pure a : Trace ε α) := fun _ h => absurd h List.not_mem_nil

@[simp] theorem all_access : All P (access e a) ↔ P e := by
  simp [All, access]

@[simp] theorem all_bind : All P (t >>= f) ↔ All P t ∧ All P (f t.val) := by
  change (∀ e ∈ t.log ++ (f t.val).log, P e) ↔ _
  simp only [List.mem_append, or_imp, forall_and]
  rfl

end Trace
