import Mathlib.Tactic

/-! Byte memory whose accesses are recorded. Code that reads or writes through a
pointer it was given runs in the state monad over it; the list of touched
addresses is what containment is about. -/

/-- Memory as one address space sees it, with the addresses touched so far. -/
structure UserMem where
  bytes : BitVec 32 → UInt8
  touched : List (BitVec 32)

abbrev User := StateM UserMem

namespace UserMem

def load (a : BitVec 32) : User UInt8 := fun u => (u.bytes a, { u with touched := u.touched ++ [a] })

def store (a : BitVec 32) (c : UInt8) : User Unit := fun u =>
  ((), { bytes := Function.update u.bytes a c, touched := u.touched ++ [a] })

/-- `p[i] = bytes[i]` in order, for every byte of the list. -/
def storeBytes (p : BitVec 32) : List UInt8 → User Unit
  | [] => pure ()
  | c :: cs => do
    store p c
    storeBytes (p + 1#32) cs

/-- The string at `p`, read byte by byte. -/
def stringAt (p : BitVec 32) (i : ℕ) : User UInt8 := load (p + BitVec.ofNat 32 i)

/-- The addresses `p`, `p + 1`, ..., `p + n - 1`. -/
def span (p : BitVec 32) (n : ℕ) : List (BitVec 32) :=
  (List.range n).map fun i => p + BitVec.ofNat 32 i

variable (u : UserMem) (p : BitVec 32)

section Monad

variable {α β : Type}

@[simp] theorem pure_run (a : α) : (pure a : User α) u = (a, u) := rfl

@[simp] theorem bind_run (x : User α) (f : α → User β) : (x >>= f) u = f (x u).1 (x u).2 := rfl

@[simp] theorem map_run (f : α → β) (x : User α) : (f <$> x) u = (f (x u).1, (x u).2) := rfl

end Monad

@[simp] theorem stringAt_fst (i : ℕ) : (stringAt p i u).1 = u.bytes (p + BitVec.ofNat 32 i) := rfl

@[simp] theorem load_snd_bytes (a : BitVec 32) : (load a u).2.bytes = u.bytes := rfl

@[simp] theorem span_zero : span p 0 = [] := rfl

theorem span_cons (n : ℕ) : span p (n + 1) = p :: span (p + 1#32) n := by
  simp only [span, List.range_succ_eq_map, List.map_cons, List.map_map]
  congr 1
  · simp
  · apply List.map_congr_left
    intro i _
    simp only [Function.comp, Nat.succ_eq_add_one, BitVec.ofNat_add]
    rw [BitVec.add_comm (BitVec.ofNat 32 i), BitVec.add_assoc]

theorem mem_span {n : ℕ} {a : BitVec 32} : a ∈ span p n ↔ ∃ i < n, p + BitVec.ofNat 32 i = a := by
  simp [span]

theorem touched_storeBytes (cs : List UInt8) :
    (storeBytes p cs u).2.touched = u.touched ++ span p cs.length := by
  induction cs generalizing u p with
  | nil => exact (List.append_nil _).symm
  | cons c cs ih =>
    change (storeBytes (p + 1#32) cs (store p c u).2).2.touched = _
    rw [ih, List.length_cons, span_cons]
    simp [store]

theorem bytes_storeBytes_of_notMem (cs : List UInt8) {a : BitVec 32} (ha : a ∉ span p cs.length) :
    (storeBytes p cs u).2.bytes a = u.bytes a := by
  induction cs generalizing u p with
  | nil => rfl
  | cons c cs ih =>
    rw [List.length_cons, span_cons, List.mem_cons, not_or] at ha
    change (storeBytes (p + 1#32) cs (store p c u).2).2.bytes a = _
    rw [ih _ _ ha.2]
    exact Function.update_of_ne ha.1 _ _

/-- A block write that does not wrap around the address space puts every byte
where it belongs. -/
theorem bytes_storeBytes (cs : List UInt8) (hcs : cs.length ≤ 2 ^ 32) (i : ℕ) (hi : i < cs.length) :
    (storeBytes p cs u).2.bytes (p + BitVec.ofNat 32 i) = cs[i] := by
  induction cs generalizing u p i with
  | nil => simp at hi
  | cons c cs ih =>
    change (storeBytes (p + 1#32) cs (store p c u).2).2.bytes _ = _
    cases i with
    | zero =>
      have hp : p ∉ span (p + 1#32) cs.length := by
        rw [mem_span]
        rintro ⟨j, hj, hpj⟩
        have hnat := congrArg BitVec.toNat hpj
        have hlt := p.isLt
        simp only [BitVec.toNat_add, BitVec.toNat_ofNat, List.length_cons] at hnat hcs
        omega
      simp only [BitVec.add_zero, List.getElem_cons_zero]
      rw [bytes_storeBytes_of_notMem _ _ _ hp]
      simp [store]
    | succ i =>
      have hi' : i < cs.length := by simpa using hi
      have hp : p + BitVec.ofNat 32 (i + 1) = p + 1#32 + BitVec.ofNat 32 i := by
        rw [Nat.add_comm, BitVec.ofNat_add, ← BitVec.add_assoc]
      rw [hp, ih _ _ (by simp at hcs; omega) i hi', List.getElem_cons_succ]

/-- From `u` to `u'`, exactly the offsets from `p` that satisfy `P` were touched. -/
def Touches (u u' : UserMem) (p : BitVec 32) (P : ℕ → Prop) : Prop :=
  ∀ a, a ∈ u'.touched ↔ a ∈ u.touched ∨ ∃ i, P i ∧ a = p + BitVec.ofNat 32 i

section Touches

variable {u p} {u' u'' : UserMem} {P Q : ℕ → Prop}

theorem Touches.none (hP : ∀ i, ¬ P i) : Touches u u p P := fun a => by simp [hP]

theorem Touches.congr (h : Touches u u' p P) (hPQ : ∀ i, P i ↔ Q i) : Touches u u' p Q := fun a => by
  simp only [h a, hPQ]

theorem Touches.trans (h : Touches u u' p P) (h' : Touches u' u'' p Q) :
    Touches u u'' p fun i => P i ∨ Q i := fun a => by
  rw [h' a, h a, or_assoc]
  refine or_congr_right ⟨?_, ?_⟩
  · rintro (⟨i, hi, ha⟩ | ⟨i, hi, ha⟩)
    · exact ⟨i, Or.inl hi, ha⟩
    · exact ⟨i, Or.inr hi, ha⟩
  · rintro ⟨i, hi | hi, ha⟩
    · exact Or.inl ⟨i, hi, ha⟩
    · exact Or.inr ⟨i, hi, ha⟩

theorem touches_load (u : UserMem) (p : BitVec 32) (i : ℕ) :
    Touches u (load (p + BitVec.ofNat 32 i) u).2 p (· = i) := fun a => by
  simp [load]

theorem touches_store (u : UserMem) (p : BitVec 32) (i : ℕ) (c : UInt8) :
    Touches u (store (p + BitVec.ofNat 32 i) c u).2 p (· = i) := fun a => by
  simp [store]

theorem touches_storeBytes (u : UserMem) (p : BitVec 32) (cs : List UInt8) :
    Touches u (storeBytes p cs u).2 p (· < cs.length) := fun a => by
  rw [touched_storeBytes, List.mem_append, mem_span]
  simp only [eq_comm]

/-- Offset `i` from inside a window stays inside up to the end of the window. -/
theorem add_mem_window_iff {lo hi i : ℕ} (hlo : lo ≤ p.toNat) (hfit : p.toNat + i < 2 ^ 32) :
    lo ≤ (p + BitVec.ofNat 32 i).toNat ∧ (p + BitVec.ofNat 32 i).toNat < hi ↔ i < hi - p.toNat := by
  rw [BitVec.toNat_add, BitVec.toNat_ofNat]
  omega

/-- An access that goes on from its first byte without gaps stays in a window when
it stops before the end of it. -/
theorem Touches.mem_window_iff {bytes : BitVec 32 → UInt8} {lo hi : ℕ}
    (h : Touches ⟨bytes, []⟩ u' p P) (hdown : ∀ i j, j ≤ i → P i → P j) (hlo : lo ≤ p.toNat)
    (hlt : p.toNat < hi) (hhi : hi < 2 ^ 32) :
    (∀ a ∈ u'.touched, lo ≤ a.toNat ∧ a.toNat < hi) ↔ ¬ P (hi - p.toNat) := by
  constructor
  · intro hall hP
    have hmem := hall _ ((h _).mpr (Or.inr ⟨_, hP, rfl⟩))
    exact lt_irrefl _ ((add_mem_window_iff hlo (by omega)).mp hmem)
  · intro hP a ha
    obtain ha | ⟨i, hi', rfl⟩ := (h a).mp ha
    · simp at ha
    · have hlt : i < hi - p.toNat := by
        by_contra hge
        exact hP (hdown i _ (by omega) hi')
      exact (add_mem_window_iff hlo (by omega)).mpr hlt

end Touches

end UserMem
