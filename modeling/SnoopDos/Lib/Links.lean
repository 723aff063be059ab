import Mathlib.Tactic

/-! Singly linked lists in an array: a head, and for every cell the cell after it. A
slot is a place that a pointer is kept in, the head or the link of a cell. A list that
ends never visits a cell twice; a cell that is its own successor is on no such list. -/

structure Links (ι : Type) where
  head : Option ι
  next : ι → Option ι

namespace Links

variable {ι σ : Type}

/-- From `p` the links lead through the cells of `l` to the end. -/
def Chain (next : ι → Option ι) : Option ι → List ι → Prop
  | p, [] => p = none
  | p, i :: l => p = some i ∧ Chain next (next i) l

/-- What is kept in a slot; `none` is the slot of the head. -/
def content (L : Links ι) : Option ι → Option ι
  | none => L.head
  | some i => L.next i

/-- Walk from `p` to the end, doing `f` at every cell, `fuel` rounds at most. -/
def walk (next : σ → ι → Option ι) (f : ι → σ → σ) : ℕ → Option ι → σ → Option σ
  | 0, _, _ => none
  | _ + 1, none, s => some s
  | fuel + 1, some i, s => walk next f fuel (next (f i s) i) (f i s)

/-- Walk from `p` to the first cell that meets the test. -/
def search (next : ι → Option ι) (test : ι → Bool) : ℕ → Option ι → Option (Option ι)
  | 0, _ => none
  | _ + 1, none => some none
  | fuel + 1, some i => if test i then some (some i) else search next test fuel (next i)

/-- Walk from a slot to the first one that points to `i`; past the end there is none. -/
def findSlot [DecidableEq ι] (L : Links ι) (i : ι) : ℕ → Option ι → Option (Option ι)
  | 0, _ => none
  | fuel + 1, slot =>
    if L.content slot = some i then some slot
    else
      match L.content slot with
      | none => none
      | some j => findSlot L i fuel (some j)

section Chain

variable {next next' : ι → Option ι} {p : Option ι} {l l' : List ι}

@[simp] theorem chain_nil : Chain next p [] ↔ p = none := Iff.rfl

@[simp] theorem chain_cons {i : ι} : Chain next p (i :: l) ↔ p = some i ∧ Chain next (next i) l :=
  Iff.rfl

theorem Chain.congr (h : Chain next p l) (heq : ∀ i ∈ l, next' i = next i) : Chain next' p l := by
  induction l generalizing p with
  | nil => exact h
  | cons i l ih =>
    refine ⟨h.1, ?_⟩
    rw [heq i List.mem_cons_self]
    exact ih h.2 fun j hj => heq j (List.mem_cons_of_mem i hj)

theorem Chain.unique (h : Chain next p l) (h' : Chain next p l') : l = l' := by
  induction l generalizing p l' with
  | nil =>
    cases l' with
    | nil => rfl
    | cons i l' => cases h.symm.trans h'.1
  | cons i l ih =>
    cases l' with
    | nil => cases h.1.symm.trans h'
    | cons j l' =>
      obtain rfl : i = j := Option.some.inj (h.1.symm.trans h'.1)
      rw [ih h.2 h'.2]

theorem Chain.suffix (h : Chain next p l) {i : ι} (hi : i ∈ l) :
    ∃ l', Chain next (next i) l' ∧ l'.length < l.length := by
  induction l generalizing p with
  | nil => cases hi
  | cons j l ih =>
    rcases List.mem_cons.mp hi with rfl | hi
    · exact ⟨l, h.2, Nat.lt_succ_self _⟩
    · obtain ⟨l', hl', hlt⟩ := ih h.2 hi
      exact ⟨l', hl', hlt.trans (Nat.lt_succ_self _)⟩

theorem Chain.nodup (h : Chain next p l) : l.Nodup := by
  induction l generalizing p with
  | nil => exact List.nodup_nil
  | cons i l ih =>
    refine List.nodup_cons.mpr ⟨fun hi => ?_, ih h.2⟩
    obtain ⟨l', hl', hlt⟩ := h.2.suffix hi
    rw [h.2.unique hl'] at hlt
    exact lt_irrefl _ hlt

theorem search_eq {test : ι → Bool} {fuel : ℕ} (h : Chain next p l) (hfuel : l.length < fuel) :
    search next test fuel p = some (l.find? test) := by
  induction l generalizing p fuel with
  | nil =>
    obtain ⟨fuel, rfl⟩ := Nat.exists_eq_succ_of_ne_zero (Nat.ne_zero_of_lt hfuel)
    obtain rfl : p = none := h
    rfl
  | cons i l ih =>
    obtain ⟨fuel, rfl⟩ := Nat.exists_eq_succ_of_ne_zero (Nat.ne_zero_of_lt hfuel)
    obtain rfl : p = some i := h.1
    rw [search, List.find?_cons]
    cases test i with
    | true => rfl
    | false => exact ih h.2 (Nat.lt_of_succ_lt_succ hfuel)

theorem search_loop {test : ι → Bool} {i : ι} (h : next i = some i) (htest : test i = false)
    (fuel : ℕ) : search next test fuel (some i) = none := by
  induction fuel with
  | zero => rfl
  | succ fuel ih =>
    rw [search, htest, h]
    exact ih

end Chain

section Walk

variable {next : σ → ι → Option ι} {f : ι → σ → σ} {s : σ} {p : Option ι} {l : List ι}

/-- A walk that leaves the links alone does its work at every cell of the list, in order. -/
theorem walk_eq (hf : ∀ i s, next (f i s) = next s) {fuel : ℕ} (h : Chain (next s) p l)
    (hfuel : l.length < fuel) : walk next f fuel p s = some (l.foldl (fun s i => f i s) s) := by
  induction l generalizing p s fuel with
  | nil =>
    obtain ⟨fuel, rfl⟩ := Nat.exists_eq_succ_of_ne_zero (Nat.ne_zero_of_lt hfuel)
    obtain rfl : p = none := h
    rfl
  | cons i l ih =>
    obtain ⟨fuel, rfl⟩ := Nat.exists_eq_succ_of_ne_zero (Nat.ne_zero_of_lt hfuel)
    obtain rfl : p = some i := h.1
    refine ih ?_ (Nat.lt_of_succ_lt_succ hfuel)
    rw [hf]
    exact h.2

theorem walk_loop (hf : ∀ i s, next (f i s) = next s) {i : ι} (h : next s i = some i) (fuel : ℕ) :
    walk next f fuel (some i) s = none := by
  induction fuel generalizing s with
  | zero => rfl
  | succ fuel ih =>
    have hstep : next (f i s) i = some i := by rw [hf, h]
    rw [walk, hstep]
    exact ih hstep

end Walk

section Slots

variable [DecidableEq ι] {L : Links ι} {l : List ι} {i : ι}

def point (L : Links ι) (slot p : Option ι) : Links ι :=
  match slot with
  | none => { L with head := p }
  | some i => { L with next := Function.update L.next i p }

/-- The slot before a cell of the list is found, and pointing it past the cell takes the
cell out of the list. -/
theorem findSlot_eq (slot : Option ι) (h : Chain L.next (L.content slot) l) (hi : i ∈ l)
    (hslot : ∀ j ∈ l, slot ≠ some j) {fuel : ℕ} (hfuel : l.length < fuel) :
    ∃ slot', findSlot L i fuel slot = some slot' ∧ (slot' = slot ∨ ∃ j ∈ l, slot' = some j) ∧
      Chain (L.point slot' (L.next i)).next ((L.point slot' (L.next i)).content slot)
        (l.erase i) := by
  induction l generalizing slot fuel with
  | nil => cases hi
  | cons j l ih =>
    obtain ⟨fuel, rfl⟩ := Nat.exists_eq_succ_of_ne_zero (Nat.ne_zero_of_lt hfuel)
    have hnodup := List.nodup_cons.mp (Chain.nodup (l := j :: l) h)
    rw [findSlot]
    rcases eq_or_ne j i with rfl | hne
    · refine ⟨slot, if_pos h.1, Or.inl rfl, ?_⟩
      rw [List.erase_cons_head]
      cases slot with
      | none => exact h.2
      | some k =>
        have hk : k ∉ l := fun hk => hslot k (List.mem_cons_of_mem j hk) rfl
        refine (?_ : Chain (Function.update L.next k (L.next j))
          (Function.update L.next k (L.next j) k) l)
        rw [Function.update_self]
        exact h.2.congr fun m hm => Function.update_of_ne (ne_of_mem_of_not_mem hm hk) _ _
    · have hil : i ∈ l := (List.mem_cons.mp hi).resolve_left hne.symm
      have hcontent : L.content slot ≠ some i := by
        rw [h.1]
        exact fun heq => hne (Option.some.inj heq)
      have hother : ∀ m ∈ l, some j ≠ some m := by
        rintro m hm heq
        rw [Option.some.inj heq] at hnodup
        exact hnodup.1 hm
      obtain ⟨slot', hfind, hcases, hchain⟩ := ih (some j) h.2 hil hother
        (Nat.lt_of_succ_lt_succ hfuel)
      have hslot' : ∃ m ∈ j :: l, slot' = some m := by
        rcases hcases with rfl | ⟨m, hm, rfl⟩
        · exact ⟨j, List.mem_cons_self, rfl⟩
        · exact ⟨m, List.mem_cons_of_mem j hm, rfl⟩
      obtain ⟨m, hm, rfl⟩ := hslot'
      refine ⟨some m, ?_, Or.inr ⟨m, hm, rfl⟩, ?_⟩
      · rw [if_neg hcontent, h.1]
        exact hfind
      · have hkeep : (L.point (some m) (L.next i)).content slot = L.content slot := by
          cases slot with
          | none => rfl
          | some k =>
            exact Function.update_of_ne (fun heq => hslot m hm (congrArg some heq)) _ _
        rw [hkeep, List.erase_cons_tail (by simpa using hne)]
        exact ⟨h.1, hchain⟩

end Slots

end Links
