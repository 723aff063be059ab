import Mathlib.Data.List.TakeWhile
import SnoopDos.Spec.Strings

/-! The string functions on kernel strings, and what they read or write when the
string lies behind a user pointer. -/

namespace SnoopDos

section KernelStrings

theorem strlen_run_succ (s : ℕ → Id UInt8) (fuel i : ℕ) : Id.run (strlen s (fuel + 1) i) =
    if Id.run (s i) = NULL_CHAR then some i else Id.run (strlen s fuel (i + 1)) := by
  rw [strlen, Id.run_bind]
  split_ifs <;> rfl

theorem strcpy_run_succ (s : ℕ → Id UInt8) (fuel i : ℕ) : Id.run (strcpy s (fuel + 1) i) =
    if Id.run (s i) = NULL_CHAR then [] else Id.run (s i) :: Id.run (strcpy s fuel (i + 1)) := by
  rw [strcpy, Id.run_bind]
  split_ifs <;> rfl

theorem strlen_run_ne_none (s : ℕ → Id UInt8) (fuel i j : ℕ) (hij : i ≤ j) (hj : j < i + fuel)
    (hend : Id.run (s j) = NULL_CHAR) : Id.run (strlen s fuel i) ≠ none := by
  induction fuel generalizing i with
  | zero => omega
  | succ fuel ih =>
    rw [strlen_run_succ]
    split_ifs with hi
    · simp
    · have hne : i ≠ j := fun heq => hi (heq ▸ hend)
      exact ih (i + 1) (by omega) (by omega)

theorem strlen_run_lt (s : ℕ → Id UInt8) (fuel i : ℕ) {n : ℕ}
    (h : Id.run (strlen s fuel i) = some n) : n < i + fuel := by
  induction fuel generalizing i with
  | zero => cases h
  | succ fuel ih =>
    rw [strlen_run_succ] at h
    split_ifs at h
    · obtain rfl := Option.some.inj h
      omega
    · have hlt := ih (i + 1) h
      omega

theorem strlen_run_eq (s : ℕ → Id UInt8) (fuel i n : ℕ) (hi : i ≤ n) (hfuel : n < i + fuel)
    (hne : ∀ j, i ≤ j → j < n → Id.run (s j) ≠ NULL_CHAR) (hend : Id.run (s n) = NULL_CHAR) :
    Id.run (strlen s fuel i) = some n := by
  induction fuel generalizing i with
  | zero => omega
  | succ fuel ih =>
    rw [strlen_run_succ]
    rcases hi.eq_or_lt with rfl | hlt
    · rw [if_pos hend]
    · rw [if_neg (hne i le_rfl hlt)]
      exact ih (i + 1) hlt (by omega) fun j hj => hne j (by omega)

/-- No character of a C string is its terminator. -/
def NulFree (l : List UInt8) : Prop := NULL_CHAR ∉ l

instance (l : List UInt8) : Decidable (NulFree l) := inferInstanceAs (Decidable (_ ∉ _))

variable {l : List UInt8}

theorem ofList_run_of_lt {i : ℕ} (hi : i < l.length) : Id.run (ofList l i) = l[i] := by
  change l.getD i NULL_CHAR = l[i]
  rw [List.getD_eq_getElem?_getD, List.getElem?_eq_getElem hi, Option.getD_some]

theorem ofList_run_of_ge {i : ℕ} (hi : l.length ≤ i) : Id.run (ofList l i) = NULL_CHAR := by
  change l.getD i NULL_CHAR = NULL_CHAR
  rw [List.getD_eq_getElem?_getD, List.getElem?_eq_none hi, Option.getD_none]

theorem strlen_ofList (hl : NulFree l) (fuel i : ℕ) (hi : i ≤ l.length) (hfuel : l.length < fuel + i) :
    Id.run (strlen (ofList l) fuel i) = some l.length := by
  refine strlen_run_eq _ fuel i _ hi (by omega) (fun j _ hj => ?_) (ofList_run_of_ge le_rfl)
  rw [ofList_run_of_lt hj]
  exact fun h => hl (h ▸ List.getElem_mem hj)

theorem strcpy_ofList (hl : NulFree l) (fuel i : ℕ) (hi : i ≤ l.length) (hfuel : l.length < fuel + i) :
    Id.run (strcpy (ofList l) fuel i) = l.drop i := by
  induction fuel generalizing i with
  | zero => omega
  | succ fuel ih =>
    rw [strcpy_run_succ]
    rcases hi.eq_or_lt with rfl | hlt
    · rw [ofList_run_of_ge le_rfl, if_pos rfl, List.drop_length]
    · have hne : l[i] ≠ NULL_CHAR := fun h => hl (h ▸ List.getElem_mem hlt)
      rw [ofList_run_of_lt hlt, if_neg hne, ih (i + 1) hlt (by omega), ← List.drop_eq_getElem_cons hlt]

variable (t : ℕ → UInt8) (n : ℕ)

theorem fieldString_length_le : (fieldString t n).length ≤ n := by
  have h := (List.takeWhile_prefix (l := (List.range n).map t) (· ≠ NULL_CHAR)).length_le
  rwa [List.length_map, List.length_range] at h

theorem fieldString_getElem {j : ℕ} (hj : j < (fieldString t n).length) :
    (fieldString t n)[j] = t j := by
  have htake := List.takeWhile_prefix (l := (List.range n).map t) (· ≠ NULL_CHAR)
  refine (htake.getElem hj).trans ?_
  rw [List.getElem_map, List.getElem_range]

theorem fieldString_nulFree : NulFree (fieldString t n) := fun h => by
  simpa using List.mem_takeWhile_imp h

theorem fieldString_ne {j : ℕ} (hj : j < (fieldString t n).length) : t j ≠ NULL_CHAR := by
  intro h
  have hmem := List.getElem_mem hj
  rw [fieldString_getElem, h] at hmem
  exact fieldString_nulFree t n hmem

theorem fieldString_end (h : (fieldString t n).length < n) :
    t (fieldString t n).length = NULL_CHAR := by
  have hsplit : fieldString t n ++ ((List.range n).map t).dropWhile (· ≠ NULL_CHAR) =
      (List.range n).map t := List.takeWhile_append_dropWhile
  have hrest : ((List.range n).map t).dropWhile (· ≠ NULL_CHAR) ≠ [] := by
    intro hnil
    have hlen := congrArg List.length hsplit
    rw [hnil, List.append_nil, List.length_map, List.length_range] at hlen
    exact h.ne hlen
  have hget := congrArg (·[(fieldString t n).length]?) hsplit
  simp only [List.getElem?_append_right le_rfl, Nat.sub_self, ← List.head?_eq_getElem?,
    List.head?_eq_some_head hrest, List.getElem?_map, List.getElem?_range h, Option.map_some,
    Option.some.injEq] at hget
  rw [← hget]
  simpa using List.head_dropWhile_not (· ≠ NULL_CHAR) hrest

theorem eq_fieldString (hle : l.length ≤ n) (hl : ∀ j (hj : j < l.length), t j = l[j] ∧ l[j] ≠ NULL_CHAR)
    (hend : l.length < n → t l.length = NULL_CHAR) : l = fieldString t n := by
  have hlen : l.length = (fieldString t n).length := by
    rcases Nat.lt_trichotomy l.length (fieldString t n).length with hlt | heq | hgt
    · exact absurd (hend (hlt.trans_le (fieldString_length_le t n))) (fieldString_ne t n hlt)
    · exact heq
    · obtain ⟨hbyte, hne⟩ := hl _ hgt
      exact absurd (hbyte.symm.trans (fieldString_end t n (hgt.trans_le hle))) hne
  refine List.ext_getElem hlen fun j h1 h2 => ?_
  rw [fieldString_getElem, (hl j h1).1]

theorem fieldString_one {s : ℕ → UInt8} (h : s 0 ≠ NULL_CHAR) : fieldString s 1 = [s 0] := by
  rw [fieldString, List.range_one, List.map_singleton, List.takeWhile_cons,
    if_pos (decide_eq_true h), List.takeWhile_nil]

end KernelStrings

section UserStrings

open UserMem

variable (u : UserMem) (p : Addr)

def charAt (i : ℕ) : UInt8 := u.bytes (p + BitVec.ofNat 32 i)

/-- A property of all indices from `i` up to `j` is one of the first and of the rest. -/
theorem forall_from_iff {P : ℕ → Prop} {i j : ℕ} (hij : i < j) :
    (∀ l, i ≤ l → l < j → P l) ↔ P i ∧ ∀ l, i + 1 ≤ l → l < j → P l := by
  constructor
  · exact fun h => ⟨h i le_rfl hij, fun l h1 h2 => h l (by omega) h2⟩
  · rintro ⟨hi, h⟩ l h1 h2
    rcases h1.eq_or_lt with rfl | hlt
    · exact hi
    · exact h l hlt h2

/-- The strings agree, and go on, at every index from `i` up to `j`. -/
def AgreeTo (s t : ℕ → UInt8) (i j : ℕ) : Prop :=
  ∀ l, i ≤ l → l < j → s l = t l ∧ s l ≠ NULL_CHAR

theorem agreeTo_self (s t : ℕ → UInt8) (i : ℕ) : AgreeTo s t i i := fun l h1 h2 => by omega

theorem agreeTo_succ_iff {s t : ℕ → UInt8} {i j : ℕ} (hij : i < j) :
    AgreeTo s t i j ↔ (s i = t i ∧ s i ≠ NULL_CHAR) ∧ AgreeTo s t (i + 1) j :=
  forall_from_iff hij

theorem strncmp_run_succ (t : ℕ → UInt8) (n i : ℕ) :
    strncmp (stringAt p) t (n + 1) i u =
      let u' := { u with touched := u.touched ++ [p + BitVec.ofNat 32 i] }
      if charAt u p i ≠ t i ∨ charAt u p i = NULL_CHAR then
        ((charAt u p i).toInt8.toInt - (t i).toInt8.toInt, u')
      else strncmp (stringAt p) t n (i + 1) u' := by
  rw [strncmp, bind_run]
  simp only [stringAt_fst]
  change (if charAt u p i ≠ t i ∨ charAt u p i = NULL_CHAR then _ else _ : User Int) _ = _
  split_ifs <;> rfl

theorem strncmp_bytes (t : ℕ → UInt8) (n i : ℕ) :
    (strncmp (stringAt p) t n i u).2.bytes = u.bytes := by
  induction n generalizing u i with
  | zero => rfl
  | succ n ih =>
    rw [strncmp_run_succ]
    simp only
    split_ifs
    · rfl
    · rw [ih]

/-- `strncmp` examines index `j` when the strings agree and go on before it. -/
theorem touches_strncmp (t : ℕ → UInt8) (n i : ℕ) :
    Touches u (strncmp (stringAt p) t n i u).2 p fun j =>
      i ≤ j ∧ j < i + n ∧ AgreeTo (charAt u p) t i j := by
  induction n generalizing u i with
  | zero => exact Touches.none fun j => by omega
  | succ n ih =>
    have hfirst : Touches u (load (p + BitVec.ofNat 32 i) u).2 p (· = i) := touches_load u p i
    rw [strncmp_run_succ]
    simp only
    split_ifs with hstop
    · refine hfirst.congr fun j => ⟨?_, ?_⟩
      · rintro rfl
        exact ⟨le_rfl, by omega, agreeTo_self _ _ _⟩
      · rintro ⟨h1, h2, hagree⟩
        rcases h1.eq_or_lt with rfl | hlt
        · rfl
        · have hi := hagree i le_rfl hlt
          rcases hstop with hne | hnul
          · exact absurd hi.1 hne
          · exact absurd hnul hi.2
    · rw [not_or, not_not] at hstop
      refine (hfirst.trans (ih _ (i + 1))).congr fun j => ⟨?_, ?_⟩
      · rintro (rfl | ⟨h1, h2, hagree⟩)
        · exact ⟨le_rfl, by omega, agreeTo_self _ _ _⟩
        · exact ⟨by omega, by omega, (agreeTo_succ_iff (by omega)).mpr ⟨hstop, hagree⟩⟩
      · rintro ⟨h1, h2, hagree⟩
        rcases h1.eq_or_lt with rfl | hlt
        · exact Or.inl rfl
        · exact Or.inr ⟨hlt, by omega, ((agreeTo_succ_iff hlt).mp hagree).2⟩

/-- The string does not end at an index from `i` up to `j`. -/
def ScanTo (s : ℕ → UInt8) (i j : ℕ) : Prop := ∀ l, i ≤ l → l < j → s l ≠ NULL_CHAR

theorem scanTo_self (s : ℕ → UInt8) (i : ℕ) : ScanTo s i i := fun l h1 h2 => by omega

theorem scanTo_succ_iff {s : ℕ → UInt8} {i j : ℕ} (hij : i < j) :
    ScanTo s i j ↔ s i ≠ NULL_CHAR ∧ ScanTo s (i + 1) j :=
  forall_from_iff hij

theorem strlen_user_succ (fuel i : ℕ) :
    strlen (stringAt p) (fuel + 1) i u =
      let u' := { u with touched := u.touched ++ [p + BitVec.ofNat 32 i] }
      if charAt u p i = NULL_CHAR then (some i, u') else strlen (stringAt p) fuel (i + 1) u' := by
  rw [strlen, bind_run]
  simp only [stringAt_fst]
  change (if charAt u p i = NULL_CHAR then _ else _ : User (Option ℕ)) _ = _
  split_ifs <;> rfl

/-- `strlen` examines index `j` when the string does not end before it. -/
theorem touches_strlen (fuel i : ℕ) : Touches u (strlen (stringAt p) fuel i u).2 p fun j =>
    i ≤ j ∧ j < i + fuel ∧ ScanTo (charAt u p) i j := by
  induction fuel generalizing u i with
  | zero => exact Touches.none fun j => by omega
  | succ fuel ih =>
    have hfirst : Touches u (load (p + BitVec.ofNat 32 i) u).2 p (· = i) := touches_load u p i
    rw [strlen_user_succ]
    simp only
    split_ifs with hstop
    · refine hfirst.congr fun j => ⟨?_, ?_⟩
      · rintro rfl
        exact ⟨le_rfl, by omega, scanTo_self _ _⟩
      · rintro ⟨h1, h2, hscan⟩
        rcases h1.eq_or_lt with rfl | hlt
        · rfl
        · exact absurd hstop (hscan i le_rfl hlt)
    · refine (hfirst.trans (ih _ (i + 1))).congr fun j => ⟨?_, ?_⟩
      · rintro (rfl | ⟨h1, h2, hscan⟩)
        · exact ⟨le_rfl, by omega, scanTo_self _ _⟩
        · exact ⟨by omega, by omega, (scanTo_succ_iff (by omega)).mpr ⟨hstop, hscan⟩⟩
      · rintro ⟨h1, h2, hscan⟩
        rcases h1.eq_or_lt with rfl | hlt
        · exact Or.inl rfl
        · exact Or.inr ⟨hlt, by omega, ((scanTo_succ_iff hlt).mp hscan).2⟩

theorem strlen_user_bytes (fuel i : ℕ) : (strlen (stringAt p) fuel i u).2.bytes = u.bytes := by
  induction fuel generalizing u i with
  | zero => rfl
  | succ fuel ih =>
    rw [strlen_user_succ]
    simp only
    split_ifs
    · rfl
    · rw [ih]

theorem strcpy_user_snd (fuel i : ℕ) :
    (strcpy (stringAt p) fuel i u).2 = (strlen (stringAt p) fuel i u).2 := by
  induction fuel generalizing u i with
  | zero => rfl
  | succ fuel ih =>
    rw [strlen_user_succ, strcpy, bind_run]
    simp only [stringAt_fst]
    change ((if charAt u p i = NULL_CHAR then _ else _ : User (List UInt8)) _).2 = _
    split_ifs
    · rfl
    · exact ih _ _

/-- The names match: they agree up to the end of one, or for `n` characters. -/
def NameMatches (s t : ℕ → UInt8) (n i : ℕ) : Prop :=
  ∀ j, i ≤ j → j < i + n → AgreeTo s t i j → s j = t j

theorem NameMatches.agreeTo_of_scanTo {s t : ℕ → UInt8} {n i j : ℕ} (h : NameMatches s t n i)
    (hj : j ≤ i + n) (hscan : ScanTo s i j) : AgreeTo s t i j := by
  induction j with
  | zero => exact fun l h1 h2 => by omega
  | succ j ih =>
    have hagree : AgreeTo s t i j := ih (by omega) fun l h1 h2 => hscan l h1 (by omega)
    intro l h1 h2
    rcases (Nat.lt_succ_iff.mp h2).eq_or_lt with rfl | hlt
    · exact ⟨h l h1 (by omega) hagree, hscan l h1 h2⟩
    · exact hagree l h1 hlt

theorem strncmp_eq_zero_iff (t : ℕ → UInt8) (n i : ℕ) :
    (strncmp (stringAt p) t n i u).1 = 0 ↔ NameMatches (charAt u p) t n i := by
  induction n generalizing u i with
  | zero => exact iff_of_true rfl fun j h1 h2 => by omega
  | succ n ih =>
    rw [strncmp_run_succ]
    simp only
    split_ifs with hstop
    · have hzero : (charAt u p i).toInt8.toInt - (t i).toInt8.toInt = 0 ↔ charAt u p i = t i := by
        rw [sub_eq_zero, Int8.toInt_inj]
        exact ⟨fun h => by simpa using congrArg Int8.toUInt8 h, fun h => by rw [h]⟩
      refine hzero.trans ⟨fun h j h1 h2 hagree => ?_, fun h => h i le_rfl (by omega)
        (agreeTo_self _ _ _)⟩
      rcases h1.eq_or_lt with rfl | hlt
      · exact h
      · exfalso
        rcases hstop with hne | hnul
        · exact hne h
        · exact (hagree i le_rfl hlt).2 hnul
    · rw [not_or, not_not] at hstop
      rw [ih]
      constructor
      · intro h j h1 h2 hagree
        rcases h1.eq_or_lt with rfl | hlt
        · exact hstop.1
        · exact h j hlt (by omega) ((agreeTo_succ_iff hlt).mp hagree).2
      · intro h j h1 h2 hagree
        exact h j (by omega) (by omega) ((agreeTo_succ_iff (by omega)).mpr ⟨hstop, hagree⟩)

/-- `strncmp` finds no difference between two fields exactly when they hold one string. -/
theorem nameMatches_iff (s t : ℕ → UInt8) (n : ℕ) :
    NameMatches s t n 0 ↔ fieldString s n = fieldString t n := by
  have hle := fieldString_length_le s n
  constructor
  · intro h
    have hagree : AgreeTo s t 0 (fieldString s n).length :=
      h.agreeTo_of_scanTo (by omega) fun j _ hj => fieldString_ne s n hj
    refine eq_fieldString t n hle (fun j hj => ?_) fun hlt => ?_
    · rw [fieldString_getElem]
      exact ⟨(hagree j (Nat.zero_le j) hj).1.symm, fieldString_ne s n hj⟩
    · rw [← h _ (Nat.zero_le _) (by omega) hagree]
      exact fieldString_end s n hlt
  · intro heq j _ hj hagree
    rcases Nat.lt_trichotomy j (fieldString s n).length with hlt | rfl | hgt
    · have ht : j < (fieldString t n).length := heq ▸ hlt
      rw [← fieldString_getElem s n hlt, ← fieldString_getElem t n ht]
      simp only [heq]
    · rw [fieldString_end s n (by omega), heq]
      exact (fieldString_end t n (heq ▸ by omega)).symm
    · exact absurd (fieldString_end s n (by omega)) (hagree _ (Nat.zero_le _) hgt).2

/-- The copying loop of `strncpy` fills the indices it goes through. -/
theorem touches_strncpyCopy (src : ℕ → UInt8) (n i : ℕ) :
    i ≤ (strncpyCopy p src n i u).1 ∧ (strncpyCopy p src n i u).1 ≤ i + n ∧
      Touches u (strncpyCopy p src n i u).2 p fun j => i ≤ j ∧ j < (strncpyCopy p src n i u).1 := by
  induction n generalizing u i with
  | zero => exact ⟨le_rfl, le_rfl, Touches.none fun j => by rw [strncpyCopy, pure_run]; omega⟩
  | succ n ih =>
    rw [strncpyCopy]
    split_ifs with hend
    · obtain ⟨h1, h2, h3⟩ := ih (store (p + BitVec.ofNat 32 i) (src i) u).2 (i + 1)
      rw [bind_run]
      refine ⟨by omega, by omega, ((touches_store u p i (src i)).trans h3).congr fun j => by omega⟩
    · exact ⟨le_rfl, by rw [pure_run]; omega, Touches.none fun j => by rw [pure_run]; omega⟩

theorem touches_strncpyPad (n i : ℕ) :
    Touches u (strncpyPad p n i u).2 p fun j => i ≤ j ∧ j < i + n := by
  induction n generalizing u i with
  | zero => exact Touches.none fun j => by omega
  | succ n ih =>
    rw [strncpyPad, bind_run]
    exact ((touches_store u p i NULL_CHAR).trans (ih _ (i + 1))).congr fun j => by omega

/-- `strncpy` writes `n` bytes, whatever the length of the string. -/
theorem touches_strncpy (src : ℕ → UInt8) (n : ℕ) : Touches u (strncpy p src n u).2 p (· < n) := by
  obtain ⟨h1, h2, h3⟩ := touches_strncpyCopy u p src n 0
  rw [strncpy, bind_run]
  exact (h3.trans (touches_strncpyPad _ p _ _)).congr fun j => by omega

theorem charAt_store {i j : ℕ} (hi : i < 2 ^ 32) (hj : j < 2 ^ 32) (c : UInt8) :
    charAt (store (p + BitVec.ofNat 32 i) c u).2 p j = if j = i then c else charAt u p j := by
  rw [charAt, store]
  simp only [Function.update_apply, BitVec.add_right_inj, charAt]
  refine if_congr ⟨fun h => ?_, fun h => by rw [h]⟩ rfl rfl
  have hnat := congrArg BitVec.toNat h
  rwa [BitVec.toNat_ofNat, BitVec.toNat_ofNat, Nat.mod_eq_of_lt hi, Nat.mod_eq_of_lt hj] at hnat

/-- The copying loop of `strncpy` stops at the terminator or the bound. -/
theorem charAt_strncpyCopy (src : ℕ → UInt8) (n i : ℕ) (hn : i + n ≤ 2 ^ 32) :
    ScanTo src i (strncpyCopy p src n i u).1 ∧
      ((strncpyCopy p src n i u).1 < i + n → src (strncpyCopy p src n i u).1 = NULL_CHAR) ∧
      ∀ j < 2 ^ 32, charAt (strncpyCopy p src n i u).2 p j =
        if i ≤ j ∧ j < (strncpyCopy p src n i u).1 then src j else charAt u p j := by
  induction n generalizing u i with
  | zero =>
    refine ⟨scanTo_self _ _, fun h => absurd h (lt_irrefl i), fun j _ => (if_neg ?_).symm⟩
    exact fun h => absurd (h.1.trans_lt h.2) (lt_irrefl i)
  | succ n ih =>
    rw [strncpyCopy]
    split_ifs with hgo
    · obtain ⟨hscan, hend, hbytes⟩ := ih (store (p + BitVec.ofNat 32 i) (src i) u).2 (i + 1)
        (by omega)
      have hle := (touches_strncpyCopy (store (p + BitVec.ofNat 32 i) (src i) u).2 p src n
        (i + 1)).1
      rw [bind_run]
      refine ⟨(scanTo_succ_iff hle).mpr ⟨hgo, hscan⟩, fun h => hend (by omega), fun j hj => ?_⟩
      rw [hbytes j hj, charAt_store u p (by omega) hj]
      rcases eq_or_ne j i with rfl | hne
      · rw [if_neg (by omega), if_pos rfl, if_pos (by omega)]
      · rw [if_neg hne]
        exact if_congr (by omega) rfl rfl
    · refine ⟨scanTo_self _ _, fun _ => not_not.mp hgo, fun j _ => (if_neg ?_).symm⟩
      exact fun h => absurd (h.1.trans_lt h.2) (lt_irrefl i)

theorem charAt_strncpyPad (n i : ℕ) (hn : i + n ≤ 2 ^ 32) : ∀ j < 2 ^ 32,
    charAt (strncpyPad p n i u).2 p j = if i ≤ j ∧ j < i + n then NULL_CHAR else charAt u p j := by
  induction n generalizing u i with
  | zero => exact fun j _ => (if_neg (by omega)).symm
  | succ n ih =>
    intro j hj
    rw [strncpyPad, bind_run, ih _ (i + 1) (by omega) j hj, charAt_store u p (by omega) hj]
    rcases eq_or_ne j i with rfl | hne
    · rw [if_neg (by omega), if_pos rfl, if_pos (by omega)]
    · rw [if_neg hne]
      exact if_congr (by omega) rfl rfl

theorem charAt_strncpy (src : ℕ → UInt8) (n : ℕ) (hn : n ≤ 2 ^ 32) {j : ℕ} (hj : j < 2 ^ 32) :
    charAt (strncpy p src n u).2 p j =
      if j < n then (fieldString src n).getD j NULL_CHAR else charAt u p j := by
  obtain ⟨hscan, hend, hbytes⟩ := charAt_strncpyCopy u p src n 0 (by omega)
  obtain ⟨-, hle, -⟩ := touches_strncpyCopy u p src n 0
  rw [strncpy, bind_run]
  generalize strncpyCopy p src n 0 u = r at *
  have hfield : (List.range r.1).map src = fieldString src n := by
    refine eq_fieldString src n ?_ (fun i hi => ?_) fun h => ?_
    · rw [List.length_map, List.length_range]
      omega
    · rw [List.length_map, List.length_range] at hi
      rw [List.getElem_map, List.getElem_range]
      exact ⟨rfl, hscan i (Nat.zero_le i) hi⟩
    · rw [List.length_map, List.length_range] at h ⊢
      exact hend (by omega)
  rw [charAt_strncpyPad _ _ _ _ (by omega) j hj, hbytes j hj, ← hfield,
    List.getD_eq_getElem?_getD, List.getElem?_map]
  by_cases hcopied : j < r.1
  · rw [if_neg (by omega), if_pos ⟨Nat.zero_le j, hcopied⟩, if_pos (by omega),
      List.getElem?_range hcopied]
    rfl
  · have hnot : ¬ (0 ≤ j ∧ j < r.1) := fun h => hcopied h.2
    rw [List.getElem?_eq_none (by rw [List.length_range]; omega)]
    simp only [if_neg hnot]
    exact if_congr (by omega) rfl rfl

theorem strlen_user_fst {fuel i len : ℕ} (hi : i ≤ len) (hfuel : len < i + fuel)
    (hscan : ScanTo (charAt u p) i len) (hend : charAt u p len = NULL_CHAR) :
    (strlen (stringAt p) fuel i u).1 = some len := by
  induction fuel generalizing u i with
  | zero => omega
  | succ fuel ih =>
    rw [strlen_user_succ]
    rcases hi.eq_or_lt with rfl | hlt
    · simp only [if_pos hend]
    · obtain ⟨hne, hrest⟩ := (scanTo_succ_iff hlt).mp hscan
      simp only [if_neg hne]
      exact ih _ hlt (by omega) hrest hend

end UserStrings

end SnoopDos
