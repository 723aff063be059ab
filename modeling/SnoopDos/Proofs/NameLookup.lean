import SnoopDos.Proofs.DirectoryListing

/-! The search of the directory by name: which strings find which entry. -/

namespace SnoopDos

/-- The string `s` names entry `e`: it is the entry's name, or it is too long for a
name and starts with a name that fills its field. -/
def Fs.Names (fs : Fs) (s : List UInt8) (e : ℕ) : Prop :=
  (fs.files e).name = s ∨ (FILE_NAME_SIZE < s.length ∧ (fs.files e).name = s.take FILE_NAME_SIZE)

section Lookup

variable {fs : Fs} {u : UserMem} {p : Addr} {s : List UInt8}

theorem readDentryIntoLoop_fst (dentry : Dentry) (n i : ℕ) :
    (readDentryIntoLoop fs (UserMem.stringAt p) dentry n i u).1 =
      ((readDentryLoop fs (UserMem.stringAt p) n i u).1.elim (FAILURE, dentry) fun entry =>
        (SUCCESS, entry)) := by
  induction n generalizing u i with
  | zero => rfl
  | succ n ih =>
    rw [readDentryIntoLoop, readDentryLoop, UserMem.bind_run, UserMem.bind_run]
    split_ifs
    · rfl
    · exact ih _

theorem readDentryByNameInto_fst (dentry : Dentry) :
    (readDentryByNameInto fs (UserMem.stringAt p) dentry u).1 =
      ((readDentryByName fs (UserMem.stringAt p) u).1.elim (FAILURE, dentry) fun entry =>
        (SUCCESS, entry)) :=
  readDentryIntoLoop_fst dentry _ _

theorem fieldString_take_of_holdsName (h : HoldsName u p s) (hs : NulFree s) (n : ℕ) :
    fieldString (charAt u p) n = s.take n := by
  refine (eq_fieldString _ _ (List.length_take_le n s) (fun j hj => ?_) fun hshort => ?_).symm
  · have hlt : j < s.length := hj.trans_le (List.length_take_le' n s)
    rw [List.getElem_take, h j hlt.le, List.getD_eq_getElem?_getD, List.getElem?_eq_getElem hlt,
      Option.getD_some]
    exact ⟨rfl, fun hnul => hs (hnul ▸ List.getElem_mem hlt)⟩
  · have hlen : (s.take n).length = s.length := by
      rw [List.length_take] at hshort ⊢
      omega
    rw [hlen, h _ le_rfl, List.getD_eq_getElem?_getD, List.getElem?_eq_none le_rfl,
      Option.getD_none]

theorem names_iff_take (e : ℕ) : fs.Names s e ↔ (fs.files e).name = s.take FILE_NAME_SIZE := by
  have hle : (fs.files e).name.length ≤ FILE_NAME_SIZE := fieldString_length_le _ _
  constructor
  · rintro (h | ⟨-, h⟩)
    · rw [List.take_of_length_le (h ▸ hle), h]
    · exact h
  · intro h
    rcases le_or_gt s.length FILE_NAME_SIZE with hshort | hlong
    · exact Or.inl (h.trans (List.take_of_length_le hshort))
    · exact Or.inr ⟨hlong, h⟩

/-- A string that fits a name names the entries with exactly this name. -/
theorem names_iff_of_length_le (hs : s.length ≤ FILE_NAME_SIZE) (e : ℕ) :
    fs.Names s e ↔ (fs.files e).name = s := by
  rw [names_iff_take, List.take_of_length_le hs]

theorem entryMatches_iff_names (h : HoldsName u p s) (hs : NulFree s) (e : ℕ) :
    fs.EntryMatches u p e ↔ fs.Names s e := by
  rw [entryMatches_iff, fieldString_take_of_holdsName h hs, names_iff_take, eq_comm]

end Lookup

/-- `read_dentry_by_name` delivers the first entry that the string names, and otherwise
fails and leaves the output parameter; a string of up to 32 characters names only the
entries whose name it is. -/
theorem name_lookup_exact (fs : Fs) (u : UserMem) (p : Addr) (s : List UInt8) (dentry : Dentry)
    (hcount : fs.direntries.toNat ≤ NUM_FILES_CAP) (hs : NulFree s) (hp : HoldsName u p s) :
    let r := (readDentryByNameInto fs (UserMem.stringAt p) dentry u).1
    ((r.1 = SUCCESS ↔ ∃ e < fs.direntries.toNat, fs.Names s e) ∧
      (∀ e < fs.direntries.toNat, fs.Names s e → (∀ e' < e, ¬ fs.Names s e') →
        r = (SUCCESS, fs.files e)) ∧
      ((∀ e < fs.direntries.toNat, ¬ fs.Names s e) → r = (FAILURE, dentry))) ∧
    (s.length ≤ FILE_NAME_SIZE → ∀ e, fs.Names s e ↔ (fs.files e).name = s) := by
  intro r
  have hbound : fs.direntries.toInt.toNat = fs.direntries.toNat := by
    rw [direntries_toInt fs hcount, Int.toNat_natCast]
  have hnames (e : ℕ) : fs.EntryMatches u p e ↔ fs.Names s e := entryMatches_iff_names hp hs e
  have hr : r = _ := readDentryByNameInto_fst dentry
  refine ⟨?_, fun hlen e => names_iff_of_length_le hlen e⟩
  rcases readDentryByName_fst fs u p with ⟨e, ⟨he, hmatch, hfirst⟩, hfound⟩ | ⟨hnone, hfound⟩
  · rw [hfound] at hr
    have hname := (hnames e).mp hmatch
    refine ⟨⟨fun _ => ⟨e, hbound ▸ he, hname⟩, fun _ => congrArg Prod.fst hr⟩,
      fun e₁ _ hname₁ hfirst₁ => ?_, fun hno => absurd hname (hno e (hbound ▸ he))⟩
    rcases lt_trichotomy e e₁ with hlt | rfl | hgt
    · exact absurd hname (hfirst₁ e hlt)
    · exact hr
    · exact absurd ((hnames e₁).mpr hname₁) (hfirst e₁ hgt)
  · rw [hfound] at hr
    have hno (e : ℕ) (he : e < fs.direntries.toNat) : ¬ fs.Names s e :=
      fun h => hnone e (hbound ▸ he) ((hnames e).mpr h)
    refine ⟨⟨fun hok => ?_, fun ⟨e, he, h⟩ => absurd h (hno e he)⟩,
      fun e he h _ => absurd h (hno e he), fun _ => hr⟩
    rw [hr] at hok
    exact absurd (show FAILURE = SUCCESS from hok) (by decide)

/-- Memory with the string `shell` at the start of the program. -/
def nameShell : UserMem := ⟨fun a => SHELL.getD (a - 0x8048000#32).toNat NULL_CHAR, []⟩

theorem nameShell_holdsName : HoldsName nameShell 0x8048000#32 SHELL := by
  unfold HoldsName
  decide

theorem name_lookup_exact_shell :
    (readDentryByNameInto shellFs (UserMem.stringAt 0x8048000#32) (shellFs.files 1)
      nameShell).1.1 = SUCCESS :=
  (name_lookup_exact shellFs nameShell 0x8048000#32 SHELL (shellFs.files 1) (by decide) (by decide)
    nameShell_holdsName).1.1.mpr ⟨0, by decide, Or.inl (by decide)⟩

end SnoopDos
