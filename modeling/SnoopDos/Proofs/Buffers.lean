import SnoopDos.Proofs.Consoles
import SnoopDos.Proofs.DirectoryListing
import SnoopDos.Proofs.LineBuffer

/-! What system calls do with a buffer of a given size: `getargs`, which is to deliver
a string or fail, `read_directory`, which is to stay within the size, and
`write_terminal`, which is to report what it wrote. -/

namespace SnoopDos

open Kernel UserMem

section Getargs

/-- `getargs` delivers the arguments with their terminator, or fails. -/
structure GetargsDelivers (k : Kernel) (args : List UInt8) (buf : Addr) (numBytes : Word)
    (u : UserMem) : Prop where
  returns : (k.getargs buf numBytes u).1 = some SUCCESS ∨
    (k.getargs buf numBytes u).1 = some FAILURE
  success_iff : (k.getargs buf numBytes u).1 = some SUCCESS ↔
    0 ≤ numBytes.toInt ∧ (args.length : ℤ) + 1 ≤ numBytes.toInt
  delivered : (k.getargs buf numBytes u).1 = some SUCCESS →
    HoldsName (k.getargs buf numBytes u).2 buf args
  bounded : (k.getargs buf numBytes u).1 = some SUCCESS →
    ∀ a ∈ (k.getargs buf numBytes u).2.touched, a ∈ u.touched ∨ a ∈ span buf numBytes.toNat
  unchanged : (k.getargs buf numBytes u).1 = some FAILURE → (k.getargs buf numBytes u).2 = u

variable {k : Kernel} {args : List UInt8} {buf : Addr} {numBytes : Word}

theorem fieldString_ofList {l : List UInt8} (hl : NulFree l) {n : ℕ} (hn : l.length ≤ n) :
    fieldString (fun i => Id.run (ofList l i)) n = l := by
  refine (eq_fieldString _ _ hn (fun j hj => ⟨ofList_run_of_lt hj, ?_⟩) fun _ => ?_).symm
  · exact fun hnul => hl (hnul ▸ List.getElem_mem hj)
  · exact ofList_run_of_ge le_rfl

theorem getargs_run (hargs : k.currentPcb.args = some args) (hnul : NulFree args)
    (hin : inWindow buf) (hn : 0 ≤ numBytes.toInt) (u : UserMem) :
    k.getargs buf numBytes u =
      if numBytes.toNat < args.length then (some FAILURE, u)
      else (some SUCCESS, (strncpy buf (fun i => Id.run (ofList args i)) numBytes.toNat u).2) := by
  have hlen := strlen_ofList hnul (args.length + 1) 0 (Nat.zero_le _) (by omega)
  rw [getargs, if_neg (not_lt.mpr hn), if_neg (not_not.mpr hin), hargs]
  simp only [hlen, Option.getD_some]
  split_ifs
  · rfl
  · rfl

theorem getargs_negative (hn : numBytes.toInt < 0) (u : UserMem) :
    k.getargs buf numBytes u = (some FAILURE, u) := by
  rw [getargs, if_pos hn]
  rfl

theorem success_ne_failure : (some SUCCESS : Option Word) ≠ some FAILURE := by decide

/-- A call that fails changes nothing, and is right to fail when the string does not fit. -/
theorem getargsDelivers_of_failed {u : UserMem}
    (hrun : k.getargs buf numBytes u = (some FAILURE, u))
    (hfits : ¬ (0 ≤ numBytes.toInt ∧ (args.length : ℤ) + 1 ≤ numBytes.toInt)) :
    GetargsDelivers k args buf numBytes u := by
  have hfailed : (k.getargs buf numBytes u).1 ≠ some SUCCESS := by
    rw [hrun]
    exact success_ne_failure.symm
  exact ⟨Or.inr (by rw [hrun]), iff_of_false hfailed hfits, fun h => absurd h hfailed,
    fun h => absurd h hfailed, fun _ => by rw [hrun]⟩

theorem toInt_of_nonneg (hn : 0 ≤ numBytes.toInt) : numBytes.toInt = numBytes.toNat := by
  have h := BitVec.toInt_eq_toNat_cond numBytes
  split_ifs at h
  · exact h
  · omega

theorem getargs_fits (hargs : k.currentPcb.args = some args) (hnul : NulFree args)
    (hin : inWindow buf) (hfits : (args.length : ℤ) < numBytes.toInt) (u : UserMem) :
    (k.getargs buf numBytes u).1 = some SUCCESS ∧ HoldsName (k.getargs buf numBytes u).2 buf args := by
  have hn : 0 ≤ numBytes.toInt := by omega
  have hint := toInt_of_nonneg hn
  have hrun := getargs_run hargs hnul hin hn u
  rw [if_neg (by omega)] at hrun
  refine ⟨by rw [hrun], fun j hj => ?_⟩
  have hroom : j < numBytes.toNat := by omega
  rw [hrun, charAt_strncpy u buf _ _ (by omega) (by omega), if_pos hroom,
    fieldString_ofList hnul (by omega)]

/-- `getargs` delivers a terminated string or fails, exactly when the string without
its terminator does not fill the buffer. -/
theorem getargs_delivers (k : Kernel) (args : List UInt8) (buf : Addr) (numBytes : Word)
    (u : UserMem) (hargs : k.currentPcb.args = some args) (hnul : NulFree args)
    (hin : inWindow buf) :
    GetargsDelivers k args buf numBytes u ↔ (args.length : ℤ) ≠ numBytes.toInt := by
  rcases lt_or_ge numBytes.toInt 0 with hneg | hn
  · exact iff_of_true (getargsDelivers_of_failed (getargs_negative hneg u) (by omega)) (by omega)
  have hint := toInt_of_nonneg hn
  have hrun := getargs_run hargs hnul hin hn u
  by_cases hlong : numBytes.toNat < args.length
  · rw [if_pos hlong] at hrun
    exact iff_of_true (getargsDelivers_of_failed hrun (by omega)) (by omega)
  rw [if_neg hlong] at hrun
  have hdone : (k.getargs buf numBytes u).1 = some SUCCESS := by rw [hrun]
  constructor
  · intro h heq
    have hfits := (h.success_iff.mp hdone).2
    omega
  · intro hne
    refine ⟨Or.inl hdone, iff_of_true hdone ⟨hn, by omega⟩,
      fun _ => (getargs_fits hargs hnul hin (by omega) u).2, fun _ a ha => ?_,
      fun h => absurd (hdone.symm.trans h) success_ne_failure⟩
    rw [hrun] at ha
    rcases (touches_strncpy u buf _ _ a).mp ha with hold | ⟨i, hi, rfl⟩
    · exact Or.inl hold
    · exact Or.inr ((mem_span _).mpr ⟨i, hi, rfl⟩)

/-- The first shell with the arguments `ab`. -/
def shellWithArgs : Kernel :=
  shellKernel.setPcb shellKernel.pcbCurr fun p => { p with args := some [97, 98] }

theorem getargs_delivers_three :
    GetargsDelivers shellWithArgs [97, 98] 0x8048000#32 3#32 ⟨fun _ => 0, []⟩ :=
  (getargs_delivers shellWithArgs [97, 98] 0x8048000#32 3#32 ⟨fun _ => 0, []⟩ (by decide)
    (by decide) (by decide)).mpr (by decide)

/-- Into two bytes `ab` is copied without its terminator. -/
theorem getargs_unterminated :
    ¬ GetargsDelivers shellWithArgs [97, 98] 0x8048000#32 2#32 ⟨fun _ => 0, []⟩ := by
  intro h
  have hdone : (shellWithArgs.getargs 0x8048000#32 2#32 ⟨fun _ => 0, []⟩).1 = some SUCCESS := by
    decide
  exact absurd (h.success_iff.mp hdone).2 (by decide)

end Getargs

section Directory

variable {fs : Fs} {k : Kernel} {u : UserMem} {fd : ℕ} {buf : Addr} {nbytes : Word}

/-- `read_directory` delivers as much of a name as the buffer holds, and stays within
the buffer and within the name. -/
structure DirectoryHonours (fs : Fs) (k : Kernel) (fd : ℕ) (buf : Addr) (nbytes : Word)
    (bytes : Addr → UInt8) : Prop where
  ret : (k.readDirectory fs fd buf nbytes ⟨bytes, []⟩).1.1.toNat =
    min nbytes.toNat (fs.files (k.fds fd).position.toNat).name.length
  delivered : ∀ j (hj : j < (fs.files (k.fds fd).position.toNat).name.length), j < nbytes.toNat →
    charAt (k.readDirectory fs fd buf nbytes ⟨bytes, []⟩).2 buf j =
      (fs.files (k.fds fd).position.toNat).name[j]
  bounded : ∀ a ∈ (k.readDirectory fs fd buf nbytes ⟨bytes, []⟩).2.touched,
    a ∈ span buf nbytes.toNat
  field : (strncpyCopy buf (fs.files (k.fds fd).position.toNat).filename nbytes.toNat 0
    ⟨bytes, []⟩).1 ≤ FILE_NAME_SIZE
  position : ((k.readDirectory fs fd buf nbytes ⟨bytes, []⟩).1.2.fds fd).position =
    (k.fds fd).position + 1#32

/-- The copy of a name stays within its field. -/
def Dentry.CopiedWhole (entry : Dentry) (n : ℕ) : Prop :=
  entry.name.length < FILE_NAME_SIZE ∨ n = FILE_NAME_SIZE ∨
    entry.filename FILE_NAME_SIZE = NULL_CHAR

theorem readDirectory_run (hgo : ¬ fs.direntries.toInt ≤ (k.fds fd).position.toInt) (u : UserMem) :
    let u₁ := (strncpy buf (fs.files (k.fds fd).position.toNat).filename nbytes.toNat u).2
    let u₂ := (load (buf + BitVec.ofNat 32 FILE_NAME_LST_IDX) u₁).2
    let k' := k.setFd fd fun f => { f with position := f.position + 1#32 }
    k.readDirectory fs fd buf nbytes u =
      if charAt u₁ buf FILE_NAME_LST_IDX ≠ NULL_CHAR then
        ((BitVec.ofNat 32 FILE_NAME_SIZE, k'), u₂)
      else ((BitVec.ofNat 32 ((strlen (stringAt buf) FILE_NAME_SIZE 0 u₂).1.getD 0), k'),
        (strlen (stringAt buf) FILE_NAME_SIZE 0 u₂).2) := by
  intro u₁ u₂ k'
  have hgo : ¬ fs.direntries.toInt ≤ (k.currentPcb.fdArray fd).position.toInt := hgo
  rw [readDirectory]
  simp only [if_neg hgo, bind_run]
  by_cases hlast : charAt u₁ buf FILE_NAME_LST_IDX = NULL_CHAR
  · rw [if_neg (not_not.mpr hlast)]
    exact congrFun (if_neg (not_not.mpr hlast)) u₂
  · rw [if_pos hlast]
    exact congrFun (if_pos hlast) u₂

theorem readDirectory_examines (hgo : ¬ fs.direntries.toInt ≤ (k.fds fd).position.toInt)
    (u : UserMem) : buf + BitVec.ofNat 32 FILE_NAME_LST_IDX ∈
      (k.readDirectory fs fd buf nbytes u).2.touched := by
  rw [readDirectory_run hgo]
  generalize (strncpy buf (fs.files (k.fds fd).position.toNat).filename nbytes.toNat u).2 = u₁
  have hload : buf + BitVec.ofNat 32 FILE_NAME_LST_IDX ∈
      (load (buf + BitVec.ofNat 32 FILE_NAME_LST_IDX) u₁).2.touched :=
    List.mem_append_right _ (List.mem_singleton.mpr rfl)
  split_ifs
  · exact hload
  · exact (touches_strlen _ buf FILE_NAME_SIZE 0 _).mpr (Or.inl hload)

theorem copied_le_iff (entry : Dentry) {n : ℕ} (hn : FILE_NAME_SIZE ≤ n) (hsmall : n ≤ 2 ^ 32)
    (u : UserMem) :
    (strncpyCopy buf entry.filename n 0 u).1 ≤ FILE_NAME_SIZE ↔ entry.CopiedWhole n := by
  obtain ⟨hscan, hend, -⟩ := charAt_strncpyCopy u buf entry.filename n 0 (by omega)
  obtain ⟨-, hle, -⟩ := touches_strncpyCopy u buf entry.filename n 0
  generalize (strncpyCopy buf entry.filename n 0 u).1 = r at *
  unfold Dentry.CopiedWhole Dentry.name
  constructor
  · intro hr
    by_contra hnot
    rw [not_or, not_or, not_lt] at hnot
    obtain ⟨hfull, hne, hnext⟩ := hnot
    have hr' : r < 0 + n := by omega
    rcases hr.eq_or_lt with rfl | hlt
    · exact hnext (hend hr')
    · exact fieldString_ne _ _ (hlt.trans_le hfull) (hend hr')
  · intro h
    by_contra hgt
    rcases h with hshort | rfl | hnext
    · exact hscan _ (Nat.zero_le _) (by omega) (fieldString_end _ _ hshort)
    · omega
    · exact hscan _ (Nat.zero_le _) (by omega) hnext

theorem fieldString_getD (src : ℕ → UInt8) {m n j : ℕ} (hmn : m ≤ n) (hj : j < m) :
    (fieldString src n).getD j NULL_CHAR = (fieldString src m).getD j NULL_CHAR := by
  have hget (l : ℕ) : (fieldString src l).getD j NULL_CHAR =
      if j < (fieldString src l).length then src j else NULL_CHAR := by
    split_ifs with h
    · rw [List.getD_eq_getElem?_getD, List.getElem?_eq_getElem h, Option.getD_some,
        fieldString_getElem]
    · rw [List.getD_eq_getElem?_getD, List.getElem?_eq_none (not_lt.mp h), Option.getD_none]
  have hlt (l : ℕ) (hl : j < l) : j < (fieldString src l).length ↔ ScanTo src 0 (j + 1) := by
    constructor
    · intro h i _ hi
      exact fieldString_ne src l (by omega)
    · intro h
      by_contra hge
      exact h _ (Nat.zero_le _) (by omega) (fieldString_end src l (by omega))
  rw [hget, hget]
  exact if_congr ((hlt n (hj.trans_le hmn)).trans (hlt m hj).symm) rfl rfl

theorem readDirectory_name (hgo : ¬ fs.direntries.toInt ≤ (k.fds fd).position.toInt)
    (hn : FILE_NAME_SIZE ≤ nbytes.toNat) (u : UserMem) :
    let r := k.readDirectory fs fd buf nbytes u
    let name := (fs.files (k.fds fd).position.toNat).name
    r.1.1.toNat = name.length ∧
      (∀ j < FILE_NAME_SIZE, charAt r.2 buf j = name.getD j NULL_CHAR) ∧
      (∀ a ∈ r.2.touched, a ∈ u.touched ∨ a ∈ span buf nbytes.toNat) ∧
      (r.1.2.fds fd).position = (k.fds fd).position + 1#32 := by
  intro r name
  have hbytes (j : ℕ) (hj : j < FILE_NAME_SIZE) :
      charAt (strncpy buf (fs.files (k.fds fd).position.toNat).filename nbytes.toNat u).2 buf j =
        name.getD j NULL_CHAR := by
    rw [charAt_strncpy u buf _ _ nbytes.isLt.le (hj.trans (by decide)), if_pos (hj.trans_le hn),
      fieldString_getD _ hn hj]
    rfl
  have htouched := touches_strncpy u buf (fs.files (k.fds fd).position.toNat).filename nbytes.toNat
  have hsmall : name.length < 2 ^ 32 :=
    (fieldString_length_le _ FILE_NAME_SIZE).trans_lt (by decide)
  have hmoved : ((k.setFd fd fun f => { f with position := f.position + 1#32 }).fds fd).position =
      (k.fds fd).position + 1#32 := by
    rw [(setFd_withFds fd _).fds, Function.update_self]
  have hrun : r = _ := readDirectory_run hgo u
  revert hrun
  generalize r = r
  generalize (strncpy buf (fs.files (k.fds fd).position.toNat).filename nbytes.toNat u).2 = u₁ at *
  intro hrun
  have hlast := touches_load u₁ buf FILE_NAME_LST_IDX
  have hload (j : ℕ) : charAt (load (buf + BitVec.ofNat 32 FILE_NAME_LST_IDX) u₁).2 buf j =
      charAt u₁ buf j := rfl
  generalize (load (buf + BitVec.ofNat 32 FILE_NAME_LST_IDX) u₁).2 = u₂ at *
  have hbytes₂ (j : ℕ) (hj : j < FILE_NAME_SIZE) : charAt u₂ buf j = name.getD j NULL_CHAR :=
    (hload j).trans (hbytes j hj)
  obtain ⟨hfull, hshort⟩ := name_length_cases hbytes₂
  have hinside {u' : UserMem} {P : ℕ → Prop} (h : Touches u u' buf P)
      (hP : ∀ i, P i → i < nbytes.toNat) :
      ∀ a ∈ u'.touched, a ∈ u.touched ∨ a ∈ span buf nbytes.toNat := by
    intro a ha
    rcases (h a).mp ha with hold | ⟨i, hi, rfl⟩
    · exact Or.inl hold
    · exact Or.inr ((mem_span _).mpr ⟨i, hP i hi, rfl⟩)
  have hidx : FILE_NAME_LST_IDX < FILE_NAME_SIZE := by decide
  split_ifs at hrun with hne
  · subst hrun
    refine ⟨(hfull ((hload _).trans_ne hne)).symm, hbytes₂, ?_, hmoved⟩
    exact hinside (htouched.trans hlast) fun i hi => by omega
  · have hret := hshort ((hload _).trans (not_not.mp hne))
    subst hrun
    refine ⟨?_, fun j hj => ?_, ?_, hmoved⟩
    · rw [hret, Option.getD_some, BitVec.toNat_ofNat, Nat.mod_eq_of_lt hsmall]
    · rw [charAt, strlen_user_bytes]
      exact hbytes₂ j hj
    · exact hinside ((htouched.trans hlast).trans (touches_strlen u₂ buf FILE_NAME_SIZE 0))
        fun i hi => by omega

/-- `read_directory` honours the size of its buffer exactly when the buffer holds the
longest name and the copy ends with the name. -/
theorem read_directory_honours (fs : Fs) (k : Kernel) (fd : ℕ) (buf : Addr) (nbytes : Word)
    (bytes : Addr → UInt8) (hcount : fs.direntries.toNat ≤ NUM_FILES_CAP)
    (hpos : (k.fds fd).position.toNat < fs.direntries.toNat) :
    DirectoryHonours fs k fd buf nbytes bytes ↔
      FILE_NAME_SIZE ≤ nbytes.toNat ∧
        (fs.files (k.fds fd).position.toNat).CopiedWhole nbytes.toNat := by
  have hint := direntries_toInt fs hcount
  have hgo : ¬ fs.direntries.toInt ≤ (k.fds fd).position.toInt := by
    rw [hint, BitVec.toInt_eq_toNat_of_lt]
    · omega
    · simp only [NUM_FILES_CAP] at hcount
      omega
  constructor
  · intro h
    have hroom : FILE_NAME_SIZE ≤ nbytes.toNat := by
      obtain ⟨i, hi, heq⟩ := (mem_span _).mp (h.bounded _ (readDirectory_examines hgo _))
      have hnat := congrArg BitVec.toNat ((BitVec.add_right_inj _).mp heq)
      simp only [BitVec.toNat_ofNat, FILE_NAME_LST_IDX, FILE_NAME_SIZE] at hnat ⊢
      have hlt := nbytes.isLt
      omega
    exact ⟨hroom, (copied_le_iff _ hroom nbytes.isLt.le _).mp h.field⟩
  · rintro ⟨hroom, hwhole⟩
    obtain ⟨hret, hbytes, htouched, hmoved⟩ :=
      @readDirectory_name fs k fd buf nbytes hgo hroom ⟨bytes, []⟩
    have hle : (fs.files (k.fds fd).position.toNat).name.length ≤ FILE_NAME_SIZE :=
      fieldString_length_le _ _
    refine ⟨?_, fun j hj _ => ?_, fun a ha => ?_,
      (copied_le_iff _ hroom nbytes.isLt.le _).mpr hwhole, hmoved⟩
    · rw [hret, min_eq_right (hle.trans hroom)]
    · rw [hbytes j (hj.trans_le hle), List.getD_eq_getElem?_getD, List.getElem?_eq_getElem hj,
        Option.getD_some]
    · exact (htouched a ha).resolve_left List.not_mem_nil

theorem read_directory_honours_shell :
    DirectoryHonours shellFs shellKernel 2 0x8048000#32 32#32 fun _ => 0 :=
  (read_directory_honours shellFs shellKernel 2 0x8048000#32 32#32 (fun _ => 0) (by decide)
    (by decide)).mpr ⟨by decide, Or.inl (by decide)⟩

/-- With a buffer of one byte the last byte of the longest name is examined all the same. -/
theorem directory_past_buffer :
    ¬ DirectoryHonours shellFs shellKernel 2 0x8048000#32 1#32 fun _ => 0 := by
  intro h
  have hexamined := h.bounded _ (readDirectory_examines (by decide) _)
  exact absurd hexamined (by decide)

end Directory

section Written

/-- The bytes that `put_t` passes on, in order. -/
def passed (buf : ℕ → UInt8) (n : ℕ) : List UInt8 :=
  (Id.run (putTWith (fun out c => out ++ [c]) (fun i => (buf i : Id UInt8)) n 0 [])).2

/-- `write_terminal` counts the bytes that it passes on, which the buffer starts with,
and examines only the bytes that it was given. -/
structure ReportsWritten (k : Kernel) (buf : ℕ → UInt8) (nbytes : Word) : Prop where
  counted : (Id.run (k.writeTerminal STDOUT (fun i => (buf i : Id UInt8)) nbytes)).1.toNat =
    (passed buf nbytes.toNat).length
  initial : ∀ j (hj : j < (passed buf nbytes.toNat).length), (passed buf nbytes.toNat)[j] = buf j
  within : (k.writeTerminal STDOUT (examined buf) nbytes).All (· < nbytes.toNat)

variable {buf : ℕ → UInt8}

theorem passed_eq (n : ℕ) : passed buf n = fieldString buf n := by
  unfold passed fieldString
  rw [putTWith_run, ← List.range_eq_range', List.foldl_append_eq_append, List.nil_append,
    ← List.flatMap_def, List.flatMap_singleton']

theorem putT_passed {σ : Type} (bus : VideoBus σ) (attrib : UInt8) (n : ℕ) (scr : Screen σ) :
    (Id.run (putT bus attrib (fun i => (buf i : Id UInt8)) n 0 scr)).2 =
      (passed buf n).foldl (putcScreen bus attrib) scr := by
  rw [putT_eq_foldl, passed_eq, fieldString, List.range_eq_range']

theorem putT_examines_size {σ : Type} (bus : VideoBus σ) (attrib : UInt8) (n i : ℕ)
    (hne : ∀ j, i ≤ j → j < i + n → buf j ≠ NULL_CHAR) (scr : Screen σ) :
    i + n ∈ (putT bus attrib (examined buf) n i scr).log := by
  induction n generalizing i scr with
  | zero => exact List.mem_append_left _ (List.mem_singleton.mpr rfl)
  | succ n ih =>
    have hgo : (examined buf i).val ≠ NULL_CHAR := hne i le_rfl (by omega)
    have hrest := ih (i + 1) (fun j h1 h2 => hne j (by omega) (by omega))
      (putcScreen bus attrib scr (buf i))
    refine List.mem_append_right _ ?_
    change _ ∈ (if (examined buf i).val ≠ NULL_CHAR then _ else _ : Trace ℕ (ℕ × Screen σ)).log
    rw [if_pos hgo, show i + (n + 1) = i + 1 + n by omega]
    exact hrest

variable {nbytes : Word}

theorem counted_iff (k : Kernel) (hn : 0 ≤ nbytes.toInt) :
    (Id.run (k.writeTerminal STDOUT (fun i => (buf i : Id UInt8)) nbytes)).1.toNat =
      (passed buf nbytes.toNat).length ↔ ∀ j < nbytes.toNat, buf j ≠ NULL_CHAR := by
  have hret : (Id.run (k.writeTerminal STDOUT (fun i => (buf i : Id UInt8)) nbytes)).1 = nbytes := by
    rw [writeTerminal, if_neg (not_not.mpr rfl), if_neg (not_lt.mpr hn)]
    rfl
  have hle := fieldString_length_le buf nbytes.toNat
  rw [hret, passed_eq]
  constructor
  · intro heq j hj
    exact fieldString_ne buf _ (heq ▸ hj)
  · intro hall
    by_contra hne
    have hshort : (fieldString buf nbytes.toNat).length < nbytes.toNat := by omega
    exact hall _ hshort (fieldString_end buf _ hshort)

theorem within_iff (k : Kernel) (hn : 0 ≤ nbytes.toInt) :
    (k.writeTerminal STDOUT (examined buf) nbytes).All (· < nbytes.toNat) ↔
      ∃ j < nbytes.toNat, buf j = NULL_CHAR := by
  constructor
  · intro hall
    by_contra hnone
    have hne (j : ℕ) (_ : 0 ≤ j) (hj : j < 0 + nbytes.toNat) : buf j ≠ NULL_CHAR :=
      fun heq => hnone ⟨j, by omega, heq⟩
    rw [writeTerminal, if_neg (not_not.mpr rfl), if_neg (not_lt.mpr hn)] at hall
    have hsize := ((Trace.all_bind _ _).mp hall).1 _ (putT_examines_size _ _ _ 0 hne _)
    exact absurd hsize (by omega)
  · rintro ⟨j, hj, hend⟩
    exact fun e he => (writeTerminal_all k STDOUT nbytes hend e he).trans_lt hj

/-- `write_terminal` never reports what it wrote: a NUL among the bytes is counted
without being passed on, and without one the byte after them is examined. -/
theorem write_terminal_reports (k : Kernel) (buf : ℕ → UInt8) (nbytes : Word)
    (hn : 0 ≤ nbytes.toInt) : ¬ ReportsWritten k buf nbytes := by
  intro h
  have hall := (counted_iff k hn).mp h.counted
  obtain ⟨j, hj, hend⟩ := (within_iff k hn).mp h.within
  exact hall j hj hend

theorem write_terminal_reports_char : ¬ ReportsWritten shellKernel (fun _ => 97) 1#32 :=
  write_terminal_reports shellKernel (fun _ => 97) 1#32 (by decide)

/-- One NUL is counted, and nothing is passed on. -/
theorem nul_counted : ¬ ReportsWritten shellKernel (fun _ => NULL_CHAR) 1#32 := by
  intro h
  have hret : (Id.run (shellKernel.writeTerminal STDOUT (fun _ => (NULL_CHAR : Id UInt8)) 1#32)).1 =
      1#32 := rfl
  have hnone : passed (fun _ => NULL_CHAR) (1#32).toNat = [] := rfl
  have hcounted := h.counted
  rw [hret, hnone] at hcounted
  exact absurd hcounted (by decide)

end Written

end SnoopDos
