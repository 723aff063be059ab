import SnoopDos.Proofs.Descriptors
import SnoopDos.Proofs.Filesystem
import SnoopDos.Spec.System

/-! Listing a directory and looking a name up. Successive reads of a directory return
the names of its entries in order, and a name that was returned finds its entry. -/

namespace SnoopDos

open Kernel UserMem

/-- The name of an entry: the bytes up to the first NUL, or all 32. -/
def Dentry.name (entry : Dentry) : List UInt8 := fieldString entry.filename FILE_NAME_SIZE

/-- The entries have names, and no two have the same. -/
structure Fs.NamesDistinct (fs : Fs) : Prop where
  ne_nil (i : ℕ) (hi : i < fs.direntries.toNat) : (fs.files i).name ≠ []
  inj (i j : ℕ) (hi : i < fs.direntries.toNat) (hj : j < fs.direntries.toNat)
    (heq : (fs.files i).name = (fs.files j).name) : i = j

section Lookup

variable (fs : Fs) (u : UserMem) (p : Addr)

theorem entryMatches_iff (e : ℕ) :
    fs.EntryMatches u p e ↔ fieldString (charAt u p) FILE_NAME_SIZE = (fs.files e).name :=
  nameMatches_iff _ _ _

theorem direntries_toInt (hcount : fs.direntries.toNat ≤ NUM_FILES_CAP) :
    fs.direntries.toInt = fs.direntries.toNat :=
  BitVec.toInt_eq_toNat_of_lt (by simp only [NUM_FILES_CAP] at hcount; omega)

/-- A name that lies in memory as it was returned, with a NUL appended. -/
def HoldsName (l : List UInt8) : Prop := ∀ j ≤ l.length, charAt u p j = l.getD j NULL_CHAR

variable {u p}

theorem HoldsName.fieldString {l : List UInt8} {n : ℕ} (h : HoldsName u p l) (hl : NulFree l)
    (hle : l.length ≤ n) : fieldString (charAt u p) n = l := by
  refine (eq_fieldString _ _ hle (fun j hj => ⟨?_, ?_⟩) fun _ => ?_).symm
  · rw [h j hj.le, List.getD_eq_getElem?_getD, List.getElem?_eq_getElem hj, Option.getD_some]
  · exact fun hnull => hl (hnull ▸ List.getElem_mem hj)
  · rw [h _ le_rfl, List.getD_eq_getElem?_getD, List.getElem?_eq_none le_rfl, Option.getD_none]

theorem readDentryByName_name (hcount : fs.direntries.toNat ≤ NUM_FILES_CAP)
    (hnames : fs.NamesDistinct) {i : ℕ} (hi : i < fs.direntries.toNat)
    (h : HoldsName u p (fs.files i).name) :
    (readDentryByName fs (stringAt p) u).1 = some (fs.files i) := by
  have hbound : fs.direntries.toInt.toNat = fs.direntries.toNat := by
    rw [direntries_toInt fs hcount, Int.toNat_natCast]
  have hfield := h.fieldString (fieldString_nulFree _ _) (fieldString_length_le _ _)
  have hself : fs.EntryMatches u p i := (entryMatches_iff fs u p i).mpr hfield
  rcases readDentryByName_fst fs u p with ⟨e, ⟨he, hmatch, -⟩, hres⟩ | ⟨hnone, -⟩
  · have hname := hfield.symm.trans ((entryMatches_iff fs u p e).mp hmatch)
    obtain rfl := hnames.inj i e hi (hbound ▸ he) hname
    exact hres
  · exact absurd hself (hnone i (hbound.symm ▸ hi))

end Lookup

section Listing

variable {fs : Fs} {k : Kernel} {u : UserMem} {fd : ℕ} {buf : Addr} {i : ℕ}

theorem readDirectory_end (hend : fs.direntries.toInt ≤ (k.fds fd).position.toInt)
    (nbytes : Word) : k.readDirectory fs fd buf nbytes u = ((0#32, k), u) := by
  have hdone : fs.direntries.toInt ≤ (k.currentPcb.fdArray fd).position.toInt := hend
  rw [readDirectory]
  simp only [if_pos hdone]
  rfl

theorem name_length_cases {entry : Dentry}
    (hbytes : ∀ j < FILE_NAME_SIZE, charAt u buf j = entry.name.getD j NULL_CHAR) :
    (charAt u buf FILE_NAME_LST_IDX ≠ NULL_CHAR → entry.name.length = FILE_NAME_SIZE) ∧
      (charAt u buf FILE_NAME_LST_IDX = NULL_CHAR →
        (strlen (stringAt buf) FILE_NAME_SIZE 0 u).1 = some entry.name.length) := by
  have hle : entry.name.length ≤ FILE_NAME_SIZE := fieldString_length_le _ _
  have hchar (j : ℕ) (hj : j < entry.name.length) : charAt u buf j ≠ NULL_CHAR := by
    rw [hbytes j (hj.trans_le hle), List.getD_eq_getElem?_getD, List.getElem?_eq_getElem hj,
      Option.getD_some]
    exact fun h => fieldString_nulFree _ _ (h ▸ List.getElem_mem hj)
  have hnull (j : ℕ) (hj : entry.name.length ≤ j) (hj' : j < FILE_NAME_SIZE) :
      charAt u buf j = NULL_CHAR := by
    rw [hbytes j hj', List.getD_eq_getElem?_getD, List.getElem?_eq_none hj, Option.getD_none]
  constructor
  · intro hlast
    by_contra hne
    refine hlast (hnull _ ?_ (by decide))
    simp only [FILE_NAME_SIZE, FILE_NAME_LST_IDX] at *
    omega
  · intro hlast
    have hlt : entry.name.length < FILE_NAME_SIZE := by
      refine lt_of_le_of_ne hle fun heq => hchar FILE_NAME_LST_IDX ?_ hlast
      rw [heq]
      decide
    exact strlen_user_fst u buf (Nat.zero_le _) (by omega) (fun j _ hj => hchar j hj)
      (hnull _ le_rfl hlt)

theorem readDirectory_entry (hpos : (k.fds fd).position = BitVec.ofNat 32 i)
    (hi : i < NUM_FILES_CAP) (hmore : (i : ℤ) < fs.direntries.toInt) :
    let r := k.readDirectory fs fd buf 32#32 u
    r.1.1.toNat = (fs.files i).name.length ∧
      (∀ j < FILE_NAME_SIZE, charAt r.2 buf j = (fs.files i).name.getD j NULL_CHAR) ∧
      (r.1.2.fds fd).position = BitVec.ofNat 32 (i + 1) := by
  have hnat : (BitVec.ofNat 32 i).toNat = i := by
    rw [BitVec.toNat_ofNat]
    exact Nat.mod_eq_of_lt (hi.trans (by decide))
  have hentry : (k.currentPcb.fdArray fd).position.toNat = i := by
    rw [show (k.currentPcb.fdArray fd).position = BitVec.ofNat 32 i from hpos, hnat]
  have hint : (k.currentPcb.fdArray fd).position.toInt = i := by
    rw [BitVec.toInt_eq_toNat_of_lt, hentry]
    simp only [NUM_FILES_CAP] at hi
    omega
  have hgo : ¬ fs.direntries.toInt ≤ (k.currentPcb.fdArray fd).position.toInt := by
    rw [hint]
    exact not_le.mpr hmore
  have hbytes (j : ℕ) (hj : j < FILE_NAME_SIZE) :
      charAt (strncpy buf (fs.files i).filename (32#32).toNat u).2 buf j =
        (fs.files i).name.getD j NULL_CHAR := by
    refine (charAt_strncpy u buf _ _ (by decide) (hj.trans (by decide))).trans ?_
    exact if_pos hj
  have hmoved : ((k.setFd fd fun f => { f with position := f.position + 1#32 }).fds fd).position =
      BitVec.ofNat 32 (i + 1) := by
    rw [(setFd_withFds fd _).fds, Function.update_self, hpos, BitVec.ofNat_add]
  rw [readDirectory]
  simp only [if_neg hgo, bind_run, hentry]
  generalize (strncpy buf (fs.files i).filename (32#32).toNat u).2 = u₁ at *
  set u₂ := (load (buf + BitVec.ofNat 32 FILE_NAME_LST_IDX) u₁).2 with hu₂
  have hbytes₂ (j : ℕ) (hj : j < FILE_NAME_SIZE) :
      charAt u₂ buf j = (fs.files i).name.getD j NULL_CHAR := hbytes j hj
  obtain ⟨hfull, hshort⟩ := name_length_cases hbytes₂
  have hsmall : (fs.files i).name.length < 2 ^ 32 :=
    (fieldString_length_le _ FILE_NAME_SIZE).trans_lt (by decide)
  by_cases hlast : (load (buf + BitVec.ofNat 32 FILE_NAME_LST_IDX) u₁).1 = NULL_CHAR
  · have hret := hshort hlast
    rw [if_neg (not_not.mpr hlast)]
    refine ⟨?_, fun j hj => ?_, hmoved⟩
    · simp only [bind_run, pure_run, hret, Option.getD_some, BitVec.toNat_ofNat]
      exact Nat.mod_eq_of_lt hsmall
    · simp only [bind_run, pure_run]
      rw [charAt, strlen_user_bytes]
      exact hbytes₂ j hj
  · rw [if_pos hlast]
    exact ⟨(hfull hlast).symm, hbytes₂, hmoved⟩

/-- A directory that is read again and again, with a buffer of 32 bytes. Between two
reads anything may happen that leaves the descriptor as the last one left it. -/
structure DirectoryReads (fs : Fs) where
  kernel : ℕ → Kernel
  memory : ℕ → UserMem
  fd : ℕ
  buf : ℕ → Addr
  opened : ((kernel 0).fds fd).position = 0#32
  next (n : ℕ) : ((kernel (n + 1)).fds fd).position =
    (((kernel n).readDirectory fs fd (buf n) 32#32 (memory n)).1.2.fds fd).position

def DirectoryReads.read (d : DirectoryReads fs) (n : ℕ) : (Word × Kernel) × UserMem :=
  (d.kernel n).readDirectory fs d.fd (d.buf n) 32#32 (d.memory n)

theorem DirectoryReads.position (d : DirectoryReads fs)
    (hcount : fs.direntries.toNat ≤ NUM_FILES_CAP) (n : ℕ) :
    ((d.kernel n).fds d.fd).position = BitVec.ofNat 32 (min n fs.direntries.toNat) := by
  have hint := direntries_toInt fs hcount
  induction n with
  | zero => rw [d.opened, Nat.zero_min]
  | succ n ih =>
    rw [d.next]
    by_cases hn : n < fs.direntries.toNat
    · rw [min_eq_left hn.le] at ih
      have hmore : (n : ℤ) < fs.direntries.toInt := by omega
      rw [(readDirectory_entry ih (hn.trans_le hcount) hmore).2.2, min_eq_left hn]
    · rw [min_eq_right (not_lt.mp hn)] at ih
      rw [BitVec.ofNat_toNat, BitVec.setWidth_eq] at ih
      rw [readDirectory_end (by rw [ih]), ih, min_eq_right (by omega), BitVec.ofNat_toNat,
        BitVec.setWidth_eq]

/-- Reads of a fresh directory return the name of each entry, in order, and then 0.
With a NUL appended the name finds its entry. -/
theorem directory_listing (fs : Fs) (hcount : fs.direntries.toNat ≤ NUM_FILES_CAP)
    (hnames : fs.NamesDistinct) (d : DirectoryReads fs) (n : ℕ) :
    (n < fs.direntries.toNat →
      (d.read n).1.1 ≠ 0#32 ∧ (d.read n).1.1.toNat = (fs.files n).name.length ∧
      (∀ j (hj : j < (fs.files n).name.length),
        (d.read n).2.bytes (d.buf n + BitVec.ofNat 32 j) = (fs.files n).name[j]) ∧
      ∀ u p, HoldsName u p (fs.files n).name → ∃ entry,
        readDentryByIndex fs (BitVec.ofNat 32 n) = some entry ∧
        (readDentryByName fs (stringAt p) u).1 = some entry) ∧
    (fs.direntries.toNat ≤ n → (d.read n).1.1 = 0#32) := by
  have hint := direntries_toInt fs hcount
  have hpos := d.position hcount n
  constructor
  · intro hn
    rw [min_eq_left hn.le] at hpos
    have hmore : (n : ℤ) < fs.direntries.toInt := by omega
    have hentry : (d.read n).1.1.toNat = (fs.files n).name.length ∧
        (∀ j < FILE_NAME_SIZE,
          charAt (d.read n).2 (d.buf n) j = (fs.files n).name.getD j NULL_CHAR) ∧ _ :=
      readDirectory_entry hpos (hn.trans_le hcount) hmore
    obtain ⟨hret, hbytes, -⟩ := hentry
    have hle : (fs.files n).name.length ≤ FILE_NAME_SIZE := fieldString_length_le _ _
    refine ⟨fun hzero => ?_, hret, fun j hj => ?_, fun u p hname => ⟨fs.files n, ?_, ?_⟩⟩
    · rw [hzero] at hret
      exact hnames.ne_nil n hn (List.eq_nil_of_length_eq_zero hret.symm)
    · refine (hbytes j (hj.trans_le hle)).trans ?_
      rw [List.getD_eq_getElem?_getD, List.getElem?_eq_getElem hj, Option.getD_some]
    · have hnat : (BitVec.ofNat 32 n).toNat = n := by
        rw [BitVec.toNat_ofNat]
        exact Nat.mod_eq_of_lt (hn.trans fs.direntries.isLt)
      rw [readDentryByIndex, hnat, if_neg (not_le.mpr hn)]
    · exact readDentryByName_name fs hcount hnames hn hname
  · intro hn
    rw [min_eq_right hn, BitVec.ofNat_toNat, BitVec.setWidth_eq] at hpos
    rw [DirectoryReads.read, readDirectory_end (by rw [hpos])]

/-- The first shell reads the directory of the smallest image through descriptor 2. -/
def shellListing : DirectoryReads shellFs where
  kernel n := Nat.rec shellKernel
    (fun _ k => (k.readDirectory shellFs 2 0x8048000#32 32#32 ⟨fun _ => 0, []⟩).1.2) n
  memory _ := ⟨fun _ => 0, []⟩
  fd := 2
  buf _ := 0x8048000#32
  opened := rfl
  next _ := rfl

theorem directory_listing_shell : (shellListing.read 0).1.1.toNat = 5 ∧
    (shellListing.read 1).1.1 = 0#32 := by
  have hnames : shellFs.NamesDistinct := by
    refine ⟨fun i hi => ?_, fun i j hi hj _ => ?_⟩
    · obtain rfl : i = 0 := Nat.lt_one_iff.mp hi
      decide
    · exact (Nat.lt_one_iff.mp hi).trans (Nat.lt_one_iff.mp hj).symm
  have hcount : shellFs.direntries.toNat ≤ NUM_FILES_CAP := by decide
  exact ⟨((directory_listing shellFs hcount hnames shellListing 0).1 (by decide)).2.1,
    (directory_listing shellFs hcount hnames shellListing 1).2 (by decide)⟩

end Listing

end SnoopDos
