import SnoopDos.Proofs.Descriptors
import SnoopDos.Proofs.Execute
import SnoopDos.Proofs.Filesystem
import SnoopDos.Spec.System

/-! What the system calls touch through the pointers of user code. `execute` checks
its pointer not at all, the other calls check its first byte, so whether a call
stays in the user window depends on how far it goes from there. -/

namespace SnoopDos

open Kernel UserMem

def WINDOW_END : ℕ := TASK_VIRTUAL_BASE_ADDRESS + LITERAL_4MB

/-- Bytes from `p` to the end of the user window. -/
def room (p : Addr) : ℕ := WINDOW_END - p.toNat

/-- The system calls that take a pointer. -/
inductive UserCall
  | execute (command : Addr)
  | read (stdin : ℕ → UInt8) (fd : Word) (buf : Addr) (numBytes : Word)
  | write (fd : Word) (buf : Addr) (numBytes : Word)
  | «open» (filename : Addr)
  | getargs (buf : Addr) (numBytes : Word)
  | vidmap (screenStart : Addr)

namespace UserCall

def pointer : UserCall → Addr
  | .execute command => command
  | .read _ _ buf _ => buf
  | .write _ buf _ => buf
  | .open filename => filename
  | .getargs buf _ => buf
  | .vidmap screenStart => screenStart

variable (fs : Fs) (residue : Residue) (k : Kernel) (u : UserMem)

/-- User memory, with the addresses touched, after the call. -/
def memory : UserCall → UserMem
  | .execute command => (k.execute fs residue command u).2
  | .read stdin fd buf numBytes => (k.read fs stdin fd buf numBytes u).2
  | .write fd buf numBytes => (k.write fd buf numBytes u).2
  | .open filename => (k.open fs filename u).2
  | .getargs buf numBytes => (k.getargs buf numBytes u).2
  | .vidmap screenStart => (k.vidmap screenStart u).2

/-- The call returns -1 and changes nothing. `execute` has run its `cli`, which
the return to user code undoes. -/
def Refused : UserCall → Prop
  | .execute command =>
    k.execute fs residue command u = (some (.failed (k.setInterruptFlag false)), u)
  | .read stdin fd buf numBytes => k.read fs stdin fd buf numBytes u = (some (FAILURE, k), u)
  | .write fd buf numBytes => k.write fd buf numBytes u = (some (FAILURE, k), u)
  | .open filename => k.open fs filename u = (some (FAILURE, k), u)
  | .getargs buf numBytes => k.getargs buf numBytes u = (some FAILURE, u)
  | .vidmap screenStart => k.vidmap screenStart u = ((FAILURE, k), u)

/-- Nothing outside the user window is touched, and a call whose pointer lies
outside of it is refused. -/
def Contained (bytes : Addr → UInt8) (c : UserCall) : Prop :=
  (∀ a ∈ (c.memory fs residue k ⟨bytes, []⟩).touched, inWindow a) ∧
    (¬ inWindow c.pointer → c.Refused fs residue k ⟨bytes, []⟩)

/-- When a read from the file behind an open descriptor stays in the window. -/
def ReadFits (stdin : ℕ → UInt8) (fd : Word) (buf : Addr) (numBytes : Word) : Prop :=
  let info := k.fds fd.toNat
  let inode := (getInodeNum fs info.inode).toNat
  match info.fopsJmpTable with
  | .null => True
  | .rtc => True
  | .terminal =>
    fd ≠ STDIN ∨ numBytes.toInt < 0 ∨ KEYBOARD_BUFF_SIZE ≤ room buf ∨
      ∃ i ≤ room buf, stdin i = NULL_CHAR
  | .regularFile =>
    numBytes.toNat ≤ room buf ∨ fs.inodes.toNat ≤ inode ∨
      (fs.length inode).toNat ≤ info.position.toNat + room buf ∨
      ¬ fs.GoodTo inode (info.position.toNat + room buf)
  | .directory =>
    fs.direntries.toInt ≤ info.position.toInt ∨
      numBytes.toNat ≤ room buf ∧ FILE_NAME_SIZE ≤ room buf

/-- When a write to the device behind an open descriptor stays in the window. -/
def WriteFits (s : ℕ → UInt8) (fd : Word) (buf : Addr) (numBytes : Word) : Prop :=
  match (k.fds fd.toNat).fopsJmpTable with
  | .null => True
  | .rtc => 4 ≤ room buf
  | .terminal =>
    fd ≠ STDOUT ∨ numBytes.toInt < 0 ∨ numBytes.toNat < room buf ∨ ∃ i < room buf, s i = NULL_CHAR
  | .regularFile => True
  | .directory => True

/-- When a call stays in the window, whatever it checks. -/
def Fits (bytes : Addr → UInt8) : UserCall → Prop
  | .execute command =>
    k.getAvailablePid = none ∨
      inWindow command ∧ ∃ i < room command, charAt ⟨bytes, []⟩ command i = NULL_CHAR
  | .read stdin fd buf numBytes =>
    ¬ (inWindow buf ∧ k.Open fd) ∨ ReadFits fs k stdin fd buf numBytes
  | .write fd buf numBytes =>
    ¬ (inWindow buf ∧ k.Open fd) ∨ WriteFits k (charAt ⟨bytes, []⟩ buf) fd buf numBytes
  | .open filename =>
    ¬ inWindow filename ∨ FILE_NAME_SIZE ≤ room filename ∨
      ∀ e < fs.direntries.toInt.toNat,
        ¬ AgreeTo (charAt ⟨bytes, []⟩ filename) (fs.files e).filename 0 (room filename)
  | .getargs buf numBytes =>
    numBytes.toInt < 0 ∨ ¬ inWindow buf ∨ numBytes.toNat ≤ room buf ∨
      ∀ args ∈ k.currentPcb.args, numBytes.toNat < (args.takeWhile (· ≠ NULL_CHAR)).length
  | .vidmap screenStart => ¬ inWindow screenStart ∨ 4 ≤ room screenStart

end UserCall

section Touches

variable (fs : Fs) (residue : Residue) (k : Kernel) (u : UserMem) (p : Addr)

theorem putT_user_snd {σ : Type} (bus : VideoBus σ) (attrib : UInt8) (n i : ℕ) (scr : Screen σ) :
    (putT bus attrib (stringAt p) n i scr u).2 = (strlen (stringAt p) (n + 1) i u).2 := by
  induction n generalizing u i scr with
  | zero =>
    rw [strlen_user_succ, putT, bind_run]
    simp only
    split_ifs <;> rfl
  | succ n ih =>
    rw [strlen_user_succ, putT, bind_run]
    simp only [stringAt_fst]
    change ((if charAt u p i ≠ NULL_CHAR then _ else _ : User (ℕ × Screen σ)) _).2 = _
    by_cases hend : charAt u p i = NULL_CHAR
    · rw [if_neg (not_not.mpr hend), if_pos hend]
      rfl
    · rw [if_pos hend, if_neg hend]
      exact ih _ _ _

theorem touches_execute {pid : ℕ} (hpid : k.getAvailablePid = some pid) :
    Touches u (k.execute fs residue p u).2 p fun j => j < 2 ^ 32 ∧ ScanTo (charAt u p) 0 j := by
  have hpid' : k.executePrologue.getAvailablePid = some pid := by
    rw [← hpid, getAvailablePid, getAvailablePid, executePrologue]
    split_ifs <;> rfl
  have hlen := touches_strlen u p (2 ^ 32) 0
  have hbytes := strlen_user_bytes u p (2 ^ 32) 0
  rw [execute, internalExecute]
  simp only [hpid', bind_run]
  generalize strlen (stringAt p) (2 ^ 32) 0 u = r at *
  have hscan : Touches u r.2 p fun j => j < 2 ^ 32 ∧ ScanTo (charAt u p) 0 j :=
    hlen.congr fun j => by simp
  cases r.1 with
  | none => exact hscan
  | some len =>
    simp only
    split_ifs with hmax
    · exact hscan
    · have hcopy := touches_strlen r.2 p MAX_EXECUTE_ARG_SIZE 0
      rw [← strcpy_user_snd, show charAt r.2 p = charAt u p by
        funext j
        rw [charAt, hbytes, charAt]] at hcopy
      refine (hscan.trans hcopy).congr fun j => ⟨?_, Or.inl⟩
      rintro (h | ⟨-, h1, h2⟩)
      · exact h
      · exact ⟨by simp only [MAX_EXECUTE_ARG_SIZE] at h1; omega, h2⟩

/-- `read_terminal` copies out all that the drain takes from the buffer. -/
theorem readTerminal_run (stdin : ℕ → UInt8) (numBytes : Word) (hn : ¬ numBytes.toInt < 0) :
    ∃ k', k.readTerminal stdin STDIN p numBytes u =
      ((BitVec.ofNat 32 (drainLoop stdin KEYBOARD_BUFF_SIZE 0).length, k'),
        (storeBytes p (drainLoop stdin KEYBOARD_BUFF_SIZE 0) u).2) := by
  rw [readTerminal, if_neg (not_not.mpr rfl), if_neg hn]
  have hline : (((k.readTerminalStart k.terminalBeingServiced).setTerminal k.terminalBeingServiced
      fun t => { t with stdin := stdin, allowedToRead := true }).readTerminalDrain
        k.terminalBeingServiced).1 = drainLoop stdin KEYBOARD_BUFF_SIZE 0 := by
    simp [readTerminalDrain, readTerminalStart, setTerminal]
  simp only [bind_run, hline]
  exact ⟨_, rfl⟩

theorem touches_readTerminal (stdin : ℕ → UInt8) (numBytes : Word) (hn : ¬ numBytes.toInt < 0) :
    Touches u (k.readTerminal stdin STDIN p numBytes u).2 p fun i =>
      i < (drainLoop stdin KEYBOARD_BUFF_SIZE 0).length := by
  obtain ⟨k', hrun⟩ := readTerminal_run k u p stdin numBytes hn
  rw [hrun]
  exact touches_storeBytes u p _

/-- The line that is drained goes up to the first NUL of the buffer. -/
theorem lt_drainLoop_length_iff (stdin : ℕ → UInt8) (n i j : ℕ) :
    j < (drainLoop stdin n i).length ↔ j < n ∧ ScanTo stdin i (i + j + 1) := by
  induction n generalizing i j with
  | zero => simp [drainLoop]
  | succ n ih =>
    rw [drainLoop]
    split_ifs with hend
    · rw [List.length_cons, scanTo_succ_iff (by omega)]
      cases j with
      | zero =>
        refine iff_of_true (by omega) ⟨by omega, hend, fun l h1 h2 => by omega⟩
      | succ j =>
        rw [Nat.succ_lt_succ_iff, ih, Nat.succ_lt_succ_iff,
          show i + 1 + j + 1 = i + (j + 1) + 1 by omega]
        tauto
    · rw [not_not] at hend
      refine iff_of_false (by simp) fun h => h.2 i le_rfl (by omega) hend

theorem touches_writeTerminal (numBytes : Word) (hn : ¬ numBytes.toInt < 0) :
    Touches u (k.writeTerminal STDOUT (stringAt p) numBytes u).2 p fun i =>
      i < numBytes.toNat + 1 ∧ ScanTo (charAt u p) 0 i := by
  rw [writeTerminal, if_neg (not_not.mpr rfl), if_neg hn]
  simp only [bind_run]
  rw [pure_run, putT_user_snd]
  exact (touches_strlen u p _ 0).congr fun i => by simp

theorem touches_writeRtc : Touches u (k.writeRtc p u).2 p (· < 4) := by
  have h := (((touches_load u p 0).trans (touches_load _ p 1)).trans (touches_load _ p 2)).trans
    (touches_load _ p 3)
  have h4 := h.congr (Q := (· < 4)) fun i => by omega
  rw [BitVec.add_zero] at h4
  rw [writeRtc]
  simp only [bind_run]
  split_ifs <;> exact h4

theorem touches_open {filename : Addr} (hin : inWindow filename) :
    Touches u (k.open fs filename u).2 filename fun j => j < FILE_NAME_SIZE ∧
      ∃ e < fs.direntries.toInt.toNat, AgreeTo (charAt u filename) (fs.files e).filename 0 j := by
  have h := (touches_readDentryLoop fs u filename fs.direntries.toInt.toNat 0).congr
    (Q := fun j => j < FILE_NAME_SIZE ∧ ∃ e < fs.direntries.toInt.toNat,
      AgreeTo (charAt u filename) (fs.files e).filename 0 j) fun j => by simp
  have hsnd : (k.open fs filename u).2 = (readDentryByName fs (stringAt filename) u).2 := by
    rw [Kernel.open, if_neg (not_not.mpr hin), bind_run]
    cases (readDentryByName fs (stringAt filename) u).1 with
    | none => rfl
    | some entry =>
      simp only
      split_ifs
      · rfl
      · generalize ((k.setFd _ _).currentPcb.fdArray _).fopsJmpTable = table
        cases table <;> rfl
  rw [hsnd]
  exact h

theorem strlen_ofList_takeWhile (l : List UInt8) :
    Id.run (strlen (ofList l) (l.length + 1) 0) = some (l.takeWhile (· ≠ NULL_CHAR)).length := by
  have hgen : ∀ fuel i, i ≤ l.length → l.length < fuel + i →
      Id.run (strlen (ofList l) fuel i) =
        some (i + ((l.drop i).takeWhile (· ≠ NULL_CHAR)).length) := by
    intro fuel
    induction fuel with
    | zero => intro i h1 h2; omega
    | succ fuel ih =>
      intro i h1 h2
      rw [strlen_run_succ]
      rcases h1.eq_or_lt with rfl | hlt
      · rw [ofList_run_of_ge le_rfl, if_pos rfl, List.drop_length]
        rfl
      · rw [ofList_run_of_lt hlt, List.drop_eq_getElem_cons hlt, List.takeWhile_cons]
        by_cases hnul : l[i] = NULL_CHAR
        · simp [hnul]
        · rw [if_neg hnul, ih (i + 1) hlt (by omega)]
          simp [hnul]
          omega
  have h := hgen (l.length + 1) 0 (Nat.zero_le _) (by omega)
  rwa [Nat.zero_add, List.drop_zero] at h

/-- A directory read writes `n` bytes, then looks at the last byte of a name and
at bytes before it. -/
theorem touches_readDirectory (fd : ℕ) (numBytes : Word)
    (hmore : ¬ fs.direntries.toInt ≤ (k.fds fd).position.toInt) :
    ∃ Q : ℕ → Prop, (∀ i, Q i → i < FILE_NAME_SIZE) ∧
      Touches u (k.readDirectory fs fd p numBytes u).2 p fun i =>
        (i < numBytes.toNat ∨ i = FILE_NAME_LST_IDX) ∨ Q i := by
  have hmore' : ¬ fs.direntries.toInt ≤ (k.currentPcb.fdArray fd).position.toInt := hmore
  rw [readDirectory]
  simp only [if_neg hmore', bind_run]
  set u₁ := (strncpy p (fs.files (k.currentPcb.fdArray fd).position.toNat).filename
    numBytes.toNat u).2 with hu₁
  have h₁ : Touches u u₁ p (· < numBytes.toNat) := touches_strncpy u p _ _
  have h₂ := h₁.trans (touches_load u₁ p FILE_NAME_LST_IDX)
  split_ifs with hlast
  · exact ⟨fun _ => False, fun i => False.elim, h₂.congr fun i => by simp⟩
  · refine ⟨_, fun i hi => ?_, h₂.trans (touches_strlen _ p FILE_NAME_SIZE 0)⟩
    omega

end Touches

section Containment

variable {fs : Fs} {residue : Residue} {k : Kernel} {bytes : Addr → UInt8} {p : Addr}

theorem room_lt : room p < 2 ^ 32 := by
  simp only [room, WINDOW_END, TASK_VIRTUAL_BASE_ADDRESS, LITERAL_4MB]
  omega

theorem touched_inWindow_iff {u' : UserMem} {P : ℕ → Prop} (hin : inWindow p)
    (h : Touches ⟨bytes, []⟩ u' p P) (hdown : ∀ i j, j ≤ i → P i → P j) :
    (∀ a ∈ u'.touched, inWindow a) ↔ ¬ P (room p) :=
  h.mem_window_iff hdown hin.1 hin.2 (by decide)

theorem touched_inWindow_lt_iff {u' : UserMem} {n : ℕ} (hin : inWindow p)
    (h : Touches ⟨bytes, []⟩ u' p (· < n)) : (∀ a ∈ u'.touched, inWindow a) ↔ n ≤ room p :=
  (touched_inWindow_iff hin h fun i j hji hi => by omega).trans not_lt

theorem ScanTo.mono {s : ℕ → UInt8} {i j j' : ℕ} (h : ScanTo s i j') (hj : j ≤ j') : ScanTo s i j :=
  fun l h1 h2 => h l h1 (by omega)

theorem AgreeTo.mono {s t : ℕ → UInt8} {i j j' : ℕ} (h : AgreeTo s t i j') (hj : j ≤ j') :
    AgreeTo s t i j := fun l h1 h2 => h l h1 (by omega)

theorem not_scanTo_iff (s : ℕ → UInt8) (n : ℕ) : ¬ ScanTo s 0 n ↔ ∃ i < n, s i = NULL_CHAR := by
  simp [ScanTo]

theorem contained_execute (command : Addr) :
    (UserCall.execute command).Contained fs residue k bytes ↔
      (UserCall.execute command).Fits fs k bytes := by
  cases hpid : k.getAvailablePid with
  | none =>
    have hused : k.Used 0 := getAvailablePid_eq_none hpid (by decide)
    have hpro : k.executePrologue = k.setInterruptFlag false := executePrologue_of_used k hused
    have hpid' : (k.setInterruptFlag false).getAvailablePid = none := hpid
    have hrun : k.execute fs residue command ⟨bytes, []⟩ =
        (some (.failed (k.setInterruptFlag false)), ⟨bytes, []⟩) := by
      rw [execute, internalExecute]
      simp only [hpro, hpid']
      rfl
    refine iff_of_true ⟨fun a ha => ?_, fun _ => hrun⟩ (Or.inl hpid)
    rw [UserCall.memory, hrun] at ha
    simp at ha
  | some pid =>
    have htouches := touches_execute fs residue k ⟨bytes, []⟩ command hpid
    have hfits : (UserCall.execute command).Fits fs k bytes ↔
        inWindow command ∧ ∃ i < room command, charAt ⟨bytes, []⟩ command i = NULL_CHAR := by
      simp [UserCall.Fits, hpid]
    rw [hfits]
    by_cases hin : inWindow command
    · have hiff := touched_inWindow_iff hin htouches fun i j hji h => ⟨by omega, h.2.mono hji⟩
      rw [not_and_or, not_scanTo_iff, or_iff_right (not_not.mpr room_lt)] at hiff
      exact ⟨fun h => ⟨hin, hiff.mp h.1⟩, fun h => ⟨hiff.mpr h.2, fun hout => absurd hin hout⟩⟩
    · have hfirst : command ∈ (k.execute fs residue command ⟨bytes, []⟩).2.touched :=
        (htouches command).mpr (Or.inr ⟨0, ⟨by decide, scanTo_self _ _⟩, by simp⟩)
      exact iff_of_false (fun h => hin (h.1 command hfirst)) fun h => hin h.1

/-- A directory entry is written to the size asked for, and to the end of a file name. -/
theorem touched_readDirectory_iff (hin : inWindow p) (fd : ℕ) (numBytes : Word)
    (hmore : ¬ fs.direntries.toInt ≤ (k.fds fd).position.toInt) :
    (∀ a ∈ (k.readDirectory fs fd p numBytes ⟨bytes, []⟩).2.touched, inWindow a) ↔
      numBytes.toNat ≤ room p ∧ FILE_NAME_SIZE ≤ room p := by
  obtain ⟨Q, hQ, htouches⟩ := touches_readDirectory fs k ⟨bytes, []⟩ p fd numBytes hmore
  have hlo := hin.1
  have hhi := hin.2
  simp only [TASK_VIRTUAL_BASE_ADDRESS, LITERAL_4MB] at hhi
  constructor
  · intro hall
    have hat : ∀ i, (i < numBytes.toNat ∨ i = FILE_NAME_LST_IDX) → p.toNat + i < 2 ^ 32 →
        i < room p := fun i hi hfit =>
      (add_mem_window_iff hlo hfit).mp (hall _ ((htouches _).mpr (Or.inr ⟨i, Or.inl hi, rfl⟩)))
    refine ⟨?_, hat FILE_NAME_LST_IDX (Or.inr rfl) (by simp only [FILE_NAME_LST_IDX]; omega)⟩
    by_contra hlt
    refine lt_irrefl _ (hat (room p) (Or.inl (by omega)) ?_)
    simp only [room, WINDOW_END, TASK_VIRTUAL_BASE_ADDRESS, LITERAL_4MB]
    omega
  · rintro ⟨hn, hname⟩ a ha
    obtain ha | ⟨i, hi, rfl⟩ := (htouches a).mp ha
    · simp at ha
    · have hlt : i < room p := by
        rcases hi with (hi | hi) | hi
        · omega
        · exact hi.trans_lt hname
        · exact (hQ i hi).trans_le hname
      refine (add_mem_window_iff hlo ?_).mpr hlt
      simp only [room, WINDOW_END, TASK_VIRTUAL_BASE_ADDRESS, LITERAL_4MB] at hlt
      omega

theorem contained_read (stdin : ℕ → UInt8) (fd : Word) (buf : Addr) (numBytes : Word) :
    (UserCall.read stdin fd buf numBytes).Contained fs residue k bytes ↔
      (UserCall.read stdin fd buf numBytes).Fits fs k bytes := by
  by_cases hopen : inWindow buf ∧ k.Open fd
  · have hrun := read_of_open k fs fd buf numBytes stdin hopen.1 hopen.2
    have hcontained : (UserCall.read stdin fd buf numBytes).Contained fs residue k bytes ↔
        ∀ a ∈ (k.read fs stdin fd buf numBytes ⟨bytes, []⟩).2.touched, inWindow a :=
      and_iff_left fun hout => absurd hopen.1 hout
    have hfits : (UserCall.read stdin fd buf numBytes).Fits fs k bytes ↔
        UserCall.ReadFits fs k stdin fd buf numBytes := or_iff_right (not_not.mpr hopen)
    rw [hcontained, hfits, hrun, UserCall.ReadFits]
    cases htable : (k.fds fd.toNat).fopsJmpTable with
    | null => exact iff_of_true (fun a ha => by simp at ha) trivial
    | rtc => exact iff_of_true (fun a ha => by simp at ha) trivial
    | terminal =>
      simp only [map_run]
      by_cases hfd : fd = STDIN
      · by_cases hn : numBytes.toInt < 0
        · rw [readTerminal, if_neg (not_not.mpr hfd), if_pos hn]
          exact iff_of_true (fun a ha => by simp at ha) (Or.inr (Or.inl hn))
        · have htouches := touches_readTerminal k ⟨bytes, []⟩ buf stdin numBytes hn
          rw [hfd, touched_inWindow_lt_iff hopen.1 htouches, ← not_lt, lt_drainLoop_length_iff,
            not_and_or, not_scanTo_iff]
          simp only [hn, not_lt, Nat.zero_add, Nat.lt_succ_iff, false_or, ne_eq, not_true_eq_false]
      · rw [readTerminal, if_pos hfd]
        exact iff_of_true (fun a ha => by simp at ha) (Or.inl hfd)
    | regularFile =>
      simp only [map_run, readFile_run]
      rw [touched_inWindow_lt_iff hopen.1 (touches_storeBytes _ _ _), ← not_lt, fileRead,
        lt_readData_length_iff]
      simp only [not_and_or, not_lt]
    | directory =>
      simp only [map_run]
      by_cases hmore : fs.direntries.toInt ≤ (k.fds fd.toNat).position.toInt
      · have hmore' : fs.direntries.toInt ≤ (k.currentPcb.fdArray fd.toNat).position.toInt := hmore
        rw [readDirectory]
        simp only [if_pos hmore']
        exact iff_of_true (fun a ha => by simp at ha) (Or.inl hmore)
      · rw [or_iff_right hmore]
        exact touched_readDirectory_iff hopen.1 fd.toNat numBytes hmore
  · have hrun := read_of_rejected k fs fd buf numBytes ⟨bytes, []⟩ stdin hopen
    refine iff_of_true ⟨fun a ha => ?_, fun _ => hrun⟩ (Or.inl hopen)
    rw [UserCall.memory, hrun] at ha
    simp at ha

theorem contained_write (fd : Word) (buf : Addr) (numBytes : Word) :
    (UserCall.write fd buf numBytes).Contained fs residue k bytes ↔
      (UserCall.write fd buf numBytes).Fits fs k bytes := by
  by_cases hopen : inWindow buf ∧ k.Open fd
  · have hrun := write_of_open k fd buf numBytes hopen.1 hopen.2
    have hcontained : (UserCall.write fd buf numBytes).Contained fs residue k bytes ↔
        ∀ a ∈ (k.write fd buf numBytes ⟨bytes, []⟩).2.touched, inWindow a :=
      and_iff_left fun hout => absurd hopen.1 hout
    have hfits : (UserCall.write fd buf numBytes).Fits fs k bytes ↔
        UserCall.WriteFits k (charAt ⟨bytes, []⟩ buf) fd buf numBytes :=
      or_iff_right (not_not.mpr hopen)
    rw [hcontained, hfits, hrun, UserCall.WriteFits]
    cases htable : (k.fds fd.toNat).fopsJmpTable with
    | null => exact iff_of_true (fun a ha => by simp at ha) trivial
    | rtc =>
      simp only [map_run]
      rw [touched_inWindow_lt_iff hopen.1 (touches_writeRtc k ⟨bytes, []⟩ buf)]
    | terminal =>
      simp only [map_run]
      by_cases hfd : fd = STDOUT
      · by_cases hn : numBytes.toInt < 0
        · rw [writeTerminal, if_neg (not_not.mpr hfd), if_pos hn]
          exact iff_of_true (fun a ha => by simp at ha) (Or.inr (Or.inl hn))
        · have htouches := touches_writeTerminal k ⟨bytes, []⟩ buf numBytes hn
          rw [hfd, touched_inWindow_iff hopen.1 htouches fun i j hji h => ⟨by omega, h.2.mono hji⟩,
            not_and_or, not_scanTo_iff]
          simp only [hn, Nat.lt_succ_iff, not_le, false_or, ne_eq, not_true_eq_false]
      · rw [writeTerminal, if_pos hfd]
        exact iff_of_true (fun a ha => by simp at ha) (Or.inl hfd)
    | regularFile => exact iff_of_true (fun a ha => by simp at ha) trivial
    | directory => exact iff_of_true (fun a ha => by simp at ha) trivial
  · have hrun := write_of_rejected k fd buf numBytes ⟨bytes, []⟩ hopen
    refine iff_of_true ⟨fun a ha => ?_, fun _ => hrun⟩ (Or.inl hopen)
    rw [UserCall.memory, hrun] at ha
    simp at ha

theorem contained_open (filename : Addr) :
    (UserCall.open filename).Contained fs residue k bytes ↔
      (UserCall.open filename).Fits fs k bytes := by
  by_cases hin : inWindow filename
  · have hcontained : (UserCall.open filename).Contained fs residue k bytes ↔
        ∀ a ∈ (k.open fs filename ⟨bytes, []⟩).2.touched, inWindow a :=
      and_iff_left fun hout => absurd hin hout
    have htouches := touches_open fs k ⟨bytes, []⟩ hin
    rw [hcontained, touched_inWindow_iff hin htouches fun i j hji ⟨h1, e, h2, h3⟩ =>
      ⟨by omega, e, h2, h3.mono hji⟩, UserCall.Fits, or_iff_right (not_not.mpr hin), not_and_or, not_lt]
    simp only [not_exists, not_and]
  · have hrun : k.open fs filename ⟨bytes, []⟩ = (some (FAILURE, k), ⟨bytes, []⟩) := by
      rw [Kernel.open, if_pos hin]
      rfl
    refine iff_of_true ⟨fun a ha => ?_, fun _ => hrun⟩ (Or.inl hin)
    rw [UserCall.memory, hrun] at ha
    simp at ha

theorem contained_getargs (buf : Addr) (numBytes : Word) :
    (UserCall.getargs buf numBytes).Contained fs residue k bytes ↔
      (UserCall.getargs buf numBytes).Fits fs k bytes := by
  by_cases hrefused : numBytes.toInt < 0 ∨ ¬ inWindow buf
  · have hrun : k.getargs buf numBytes ⟨bytes, []⟩ = (some FAILURE, ⟨bytes, []⟩) := by
      rw [getargs]
      rcases hrefused with hn | hout
      · rw [if_pos hn]
        rfl
      · split_ifs
        · rfl
        · rfl
    refine iff_of_true ⟨fun a ha => ?_, fun _ => hrun⟩ (hrefused.imp_right Or.inl)
    rw [UserCall.memory, hrun] at ha
    simp at ha
  · rw [not_or, not_not] at hrefused
    obtain ⟨hn, hin⟩ := hrefused
    have hcontained : (UserCall.getargs buf numBytes).Contained fs residue k bytes ↔
        ∀ a ∈ (k.getargs buf numBytes ⟨bytes, []⟩).2.touched, inWindow a :=
      and_iff_left fun hout => absurd hin hout
    rw [hcontained, UserCall.Fits, or_iff_right hn, or_iff_right (not_not.mpr hin), getargs,
      if_neg hn, if_neg (not_not.mpr hin)]
    cases hargs : k.currentPcb.args with
    | none => exact iff_of_true (fun a ha => by simp at ha) (Or.inr fun args h => by simp at h)
    | some args =>
      have hmem : (∀ a ∈ some args, numBytes.toNat < (a.takeWhile (· ≠ NULL_CHAR)).length) ↔
          numBytes.toNat < (args.takeWhile (· ≠ NULL_CHAR)).length := by simp
      simp only [strlen_ofList_takeWhile, Option.getD_some]
      rw [hmem]
      by_cases hlong : numBytes.toNat < (args.takeWhile (· ≠ NULL_CHAR)).length
      · rw [if_pos hlong]
        exact iff_of_true (fun a ha => by simp at ha) (Or.inr hlong)
      · rw [if_neg hlong, or_iff_left hlong]
        exact touched_inWindow_lt_iff hin (touches_strncpy ⟨bytes, []⟩ buf _ _)

theorem contained_vidmap (screenStart : Addr) :
    (UserCall.vidmap screenStart).Contained fs residue k bytes ↔
      (UserCall.vidmap screenStart).Fits fs k bytes := by
  by_cases hin : inWindow screenStart
  · have hcontained : (UserCall.vidmap screenStart).Contained fs residue k bytes ↔
        ∀ a ∈ (k.vidmap screenStart ⟨bytes, []⟩).2.touched, inWindow a :=
      and_iff_left fun hout => absurd hin hout
    rw [hcontained, UserCall.Fits, or_iff_right (not_not.mpr hin), vidmap, if_neg (not_not.mpr hin)]
    exact touched_inWindow_lt_iff hin
      (touches_storeBytes ⟨bytes, []⟩ screenStart [0x00, 0x80, 0x0B, 0x00])
  · have hrun : k.vidmap screenStart ⟨bytes, []⟩ = ((FAILURE, k), ⟨bytes, []⟩) := by
      rw [vidmap, if_pos hin]
      rfl
    refine iff_of_true ⟨fun a ha => ?_, fun _ => hrun⟩ (Or.inl hin)
    rw [UserCall.memory, hrun] at ha
    simp at ha

end Containment

/-- A system call stays in the user window exactly when the bytes that it goes on
to, as its arguments and the contents of memory determine them, end there. -/
theorem user_pointer_containment (fs : Fs) (residue : Residue) (k : Kernel) (bytes : Addr → UInt8)
    (c : UserCall) : c.Contained fs residue k bytes ↔ c.Fits fs k bytes := by
  cases c with
  | execute command => exact contained_execute command
  | read stdin fd buf numBytes => exact contained_read stdin fd buf numBytes
  | write fd buf numBytes => exact contained_write fd buf numBytes
  | «open» filename => exact contained_open filename
  | getargs buf numBytes => exact contained_getargs buf numBytes
  | vidmap screenStart => exact contained_vidmap screenStart

/-- `vidmap` at the last byte of the window stores three bytes past its end. -/
theorem vidmap_past_window :
    ¬ (UserCall.vidmap 0x083FFFFF#32).Contained shellFs zeroResidue shellKernel fun _ => 0 := by
  intro h
  have hmem : 0x08400000#32 ∈ ((UserCall.vidmap 0x083FFFFF#32).memory shellFs zeroResidue
      shellKernel ⟨fun _ => 0, []⟩).touched := by decide
  exact absurd (h.1 _ hmem) (by decide)

end SnoopDos
