import SnoopDos.Proofs.Switching
import SnoopDos.Spec.Files

/-! What the calls on descriptors do to the running process's table. Each lemma
says all that a call can change, so that nothing below unfolds a call again. -/

namespace SnoopDos

namespace Kernel

variable (k : Kernel)

/-- The descriptor table of the running process. -/
def fds : ℕ → FileInfo := k.currentPcb.fdArray

/-- `k'` runs the same process, with at most its table changed, to `t`. -/
structure WithFds (k' : Kernel) (t : ℕ → FileInfo) : Prop where
  esp0 : k'.esp0 = k.esp0
  pcbs : k'.pcbs = Function.update k.pcbs k.pcbCurr { k.currentPcb with fdArray := t }
  pidAvail : k'.pidAvail = k.pidAvail
  cr3 : k'.cr3 = k.cr3
  terminalState : k'.terminalState = k.terminalState
  terminalPid : ∀ i, (k'.terminals i).pid = (k.terminals i).pid

variable {k} {k' : Kernel} {t : ℕ → FileInfo}

theorem WithFds.pcbCurr (h : k.WithFds k' t) : k'.pcbCurr = k.pcbCurr := by
  rw [Kernel.pcbCurr, h.esp0, Kernel.pcbCurr]

theorem WithFds.currentPcb (h : k.WithFds k' t) :
    k'.currentPcb = { k.currentPcb with fdArray := t } := by
  rw [Kernel.currentPcb, h.pcbCurr, h.pcbs, Function.update_self]

theorem WithFds.fds (h : k.WithFds k' t) : k'.fds = t := by
  rw [Kernel.fds, h.currentPcb]

theorem WithFds.trans {k'' : Kernel} {t' : ℕ → FileInfo} (h : k.WithFds k' t)
    (h' : k'.WithFds k'' t') : k.WithFds k'' t' :=
  ⟨h'.esp0.trans h.esp0, by rw [h'.pcbs, h.pcbCurr, h.pcbs, h.currentPcb, Function.update_idem],
    h'.pidAvail.trans h.pidAvail, h'.cr3.trans h.cr3, h'.terminalState.trans h.terminalState,
    fun i => (h'.terminalPid i).trans (h.terminalPid i)⟩

theorem WithFds.refl : k.WithFds k k.fds :=
  ⟨rfl, (Function.update_eq_self _ _).symm, rfl, rfl, rfl, fun _ => rfl⟩

theorem setFd_withFds (fd : ℕ) (f : FileInfo → FileInfo) :
    k.WithFds (k.setFd fd f) (Function.update k.fds fd (f (k.fds fd))) :=
  ⟨rfl, rfl, rfl, rfl, rfl, fun _ => rfl⟩

theorem WithFds.saveScreenXY (h : k.WithFds k' t) (n : ℕ) : k.WithFds (k'.saveScreenXY n) t :=
  ⟨h.esp0, h.pcbs, h.pidAvail, h.cr3, h.terminalState,
    fun i => (saveScreenXY_pid k' n i).trans (h.terminalPid i)⟩

theorem WithFds.setScreenXY (h : k.WithFds k' t) (x y : ℤ) : k.WithFds (k'.setScreenXY x y) t :=
  ⟨h.esp0, h.pcbs, h.pidAvail, h.cr3, h.terminalState, h.terminalPid⟩

theorem WithFds.setScreen (h : k.WithFds k' t) (s : Screen (Addr → UInt8)) :
    k.WithFds (k'.setScreen s) t :=
  ⟨h.esp0, h.pcbs, h.pidAvail, h.cr3, h.terminalState, h.terminalPid⟩

/-- The table after the position of one descriptor is set. -/
def withPosition (t : ℕ → FileInfo) (fd : ℕ) (pos : Word) : ℕ → FileInfo :=
  Function.update t fd { t fd with position := pos }

theorem withPosition_self (t : ℕ → FileInfo) (fd : ℕ) : withPosition t fd (t fd).position = t :=
  Function.update_eq_self fd t

section Calls

variable (k) (fs : Fs) (fd : Word) (n : ℕ) (buf : Addr) (numBytes : Word) (u : UserMem)

/-- The `read_data` call of `read_file`. -/
def fileRead : ReadData :=
  readData fs (getInodeNum fs (k.fds n).inode) (k.fds n).position numBytes

theorem readFile_run : k.readFile fs n buf numBytes u =
    (((k.fileRead fs n numBytes).ret,
      if 0 < (k.fileRead fs n numBytes).ret.toInt then
        k.setFd n fun f => { f with position := f.position + (k.fileRead fs n numBytes).ret }
      else k),
      (UserMem.storeBytes buf (k.fileRead fs n numBytes).bytes u).2) := by
  simp only [readFile, UserMem.bind_run]
  split_ifs with h h' h'
  · rfl
  · exact absurd h h'
  · exact absurd h' h
  · rfl

theorem readFile_withFds : k.WithFds (k.readFile fs n buf numBytes u).1.2
    (withPosition k.fds n ((k.fds n).position +
      if 0 < (k.fileRead fs n numBytes).ret.toInt then (k.fileRead fs n numBytes).ret else 0#32)) := by
  rw [readFile_run]
  split_ifs with h
  · exact setFd_withFds n fun f =>
      { f with position := f.position + (k.fileRead fs n numBytes).ret }
  · rw [BitVec.add_zero, withPosition_self]
    exact WithFds.refl

theorem readDirectory_withFds :
    ∃ pos, k.WithFds (k.readDirectory fs n buf numBytes u).1.2 (withPosition k.fds n pos) := by
  simp only [readDirectory]
  split_ifs with h
  · exact ⟨(k.fds n).position, by rw [withPosition_self]; exact WithFds.refl⟩
  · refine ⟨(k.fds n).position + 1#32, ?_⟩
    simp only [UserMem.bind_run]
    split_ifs <;> exact setFd_withFds n fun f => { f with position := f.position + 1#32 }

theorem readTerminal_frame (stdin : ℕ → UInt8) :
    k.WithFds (k.readTerminal stdin fd buf numBytes u).1.2 k.fds := by
  simp only [readTerminal]
  split_ifs
  · exact WithFds.refl
  · exact WithFds.refl
  · refine ⟨rfl, (Function.update_eq_self _ _).symm, rfl, rfl, rfl, fun i => ?_⟩
    simp only [UserMem.bind_run, UserMem.pure_run, readTerminalDrain, readTerminalStart]
    rw [setTerminal_pid, setTerminal_pid, setTerminal_pid] <;> exact fun _ => rfl

theorem writeTerminal_frame : k.WithFds
    (k.writeTerminal fd (UserMem.stringAt buf) numBytes u).1.2 k.fds := by
  simp only [writeTerminal]
  split_ifs
  · exact WithFds.refl
  · exact WithFds.refl
  · have hself : k.WithFds k k.fds := WithFds.refl
    have hstart := (hself.saveScreenXY k.terminalState).setScreenXY
      ((k.saveScreenXY k.terminalState).terminals k.terminalBeingServiced).screenX
      ((k.saveScreenXY k.terminalState).terminals k.terminalBeingServiced).screenY
    exact ((hstart.setScreen _).saveScreenXY _).setScreenXY _ _

theorem writeRtc_frame : k.WithFds (k.writeRtc buf u).1.2 k.fds := by
  simp only [writeRtc, UserMem.bind_run]
  split_ifs
  · exact ⟨rfl, (Function.update_eq_self _ _).symm, rfl, rfl, rfl, fun _ => rfl⟩
  · exact WithFds.refl

/-- The descriptor number is in range and its slot in use. -/
def Open : Prop := badFd fd = false ∧ (k.fds fd.toNat).flags &&& 1#32 ≠ 0#32

theorem read_of_rejected (stdin : ℕ → UInt8) (h : ¬ (inWindow buf ∧ k.Open fd)) :
    k.read fs stdin fd buf numBytes u = (some (FAILURE, k), u) := by
  rw [read]
  by_cases hbuf : inWindow buf
  · by_cases hfd : badFd fd = true
    · simp [hbuf, hfd]
    · have hflags : (k.currentPcb.fdArray fd.toNat).flags &&& 1#32 = 0#32 := by
        by_contra hne
        exact h ⟨hbuf, by simpa using hfd, hne⟩
      simp [hbuf, hfd, hflags]
  · simp [hbuf]

theorem write_of_rejected (h : ¬ (inWindow buf ∧ k.Open fd)) :
    k.write fd buf numBytes u = (some (FAILURE, k), u) := by
  rw [write]
  by_cases hbuf : inWindow buf
  · by_cases hfd : badFd fd = true
    · simp [hbuf, hfd]
    · have hflags : (k.currentPcb.fdArray fd.toNat).flags &&& 1#32 = 0#32 := by
        by_contra hne
        exact h ⟨hbuf, by simpa using hfd, hne⟩
      simp [hbuf, hfd, hflags]
  · simp [hbuf]

theorem read_of_open (stdin : ℕ → UInt8) (hbuf : inWindow buf) (h : k.Open fd) :
    k.read fs stdin fd buf numBytes =
      match (k.fds fd.toNat).fopsJmpTable with
      | .null => pure none
      | .rtc => pure (some k.readRtc)
      | .terminal => some <$> k.readTerminal stdin fd buf numBytes
      | .regularFile => some <$> k.readFile fs fd.toNat buf numBytes
      | .directory => some <$> k.readDirectory fs fd.toNat buf numBytes := by
  rw [read, if_neg (not_not.mpr hbuf), if_neg (by simp [h.1])]
  exact if_neg h.2

theorem write_of_open (hbuf : inWindow buf) (h : k.Open fd) :
    k.write fd buf numBytes =
      match (k.fds fd.toNat).fopsJmpTable with
      | .null => pure none
      | .rtc => some <$> k.writeRtc buf
      | .terminal => some <$> k.writeTerminal fd (UserMem.stringAt buf) numBytes
      | .regularFile => pure (some (FAILURE, k))
      | .directory => pure (some (FAILURE, k)) := by
  rw [write, if_neg (not_not.mpr hbuf), if_neg (by simp [h.1])]
  exact if_neg h.2

variable {k fs fd n buf numBytes u}

theorem openRtc_withFds : k.WithFds k.openRtc k.fds := by
  rw [Kernel.openRtc]
  split_ifs
  · exact WithFds.refl
  · exact ⟨rfl, (Function.update_eq_self _ _).symm, rfl, rfl, rfl, fun _ => rfl⟩

/-- What an `open` that returns has done: it fails without a file or without a slot. -/
theorem open_cases {filename : Addr} {ret : Word}
    (h : (k.open fs filename u).1 = some (ret, k')) :
    (ret = FAILURE ∧ k' = k ∧ ∀ entry, inWindow filename →
      (readDentryByName fs (UserMem.stringAt filename) u).1 = some entry →
      allocLoop k.fds (MAX_FD_PER_PROCESS - MIN_FD_PER_PROCESS) MIN_FD_PER_PROCESS =
        MAX_FD_PER_PROCESS) ∨
    ∃ entry i, (readDentryByName fs (UserMem.stringAt filename) u).1 = some entry ∧
      i = allocLoop k.fds (MAX_FD_PER_PROCESS - MIN_FD_PER_PROCESS) MIN_FD_PER_PROCESS ∧
      i ≠ MAX_FD_PER_PROCESS ∧ ret = BitVec.ofNat 32 i ∧
      k.WithFds k' (Function.update k.fds i (openedFd fs entry (k.fds i))) := by
  have hself : some (FAILURE, k) = some (ret, k') → ret = FAILURE ∧ k' = k := fun heq => by
    obtain ⟨rfl, rfl⟩ := Prod.mk.inj (Option.some.inj heq)
    exact ⟨rfl, rfl⟩
  rw [Kernel.open] at h
  by_cases hin : inWindow filename
  · rw [if_neg (not_not.mpr hin), UserMem.bind_run] at h
    cases hfound : (readDentryByName fs (UserMem.stringAt filename) u).1 with
    | none =>
      rw [hfound] at h
      obtain ⟨hret, hk⟩ := hself h
      exact Or.inl ⟨hret, hk, fun entry _ hsome => absurd hsome (by simp)⟩
    | some entry =>
      rw [hfound] at h
      simp only [show k.currentPcb.fdArray = k.fds from rfl] at h
      split_ifs at h with hfull
      · obtain ⟨hret, hk⟩ := hself h
        exact Or.inl ⟨hret, hk, fun _ _ _ => hfull⟩
      · refine Or.inr ⟨entry, _, rfl, rfl, hfull, ?_⟩
        generalize allocLoop k.fds _ _ = i at h ⊢
        have hset := setFd_withFds (k := k) i (openedFd fs entry)
        have hrtc := openRtc_withFds (k := k.setFd i (openedFd fs entry))
        rw [hset.fds] at hrtc
        cases htable : ((k.setFd i (openedFd fs entry)).currentPcb.fdArray i).fopsJmpTable <;>
          simp only [htable, UserMem.pure_run] at h
        · simp at h
        · obtain ⟨rfl, rfl⟩ := Prod.mk.inj (Option.some.inj h)
          exact ⟨rfl, hset.trans hrtc⟩
        all_goals
          obtain ⟨rfl, rfl⟩ := Prod.mk.inj (Option.some.inj h)
          exact ⟨rfl, hset⟩
  · rw [if_pos hin] at h
    obtain ⟨hret, hk⟩ := hself h
    exact Or.inl ⟨hret, hk, fun _ hwin => absurd hwin hin⟩

theorem open_withFds {filename : Addr} {ret : Word}
    (h : (k.open fs filename u).1 = some (ret, k')) : ∃ t, k.WithFds k' t := by
  rcases open_cases h with ⟨-, rfl, -⟩ | ⟨entry, i, -, -, -, -, hk⟩
  · exact ⟨_, WithFds.refl⟩
  · exact ⟨_, hk⟩

theorem close_cases {ret : Word} (h : k.close fd = some (ret, k')) :
    (ret = FAILURE ∧ k' = k) ∨
      (ret = SUCCESS ∧ k' = k.setFd fd.toNat fun f => { f with flags := 0#32 }) := by
  have hself : some (FAILURE, k) = some (ret, k') → ret = FAILURE ∧ k' = k := fun heq => by
    obtain ⟨rfl, rfl⟩ := Prod.mk.inj (Option.some.inj heq)
    exact ⟨rfl, rfl⟩
  rw [close] at h
  split_ifs at h with hrange
  · exact Or.inl (hself h)
  · simp only at h
    split_ifs at h
    · exact Or.inl (hself h)
    · cases htable : (k.currentPcb.fdArray fd.toNat).fopsJmpTable <;> simp only [htable] at h
      · simp at h
      all_goals
        obtain ⟨rfl, rfl⟩ := Prod.mk.inj (Option.some.inj h)
        exact Or.inr ⟨rfl, rfl⟩

theorem close_withFds {ret : Word} (h : k.close fd = some (ret, k')) : ∃ t, k.WithFds k' t := by
  rcases close_cases h with ⟨-, rfl⟩ | ⟨-, rfl⟩
  · exact ⟨_, WithFds.refl⟩
  · exact ⟨_, setFd_withFds fd.toNat fun f => { f with flags := 0#32 }⟩

theorem read_withFds {stdin : ℕ → UInt8} {ret : Word}
    (h : (k.read fs stdin fd buf numBytes u).1 = some (ret, k')) :
    ∃ pos, k.WithFds k' (withPosition k.fds fd.toNat pos) := by
  have hself : ∀ {k' : Kernel}, k.WithFds k' k.fds →
      ∃ pos, k.WithFds k' (withPosition k.fds fd.toNat pos) := fun hk =>
    ⟨(k.fds fd.toNat).position, by rwa [withPosition_self]⟩
  by_cases hopen : inWindow buf ∧ k.Open fd
  · rw [read_of_open k fs fd buf numBytes stdin hopen.1 hopen.2] at h
    split at h
    · simp at h
    · obtain rfl : k.readRtc.2 = k' := congrArg Prod.snd (Option.some.inj h)
      exact hself ⟨rfl, (Function.update_eq_self _ _).symm, rfl, rfl, rfl, fun _ => rfl⟩
    · obtain rfl : (k.readTerminal stdin fd buf numBytes u).1.2 = k' :=
        congrArg Prod.snd (Option.some.inj h)
      exact hself (k.readTerminal_frame fd buf numBytes u stdin)
    · obtain rfl : (k.readFile fs fd.toNat buf numBytes u).1.2 = k' :=
        congrArg Prod.snd (Option.some.inj h)
      exact ⟨_, k.readFile_withFds fs fd.toNat buf numBytes u⟩
    · obtain rfl : (k.readDirectory fs fd.toNat buf numBytes u).1.2 = k' :=
        congrArg Prod.snd (Option.some.inj h)
      exact k.readDirectory_withFds fs fd.toNat buf numBytes u
  · rw [read_of_rejected k fs fd buf numBytes u stdin hopen] at h
    obtain ⟨-, rfl⟩ := Prod.mk.inj (Option.some.inj h)
    exact hself WithFds.refl

theorem write_withFds {ret : Word} (h : (k.write fd buf numBytes u).1 = some (ret, k')) :
    k.WithFds k' k.fds := by
  by_cases hopen : inWindow buf ∧ k.Open fd
  · rw [write_of_open k fd buf numBytes hopen.1 hopen.2] at h
    split at h
    · simp at h
    · obtain rfl : (k.writeRtc buf u).1.2 = k' := congrArg Prod.snd (Option.some.inj h)
      exact k.writeRtc_frame buf u
    · obtain rfl : (k.writeTerminal fd (UserMem.stringAt buf) numBytes u).1.2 = k' :=
        congrArg Prod.snd (Option.some.inj h)
      exact k.writeTerminal_frame fd buf numBytes u
    · obtain ⟨-, rfl⟩ := Prod.mk.inj (Option.some.inj h)
      exact WithFds.refl
    · obtain ⟨-, rfl⟩ := Prod.mk.inj (Option.some.inj h)
      exact WithFds.refl
  · rw [write_of_rejected k fd buf numBytes u hopen] at h
    obtain ⟨-, rfl⟩ := Prod.mk.inj (Option.some.inj h)
    exact WithFds.refl

end Calls

end Kernel

end SnoopDos
