import SnoopDos.Proofs.FdTable
import SnoopDos.Proofs.KeyScreens
import SnoopDos.Proofs.Schedule
import SnoopDos.Proofs.ScreenBounds

/-! Keys in a running system. Whatever processes and interrupts have done since the
boot, every process has the screen of its terminal and every cursor is on the grid, so
what a key does is decided by the state it comes in. -/

namespace SnoopDos

/-- The kernel in which the call ends. -/
def ExecResult.kernel : ExecResult → Kernel
  | .failed k => k
  | .started k _ => k

namespace Kernel

/-- The numbers of terminals and the cursors are in range. -/
structure InRange (k : Kernel) : Prop where
  visible : k.terminalState < NUM_TERMINALS
  serviced : k.terminalBeingServiced < NUM_TERMINALS
  cursors : k.CursorsOnGrid

/-- From `k` to `k'` no process has been started and no other terminal shown. -/
structure Steady (k k' : Kernel) : Prop where
  visible : k'.terminalState = k.terminalState
  paging : k'.paging = k.paging
  used : ∀ p, k'.Used p → k.Used p
  owner : ∀ p, k'.owner p = k.owner p
  inRange : k.InRange → k'.InRange

section Steady

variable {k k' k'' : Kernel}

theorem owner_congr (h : ∀ a, (k'.pcbs a).ownedByTerminal = (k.pcbs a).ownedByTerminal) (p : ℕ) :
    k'.owner p = k.owner p := h (pcbAddr p)

theorem Steady.refl (k : Kernel) : k.Steady k := ⟨rfl, rfl, fun _ h => h, fun _ => rfl, id⟩

theorem Steady.trans (h : k.Steady k') (h' : k'.Steady k'') : k.Steady k'' where
  visible := h'.visible.trans h.visible
  paging := h'.paging.trans h.paging
  used p hp := h.used p (h'.used p hp)
  owner p := (h'.owner p).trans (h.owner p)
  inRange hk := h'.inRange (h.inRange hk)

theorem Steady.serve (h : k.Steady k') :
    k.Steady { k' with terminalBeingServiced := k.terminalBeingServiced } where
  visible := h.visible
  paging := h.paging
  used := h.used
  owner := h.owner
  inRange hk :=
    ⟨(h.inRange hk).visible, hk.serviced, (h.inRange hk).cursors.cursor, (h.inRange hk).cursors.saved⟩

theorem Drawn.steady (h : k.Drawn k') (hcursors : k.InRange → k'.CursorsOnGrid) :
    k.Steady k' := by
  obtain ⟨htasks, hvisible⟩ := h.sameTasks
  have hpaging : k'.paging = k.paging := by
    obtain ⟨_, _, _, _, _, _, _, rfl, -⟩ := h
    rfl
  exact ⟨hvisible, hpaging, fun p hp => (used_congr htasks.pidAvail).mp hp,
    owner_congr fun a => by rw [htasks.pcbs], fun hk => ⟨hvisible ▸ hk.visible,
      htasks.terminalBeingServiced ▸ hk.serviced, hcursors hk⟩⟩

variable (k)

theorem setInterruptFlag_steady (b : Bool) : k.Steady (k.setInterruptFlag b) :=
  ⟨rfl, rfl, fun _ h => h, fun _ => rfl, fun h => ⟨h.visible, h.serviced, h.cursors.cursor,
    h.cursors.saved⟩⟩

theorem setNewPageDirectory_steady (d : DirectoryPtr) : k.Steady (k.setNewPageDirectory d) :=
  ⟨rfl, rfl, fun _ h => h, fun _ => rfl, fun h => ⟨h.visible, h.serviced, h.cursors.cursor,
    h.cursors.saved⟩⟩

theorem setEsp0_steady (a : Addr) : k.Steady { k with esp0 := a } :=
  ⟨rfl, rfl, fun _ h => h, fun _ => rfl, fun h => ⟨h.visible, h.serviced, h.cursors.cursor,
    h.cursors.saved⟩⟩

theorem setKeyboardState_steady (w : Word) : k.Steady { k with keyboardState := w } :=
  ⟨rfl, rfl, fun _ h => h, fun _ => rfl, fun h => ⟨h.visible, h.serviced, h.cursors.cursor,
    h.cursors.saved⟩⟩

theorem pressed_steady (raw : UInt8) : k.Steady (k.pressed raw) :=
  (k.setKeyboardState_steady _).trans (setNewPageDirectory_steady _ _)

theorem setServiced_steady {t : ℕ} (ht : k.InRange → t < NUM_TERMINALS) :
    k.Steady { k with terminalBeingServiced := t } :=
  ⟨rfl, rfl, fun _ h => h, fun _ => rfl, fun h => ⟨h.visible, ht h, h.cursors.cursor,
    h.cursors.saved⟩⟩

theorem setPcb_steady (a : Addr) {f : Pcb → Pcb}
    (hf : ∀ c, (f c).ownedByTerminal = c.ownedByTerminal) : k.Steady (k.setPcb a f) := by
  have howner (b : Addr) : ((k.setPcb a f).pcbs b).ownedByTerminal = (k.pcbs b).ownedByTerminal := by
    unfold setPcb
    dsimp only
    rcases eq_or_ne b a with rfl | hne
    · rw [Function.update_self]
      exact hf _
    · rw [Function.update_of_ne hne]
  exact ⟨rfl, rfl, fun _ h => h, owner_congr howner, fun h => ⟨h.visible, h.serviced,
    h.cursors.cursor, h.cursors.saved⟩⟩

theorem saveProcessContext_steady (eip : CodeLabel) (frame : Frame) :
    k.Steady (k.saveProcessContext eip frame) := k.setPcb_steady _ fun _ => rfl

theorem setTerminal_steady (t : ℕ) {f : Terminal → Terminal}
    (hf : ∀ u, (f u).screenX = u.screenX ∧ (f u).screenY = u.screenY) :
    k.Steady (k.setTerminal t f) := by
  refine ⟨rfl, rfl, fun _ h => h, fun _ => rfl, fun h => ⟨h.visible, h.serviced, h.cursors.cursor,
    fun u hu => ?_⟩⟩
  unfold setTerminal
  dsimp only
  rcases eq_or_ne u t with rfl | hne
  · rw [Function.update_self, (hf _).1, (hf _).2]
    exact h.cursors.saved u hu
  · rw [Function.update_of_ne hne]
    exact h.cursors.saved u hu

theorem markPidFree_steady (pid : ℤ) : k.Steady (k.markPidFree pid) := by
  obtain ⟨w, hk⟩ := k.markPidFree_frame pid
  have hused : ∀ p, (k.markPidFree pid).Used p → k.Used p := by
    intro p hp
    by_cases hrange : 0 ≤ pid ∧ pid < MAX_NUM_PROCS
    · obtain ⟨n, rfl⟩ := Int.eq_ofNat_of_zero_le hrange.1
      have hn : n < MAX_NUM_PROCS := by exact_mod_cast hrange.2
      exact ((used_remove hn (markPidFree_pidAvail hn)).mp hp).2
    · rwa [markPidFree, if_neg hrange] at hp
  refine ⟨?_, ?_, hused, fun p => ?_, fun h => ?_⟩
  · rw [hk]
  · rw [hk]
  · rw [hk]
    rfl
  · rw [hk]
    exact ⟨h.visible, h.serviced, h.cursors.cursor, h.cursors.saved⟩

theorem executePrologue_steady : k.Steady k.executePrologue := by
  unfold executePrologue
  have hflag := k.setInterruptFlag_steady false
  extract_lets k₁
  split_ifs
  · exact hflag.trans (k₁.setPcb_steady _ fun _ => rfl)
  · exact hflag

section Drawing

theorem putcKbd_steady (c : UInt8) : k.Steady (k.putcKbd c) :=
  (k.putcKbd_drawn c).steady fun h => (putc_safe h.cursors c).cursors

theorem writeTerminal_steady (fd : Word) (buf : ℕ → Id UInt8) (nbytes : Word) :
    k.Steady (Id.run (k.writeTerminal fd buf nbytes)).2 :=
  (k.writeTerminal_shown fd buf nbytes).drawn.steady fun h =>
    (write_safe h.cursors ⟨k.terminalBeingServiced, h.serviced⟩ fd buf nbytes).cursors

theorem printfT_steady (format : List UInt8) : k.Steady (k.printfT format) := by
  induction format generalizing k with
  | nil => exact Steady.refl k
  | cons c format ih => exact (k.writeTerminal_steady STDOUT (ofList [c]) 1#32).trans (ih _)

theorem clearAndReset_steady : k.Steady k.clearAndReset :=
  k.clearAndReset_shown.drawn.steady fun h => (clearAndReset_safe h.cursors).cursors

theorem applyAttributes_steady (a b : ℕ) :
    k.Steady { k with kbdAttribute := a, kbdBackAttribute := b }.applyAttributes := by
  refine (k.applyAttributes_shown a b).drawn.steady fun h => ?_
  unfold applyAttributes changeAtribute
  exact ⟨h.cursors.cursor, h.cursors.saved⟩

theorem appendStdin_steady (c : UInt8) : k.Steady (k.appendStdin c) :=
  k.setTerminal_steady _ fun _ => ⟨rfl, rfl⟩

theorem backspaceKey_steady : k.Steady k.backspaceKey := by
  unfold backspaceKey
  split_ifs
  · exact (k.putcKbd_steady BKSP_CHAR).trans (setTerminal_steady _ _ fun _ => ⟨rfl, rfl⟩)
  · exact Steady.refl k

theorem edited_cursor (u : Terminal) (edit : Edit) :
    (u.edited edit).screenX = u.screenX ∧ (u.edited edit).screenY = u.screenY := by
  cases edit with
  | enter =>
    unfold Terminal.edited
    split_ifs
    · exact ⟨rfl, rfl⟩
    · exact ⟨rfl, rfl⟩
  | _ => exact ⟨rfl, rfl⟩

theorem enterKey_steady : k.Steady k.enterKey := by
  rw [enterKey_eq]
  exact (k.putcKbd_steady NEW_LINE).trans (setTerminal_steady _ _ fun u => edited_cursor u .enter)

theorem typeKey_steady (mapped : Scancode) : k.Steady (k.typeKey mapped) := by
  unfold typeKey
  split_ifs
  · exact Steady.refl k
  · cases mappedChar k.keyboardState mapped with
    | none => exact Steady.refl k
    | some c => exact (k.putcKbd_steady c).trans (appendStdin_steady _ c)

theorem switchTerminalContext_steady : k.Steady k.switchTerminalContext :=
  k.setNewPageDirectory_steady _

theorem plainKey_steady (mapped : Scancode) : k.Steady (k.plainKey mapped) := by
  unfold plainKey
  split_ifs
  · exact (k.backspaceKey_steady.trans (k.backspaceKey.typeKey_steady mapped)).trans
      (switchTerminalContext_steady _)
  · exact k.enterKey_steady.trans (switchTerminalContext_steady _)
  · exact (k.typeKey_steady mapped).trans (switchTerminalContext_steady _)

theorem saveScreenXY_steady (t : ℕ) : k.Steady (k.saveScreenXY t) :=
  (k.saveScreenXY_drawn t).steady fun h => saveScreenXY_cursors h.cursors t

/-- The prompt and the line that Ctrl+L prints, once the screen is clear. -/
theorem promptLine_steady : k.Steady (k.promptLine k.terminalBeingServiced) := by
  unfold promptLine
  extract_lets k₀ k₁ k₂ stdin n k₃
  have hsave : k.Steady k₀ := k.saveScreenXY_steady k.terminalState
  have hserve : k₀.Steady k₁ := k₀.setServiced_steady fun h => h.visible
  have hprint : k₁.Steady k₂ := k₁.printfT_steady PROMPT
  have hline : k₂.Steady k₃ := k₂.writeTerminal_steady STDOUT _ _
  exact (((hsave.trans hserve).trans hprint).trans hline).serve

theorem ctrlKey_steady (mapped : Scancode) : k.Steady (k.ctrlKey mapped) := by
  unfold ctrlKey
  refine Steady.trans ?_ (switchTerminalContext_steady _)
  by_cases hclear : mapped.result = CLEAR_SCREEN_SHORTCUT
  · rw [if_pos hclear]
    have hblank := k.clearAndReset_steady
    have hserviced := k.clearAndReset_shown.terminalBeingServiced
    generalize k.clearAndReset = k₁ at hblank hserviced ⊢
    have hprompt := k₁.promptLine_steady
    rw [hserviced] at hprompt
    exact hblank.trans hprompt
  rw [if_neg hclear]
  by_cases hsix : mapped.result = ASCII_SIX
  · rw [if_pos hsix]
    exact k.applyAttributes_steady _ k.kbdBackAttribute
  rw [if_neg hsix]
  by_cases hseven : mapped.result = ASCII_SEVEN
  · rw [if_pos hseven]
    exact k.applyAttributes_steady k.kbdAttribute _
  · rw [if_neg hseven]
    exact Steady.refl k

end Drawing

section Processes

variable {k k' : Kernel}

theorem resumeContext_steady (h : k.resumeContext = some k') : k.Steady k' := by
  obtain ⟨-, cr3, cr3Log, hk, -⟩ := resumeContext_eq_some k h
  rw [hk]
  refine ⟨rfl, rfl, fun _ hp => hp, owner_congr fun a => ?_, fun hk => ⟨hk.visible, hk.serviced,
    hk.cursors.cursor, hk.cursors.saved⟩⟩
  dsimp only
  rcases eq_or_ne a k.pcbCurr with rfl | hne
  · rw [Function.update_self]
    rfl
  · rw [Function.update_of_ne hne]

theorem saveAndSwitchProcessContext_steady {pid : ℤ}
    (h : k.saveAndSwitchProcessContext pid = some k') : k.Steady k' := by
  unfold saveAndSwitchProcessContext at h
  extract_lets k₁ k₂ k₃ at h
  have hload : k.Steady k₁ := k.setNewPageDirectory_steady (getPageDirectoryForPid pid)
  have hsave : k₁.Steady k₂ := k₁.saveProcessContext_steady .switchContext .saveAndSwitch
  have hstack : k₂.Steady k₃ := k₂.setEsp0_steady (kernelStackTop pid)
  exact ((hload.trans hsave).trans hstack).trans (resumeContext_steady h)

theorem roundRobinLoop_steady {launched : Word} {n : ℕ} (h : roundRobinLoop launched n k = some k') :
    k.Steady k' := by
  induction n generalizing k with
  | zero =>
    obtain rfl : k = k' := Option.some.inj h
    exact Steady.refl k
  | succ n ih =>
    have hnext : k.Steady
        { k with terminalBeingServiced := (k.terminalBeingServiced + 1) % NUM_TERMINALS } :=
      k.setServiced_steady fun _ => Nat.mod_lt _ (by decide)
    unfold roundRobinLoop at h
    dsimp only at h
    split_ifs at h
    · exact hnext.trans (saveAndSwitchProcessContext_steady h)
    · exact hnext.trans (ih h)

theorem irq0Handler_steady (h : k.irq0Handler = some k') : k.Steady k' := by
  unfold irq0Handler roundRobinScheduler at h
  split_ifs at h
  · obtain rfl := Option.some.inj h
    exact Steady.refl k
  · obtain rfl := Option.some.inj h
    exact Steady.refl k
  · exact roundRobinLoop_steady h

theorem haltReturn_steady {cur parent : Addr} {status haltStatus : Word}
    (h : k.haltReturn cur parent status = .resumed k' haltStatus) : k.Steady k' := by
  unfold haltReturn at h
  extract_lets pid pd k₁ k₂ parentPcb k₃ at h
  have hload : k.Steady k₁ := k.setNewPageDirectory_steady pd
  have hstatus : k₁.Steady k₂ := k₁.setPcb_steady cur fun _ => rfl
  have hfront : k₂.Steady k₃ := k₂.setTerminal_steady _ fun _ => ⟨rfl, rfl⟩
  have hleave : k₃.Steady k' := by
    unfold jmpPosHalt at h
    cases hframe : (k₃.pcbs parent).frame with
    | internalExecute pid interruptFlags =>
      rw [hframe] at h
      obtain ⟨hk, -⟩ := HaltResult.resumed.inj h
      have hgone := k₃.setPcb_steady parent (f := fun p => { p with frame := .gone }) fun _ => rfl
      rw [← hk]
      exact (hgone.trans (markPidFree_steady _ pid)).trans
        (setInterruptFlag_steady _ interruptFlags)
    | _ =>
      rw [hframe] at h
      cases h
  exact ((hload.trans hstatus).trans hfront).trans hleave

end Processes

section Calls

variable {k k' : Kernel} {fs : Fs} {fd : Word} {buf : Addr} {numBytes ret : Word} {u : UserMem}

theorem setFd_steady (k : Kernel) (n : ℕ) (f : FileInfo → FileInfo) : k.Steady (k.setFd n f) :=
  k.setPcb_steady _ fun _ => rfl

theorem setRtc_steady (k : Kernel) (flag : Bool) (registerA : UInt8) (inited : Bool) :
    k.Steady { k with rtcFlag := flag, rtcRegisterA := registerA, rtcBeenInited := inited } :=
  ⟨rfl, rfl, fun _ h => h, fun _ => rfl, fun h => ⟨h.visible, h.serviced, h.cursors.cursor,
    h.cursors.saved⟩⟩

theorem putT_user_fst {σ : Type} (bus : VideoBus σ) (attrib : UInt8) (p : Addr) (n i : ℕ)
    (scr : Screen σ) (u : UserMem) : (putT bus attrib (UserMem.stringAt p) n i scr u).1 =
      Id.run (putT bus attrib (fun i => (charAt u p i : Id UInt8)) n i scr) := by
  induction n generalizing u i scr with
  | zero => rfl
  | succ n ih =>
    rw [putT, putT, UserMem.bind_run, Id.run_bind]
    by_cases hc : charAt u p i ≠ NULL_CHAR
    · have hrest := ih (i + 1) (putcScreen bus attrib scr (charAt u p i))
        (UserMem.stringAt p i u).2
      have hgo : (UserMem.stringAt p i u).1 ≠ NULL_CHAR := hc
      have hgo' : Id.run (charAt u p i : Id UInt8) ≠ NULL_CHAR := hc
      rw [if_pos hgo, if_pos hgo']
      exact hrest
    · have hstop : ¬ (UserMem.stringAt p i u).1 ≠ NULL_CHAR := hc
      have hstop' : ¬ Id.run (charAt u p i : Id UInt8) ≠ NULL_CHAR := hc
      rw [if_neg hstop, if_neg hstop']
      rfl

theorem writeTerminal_user_fst (k : Kernel) (fd : Word) (p : Addr) (nbytes : Word) (u : UserMem) :
    (k.writeTerminal fd (UserMem.stringAt p) nbytes u).1 =
      Id.run (k.writeTerminal fd (fun i => (charAt u p i : Id UInt8)) nbytes) := by
  unfold writeTerminal
  split_ifs
  · rfl
  · rfl
  · rw [UserMem.bind_run, Id.run_bind, putT_user_fst]
    rfl

theorem readTerminalStart_steady (k : Kernel) (t : ℕ) : k.Steady (k.readTerminalStart t) :=
  k.setTerminal_steady t fun _ => ⟨rfl, rfl⟩

theorem readTerminalDrain_steady (k : Kernel) (t : ℕ) : k.Steady (k.readTerminalDrain t).2 := by
  unfold readTerminalDrain
  dsimp only
  exact k.setTerminal_steady t fun _ => ⟨rfl, rfl⟩

theorem readTerminal_steady (k : Kernel) (stdin : ℕ → UInt8) :
    k.Steady (k.readTerminal stdin fd buf numBytes u).1.2 := by
  unfold readTerminal
  split_ifs
  · exact Steady.refl k
  · exact Steady.refl k
  · have hstart := k.readTerminalStart_steady k.terminalBeingServiced
    have hline := setTerminal_steady (k.readTerminalStart k.terminalBeingServiced)
      k.terminalBeingServiced (f := fun t => { t with stdin := stdin, allowedToRead := true })
      fun _ => ⟨rfl, rfl⟩
    exact (hstart.trans hline).trans (readTerminalDrain_steady _ k.terminalBeingServiced)

theorem readFile_steady (k : Kernel) (fs : Fs) (n : ℕ) :
    k.Steady (k.readFile fs n buf numBytes u).1.2 := by
  rw [readFile_run]
  split_ifs
  · exact k.setFd_steady n fun f =>
      { f with position := f.position + (k.fileRead fs n numBytes).ret }
  · exact Steady.refl k

theorem readDirectory_steady (k : Kernel) (fs : Fs) (n : ℕ) :
    k.Steady (k.readDirectory fs n buf numBytes u).1.2 := by
  simp only [readDirectory]
  split_ifs
  · exact Steady.refl k
  · simp only [UserMem.bind_run]
    split_ifs
    all_goals exact k.setFd_steady n fun f => { f with position := f.position + 1#32 }

theorem writeRtc_steady (k : Kernel) : k.Steady (k.writeRtc buf u).1.2 := by
  simp only [writeRtc, UserMem.bind_run]
  split_ifs
  · exact k.setRtc_steady k.rtcFlag _ k.rtcBeenInited
  · exact Steady.refl k

theorem steady_of_returned {ret₁ : Word} {k₁ : Kernel} (h : some (ret₁, k₁) = some (ret, k'))
    (hsteady : k.Steady k₁) : k.Steady k' := by
  obtain rfl : k₁ = k' := congrArg Prod.snd (Option.some.inj h)
  exact hsteady

theorem read_steady {stdin : ℕ → UInt8}
    (h : (k.read fs stdin fd buf numBytes u).1 = some (ret, k')) : k.Steady k' := by
  by_cases hopen : inWindow buf ∧ k.Open fd
  · rw [read_of_open k fs fd buf numBytes stdin hopen.1 hopen.2] at h
    cases htable : (k.fds fd.toNat).fopsJmpTable with
    | null =>
      rw [htable] at h
      cases h
    | rtc =>
      rw [htable] at h
      exact steady_of_returned h (k.setRtc_steady false k.rtcRegisterA k.rtcBeenInited)
    | terminal =>
      rw [htable] at h
      exact steady_of_returned h (k.readTerminal_steady stdin)
    | regularFile =>
      rw [htable] at h
      exact steady_of_returned h (k.readFile_steady fs fd.toNat)
    | directory =>
      rw [htable] at h
      exact steady_of_returned h (k.readDirectory_steady fs fd.toNat)
  · rw [read_of_rejected k fs fd buf numBytes u stdin hopen] at h
    exact steady_of_returned h (Steady.refl k)

theorem write_steady (h : (k.write fd buf numBytes u).1 = some (ret, k')) : k.Steady k' := by
  by_cases hopen : inWindow buf ∧ k.Open fd
  · rw [write_of_open k fd buf numBytes hopen.1 hopen.2] at h
    cases htable : (k.fds fd.toNat).fopsJmpTable with
    | null =>
      rw [htable] at h
      cases h
    | rtc =>
      rw [htable] at h
      exact steady_of_returned h k.writeRtc_steady
    | terminal =>
      rw [htable] at h
      have hprinted := k.writeTerminal_steady fd (charAt u buf) numBytes
      rw [← writeTerminal_user_fst] at hprinted
      exact steady_of_returned h hprinted
    | regularFile =>
      rw [htable] at h
      exact steady_of_returned h (Steady.refl k)
    | directory =>
      rw [htable] at h
      exact steady_of_returned h (Steady.refl k)
  · rw [write_of_rejected k fd buf numBytes u hopen] at h
    exact steady_of_returned h (Steady.refl k)

theorem openRtc_steady (k : Kernel) : k.Steady k.openRtc := by
  unfold openRtc
  split_ifs
  · exact Steady.refl k
  · exact k.setRtc_steady k.rtcFlag _ true

theorem open_steady {filename : Addr} (h : (k.open fs filename u).1 = some (ret, k')) :
    k.Steady k' := by
  unfold Kernel.open at h
  by_cases hin : inWindow filename
  · rw [if_neg (not_not.mpr hin), UserMem.bind_run] at h
    cases hfound : (readDentryByName fs (UserMem.stringAt filename) u).1 with
    | none =>
      rw [hfound] at h
      exact steady_of_returned h (Steady.refl k)
    | some entry =>
      simp only [hfound] at h
      split_ifs at h
      · exact steady_of_returned h (Steady.refl k)
      · generalize allocLoop _ _ _ = i at h
        have hset := k.setFd_steady i (openedFd fs entry)
        generalize k.setFd i (openedFd fs entry) = k₁ at h hset
        cases htable : (k₁.currentPcb.fdArray i).fopsJmpTable with
        | null =>
          rw [htable] at h
          cases h
        | rtc =>
          rw [htable] at h
          exact steady_of_returned h (hset.trans k₁.openRtc_steady)
        | _ =>
          rw [htable] at h
          exact steady_of_returned h hset
  · rw [if_pos hin] at h
    exact steady_of_returned h (Steady.refl k)

theorem close_steady (h : k.close fd = some (ret, k')) : k.Steady k' := by
  unfold close at h
  by_cases hrange : fd.toInt < MIN_FD_PER_PROCESS ∨ MAX_FD_PER_PROCESS ≤ fd.toInt
  · rw [if_pos hrange] at h
    exact steady_of_returned h (Steady.refl k)
  rw [if_neg hrange] at h
  dsimp only at h
  by_cases hclosed : (k.currentPcb.fdArray fd.toNat).flags = 0#32
  · rw [if_pos hclosed] at h
    exact steady_of_returned h (Steady.refl k)
  rw [if_neg hclosed] at h
  cases htable : (k.currentPcb.fdArray fd.toNat).fopsJmpTable with
  | null =>
    rw [htable] at h
    cases h
  | _ =>
    rw [htable] at h
    exact steady_of_returned h (k.setFd_steady _ _)

theorem fdCall_steady {c : FdCall} (h : (c.run fs k u).1 = some (ret, k')) : k.Steady k' := by
  cases c with
  | «open» filename => exact open_steady h
  | close fd => exact close_steady h
  | read stdin fd buf numBytes => exact read_steady h
  | write fd buf numBytes => exact write_steady h

end Calls

end Steady

/-- Every process has the screen of its terminal, and every cursor is on the grid. -/
structure ScreensKept (k : Kernel) : Prop where
  inRange : k.InRange
  screens : k.ScreensMapped

section ScreensKept

variable {k k' : Kernel}

theorem ScreensKept.displays (h : k.ScreensKept) : k.Displays where
  visible := h.inRange.visible
  serviced := h.inRange.serviced
  screens := h.screens
  grid t ht := by
    obtain ⟨hcursor, hsaved⟩ := h.inRange.cursors
    refine Screen.onGrid_iff.mpr ?_
    unfold logicalConsole
    dsimp only
    split_ifs
    · exact hcursor
    · exact hsaved t ht

theorem ScreensKept.steady (h : k.ScreensKept) (hsteady : k.Steady k') : k'.ScreensKept := by
  refine ⟨hsteady.inRange h.inRange, fun p hp => ?_⟩
  rw [hsteady.owner, hsteady.visible, hsteady.paging]
  exact h.screens p (hsteady.used p hp)

/-- A process that is started belongs to the visible terminal and gets the screen. -/
theorem ScreensKept.starts (h : k.ScreensKept) {pid : ℕ} {flags : Word}
    (hstarts : k.Starts pid flags k') : k'.ScreensKept := by
  have hother : ∀ q, k.Used q → q ≠ pid ∧ k'.owner q = k.owner q := by
    intro q hq
    have hne : q ≠ pid := fun heq => hstarts.fresh (heq ▸ hq)
    refine ⟨hne, ?_⟩
    unfold owner
    rw [hstarts.other hq fun heq => hne (pcbAddr_inj hq.1 hstarts.pid_lt heq)]
    split_ifs
    · rfl
    · rfl
  have hchild : k'.owner pid = k.terminalState := hstarts.child.ownedByTerminal
  have hpaging : k'.paging = k.paging.setupTaskPaging pid (blockAddressForProcess pid) := by
    obtain ⟨args, mem, hk⟩ := hstarts.eq
    rw [hk]
    rfl
  obtain ⟨hterminals, hserviced, -⟩ := hstarts.terminals
  refine ⟨⟨?_, ?_, ?_⟩, fun q hq => ?_⟩
  · rw [hstarts.terminalState]
    exact h.inRange.visible
  · rw [hserviced]
    exact h.inRange.serviced
  · have hcursor : k'.screenX = k.screenX ∧ k'.screenY = k.screenY := by
      obtain ⟨args, mem, hk⟩ := hstarts.eq
      rw [hk]
      exact ⟨rfl, rfl⟩
    refine ⟨?_, fun t ht => ?_⟩
    · rw [hcursor.1, hcursor.2]
      exact h.inRange.cursors.cursor
    · rw [hterminals, Function.update_apply]
      split_ifs with heq
      · exact heq ▸ h.inRange.cursors.saved t ht
      · exact h.inRange.cursors.saved t ht
  · rw [hstarts.terminalState, hpaging]
    rcases (hstarts.used_iff q).mp hq with rfl | hq
    · rw [hchild, screenPage, if_pos rfl]
      exact ⟨h.inRange.visible, _, _, Paging.setupTaskPaging_taskPaging _ _ _⟩
    · obtain ⟨hne, howner⟩ := hother q hq
      obtain ⟨hlt, phys, granted, htask⟩ := h.screens q hq
      rw [howner]
      exact ⟨hlt, phys, granted, htask.setupTaskPaging_of_ne hne _⟩

theorem ScreensKept.switch (h : k.ScreensKept) {toT : ℕ} (hto : toT < NUM_TERMINALS) :
    (k.changeTerminalState k.terminalState toT).ScreensKept := by
  have hcursors := (switch_safe h.inRange.cursors ⟨k.terminalState, h.inRange.visible⟩
    ⟨toT, hto⟩).cursors
  change (k.changeTerminalState k.terminalState toT).CursorsOnGrid at hcursors
  obtain ⟨P, hk, -, hP⟩ := k.changeTerminalState_spec k.terminalState toT
  rw [hk] at hcursors ⊢
  refine ⟨⟨hto, h.inRange.serviced, hcursors⟩, fun q hq => ?_⟩
  have hused : k.Used q := hq
  obtain ⟨hlt, phys, granted, htask⟩ := h.screens q hused
  have hremapped := hP q hused.1 _ _ _ htask
  have hscreen := k.remappedScreen_screenPage k.terminalState toT ((isPidUsed_iff hused.1).mpr hused)
  unfold owner at hremapped
  rw [hscreen] at hremapped
  exact ⟨hlt, phys, granted, hremapped⟩

section Events

variable (fs : Fs) (residue : Residue)

theorem ScreensKept.executeShell (h : k.ScreensKept) :
    (k.executeShell fs residue).kernel.ScreensKept := by
  rcases k.executeShell_cases fs residue with hexec | ⟨pid, k', entryPoint, hstarts, hexec⟩
  · rw [hexec]
    exact h.steady k.executePrologue_steady
  · rw [hexec]
    exact h.starts hstarts

theorem ScreensKept.launch (h : k.ScreensKept) (irqFlags : Word) {toT : ℕ}
    (hto : toT < NUM_TERMINALS) : (k.launch fs residue irqFlags toT).kernel.ScreensKept := by
  have hlaunching : (k.launching irqFlags toT).ScreensKept := by
    unfold launching
    extract_lets k₁ k₂ k₃
    have hswitch : k₁.ScreensKept := h.switch hto
    have hserve : k₁.Steady k₂ := k₁.setServiced_steady fun hk => hk.visible
    have hsave : k₂.Steady k₃ := k₂.saveProcessContext_steady _ _
    have hlaunched : k₃.Steady
        { k₃ with terminalsLaunched := k₃.terminalsLaunched ||| 1#32 <<< toT } :=
      ⟨rfl, rfl, fun _ hp => hp, fun _ => rfl, fun hk => ⟨hk.visible, hk.serviced,
        hk.cursors.cursor, hk.cursors.saved⟩⟩
    exact hswitch.steady ((hserve.trans hsave).trans hlaunched)
  have hexec := hlaunching.executeShell fs residue
  unfold Kernel.launch
  cases hresult : (k.launching irqFlags toT).executeShell fs residue with
  | started k' entryPoint =>
    rw [hresult] at hexec
    exact hexec
  | failed k' =>
    rw [hresult] at hexec
    exact hexec.steady k'.switchTerminalContext_steady

theorem ScreensKept.altKey (h : k.ScreensKept) (irqFlags : Word) (mapped : Scancode) :
    (k.altKey fs residue irqFlags mapped).kernel.ScreensKept := by
  have hflag := h.steady (k.setInterruptFlag_steady false)
  rw [altKey_eq]
  cases hkey : functionKey mapped with
  | none => exact hflag.steady (switchTerminalContext_steady _)
  | some toT =>
    have hto := functionKey_lt hkey
    dsimp only
    generalize k.setInterruptFlag false = k₁ at hflag ⊢
    split_ifs
    · exact hflag.steady k₁.switchTerminalContext_steady
    · exact (hflag.switch hto).steady (switchTerminalContext_steady _)
    · exact hflag.launch fs residue irqFlags hto
    · have hprint := (k₁.printfT_steady MAX_PROCESSES_MESSAGE).trans (printfT_steady _ PROMPT)
      exact hflag.steady (hprint.trans (switchTerminalContext_steady _))

theorem ScreensKept.processSentScancode (h : k.ScreensKept) (irqFlags : Word) (raw : UInt8) :
    (k.processSentScancode fs residue irqFlags raw).kernel.ScreensKept := by
  by_cases hignored : raw = DELETE_SCAN_CODE ∨ ¬ (scancodeTable raw).isMake
  · rw [k.processSentScancode_ignored fs residue irqFlags hignored]
    exact h.steady (k.setKeyboardState_steady _)
  obtain ⟨hdel, hmake⟩ := not_or.mp hignored
  have hpressed := h.steady (k.pressed_steady raw)
  rw [k.processSentScancode_make fs residue irqFlags hdel (not_not.mp hmake)]
  split_ifs
  · exact hpressed.altKey fs residue irqFlags _
  · exact hpressed.steady (ctrlKey_steady _ _)
  · exact hpressed.steady (plainKey_steady _ _)

theorem interrupted_steady (k : Kernel) : k.Steady k.interrupted :=
  (k.setPcb_steady k.pcbCurr (f := fun p => { p with flags := p.flags ||| IN_INTERRUPT_FLAG })
    fun _ => rfl).trans (setInterruptFlag_steady _ true)

theorem ScreensKept.irq1Handler (h : k.ScreensKept) (raw : UInt8) :
    (k.irq1Handler fs residue raw).kernel.ScreensKept := by
  have hkey := (h.steady k.interrupted_steady).processSentScancode fs residue k.currentPcb.flags raw
  rw [irq1Handler_eq]
  cases hresult : k.interrupted.processSentScancode fs residue k.currentPcb.flags raw with
  | switched k' entryPoint =>
    rw [hresult] at hkey
    exact hkey
  | returned k' =>
    rw [hresult] at hkey
    exact hkey.steady (k'.setPcb_steady k.pcbCurr (f := fun p =>
      { p with flags := k.currentPcb.flags }) fun _ => rfl)

/-- A process ends: its parent goes on, or the first shell of its terminal starts again. -/
theorem ScreensKept.halt (h : k.ScreensKept) {status : UInt8} {r : HaltResult}
    (hr : k.halt fs residue status = r) :
    (∀ k' entryPoint, r = .restarted k' entryPoint → k'.ScreensKept) ∧
      ∀ k' haltStatus, r = .resumed k' haltStatus → k'.ScreensKept := by
  unfold Kernel.halt at hr
  extract_lets k₁ pcbCurr cur k₂ haltStatus at hr
  have hstack : k.Steady k₂ := (k.setInterruptFlag_steady false).trans (k₁.setEsp0_steady cur.esp0)
  have hfreed := h.steady (hstack.trans (k₂.markPidFree_steady cur.pid))
  have hreturn {k₃ : Kernel} (hk₃ : k₃.ScreensKept)
      (hr : k₃.haltReturn pcbCurr cur.parentPCB haltStatus = r) :
      (∀ k' entryPoint, r = .restarted k' entryPoint → k'.ScreensKept) ∧
        ∀ k' haltStatus, r = .resumed k' haltStatus → k'.ScreensKept :=
    ⟨fun k' e he => absurd (hr.trans he) haltReturn_ne_restarted,
      fun k' s hs => hk₃.steady (haltReturn_steady (hr.trans hs))⟩
  split_ifs at hr
  · have hexec := hfreed.executeShell fs residue
    cases hshell : (k₂.markPidFree cur.pid).executeShell fs residue with
    | started k₃ entryPoint =>
      rw [hshell] at hexec hr
      subst hr
      exact ⟨fun k' e he => (HaltResult.restarted.inj he).1 ▸ hexec, fun k' s hs => by cases hs⟩
    | failed k₃ =>
      rw [hshell] at hexec hr
      exact hreturn hexec hr
  · exact hreturn (h.steady hstack) hr

theorem ScreensKept.step (h : k.ScreensKept) {e : Event} (hstep : k.step fs e = some k') :
    k'.ScreensKept := by
  cases e with
  | execute residue command =>
    rcases step_execute_cases hstep with rfl | ⟨pid, entryPoint, hstarts, -⟩
    · exact (h.steady k.executePrologue_steady).steady (setInterruptFlag_steady _ true)
    · exact h.starts hstarts
  | halt residue status =>
    unfold Kernel.step at hstep
    dsimp only at hstep
    obtain ⟨hrestarted, hresumed⟩ := h.halt fs residue (r := k.halt fs residue status) rfl
    cases hend : k.halt fs residue status with
    | restarted k₁ entryPoint =>
      rw [hend] at hstep
      obtain rfl := Option.some.inj hstep
      exact hrestarted _ _ hend
    | resumed k₁ s =>
      rw [hend] at hstep
      obtain rfl := Option.some.inj hstep
      exact (hresumed _ _ hend).steady (setInterruptFlag_steady _ true)
    | wild =>
      rw [hend] at hstep
      cases hstep
  | tick =>
    obtain ⟨k₁, htick, rfl⟩ := Option.map_eq_some_iff.mp hstep
    exact (h.steady (irq0Handler_steady htick)).steady (setInterruptFlag_steady _ true)
  | key residue raw =>
    have hkey := h.irq1Handler fs residue raw
    unfold Kernel.step at hstep
    dsimp only at hstep
    cases hresult : k.irq1Handler fs residue raw with
    | returned k₁ =>
      rw [hresult] at hkey hstep
      obtain rfl := Option.some.inj hstep
      exact hkey.steady (setInterruptFlag_steady _ true)
    | switched k₁ entryPoint =>
      rw [hresult] at hkey hstep
      obtain rfl := Option.some.inj hstep
      exact hkey

end Events

theorem ScreensKept.vidmap (h : k.ScreensKept) (screenStart : Addr) (u : UserMem) :
    (k.vidmap screenStart u).1.2.ScreensKept := by
  unfold Kernel.vidmap
  by_cases hwin : inWindow screenStart
  · rw [if_neg (not_not.mpr hwin), UserMem.bind_run, UserMem.pure_run]
    refine ⟨⟨h.inRange.visible, h.inRange.serviced, h.inRange.cursors.cursor,
      h.inRange.cursors.saved⟩, fun q hq => ?_⟩
    obtain ⟨hlt, phys, granted, htask⟩ := h.screens q hq
    refine ⟨hlt, phys, ?_⟩
    dsimp only
    rcases eq_or_ne (q : ℤ) k.currentPcb.pid with heq | hne
    · rw [← heq]
      exact ⟨true, htask.grantUserAccess⟩
    · exact ⟨granted, htask.grantUserAccess_of_ne hne _⟩
  · rw [if_pos hwin]
    exact h

theorem ScreensKept.irq8Handler (h : k.ScreensKept) : k.irq8Handler.ScreensKept := by
  unfold Kernel.irq8Handler
  extract_lets pcbCurr flags k₁ k₂ k₃
  have henter : k.Steady k₁ := k.setPcb_steady pcbCurr fun _ => rfl
  have hflag : k₁.Steady k₂ := k₁.setInterruptFlag_steady true
  have hclock : k₂.Steady k₃ := k₂.setRtc_steady false k₂.rtcRegisterA k₂.rtcBeenInited
  have hleave := k₃.setPcb_steady pcbCurr (f := fun p => { p with flags := flags }) fun _ => rfl
  exact h.steady (((henter.trans hflag).trans hclock).trans hleave)

theorem ScreensKept.haltExcep (h : k.ScreensKept) {status haltStatus : Word}
    (hend : k.haltExcep status = .resumed k' haltStatus) : k'.ScreensKept := by
  unfold Kernel.haltExcep at hend
  extract_lets k₁ pcbCurr cur k₂ at hend
  have hstack : k.Steady k₂ := (k.setInterruptFlag_steady false).trans (k₁.setEsp0_steady cur.esp0)
  exact h.steady (hstack.trans (haltReturn_steady hend))

end ScreensKept

end Kernel

/-- What a machine does from `sti` on: the events of `System`, interrupts of the clock, and
what user code does besides. A read of a line is a call, or two steps when something comes
in between. -/
inductive Activity
  | system (e : SystemEvent)
  | clock
  | call (u : UserMem) (c : FdCall)
  | awaitLine
  | takeLine (t : ℕ)
  | vidmap (u : UserMem) (screenStart : Addr)
  | fault (status : Word)
  | store (mem : Addr → UInt8)

namespace System

def act (fs : Fs) (s : System) : Activity → System → Prop
  | .system e, s' => s.step fs e = some s'
  | .clock, s' => s' = { s with kernel := s.kernel.irq8Handler.iret }
  | .call u c, s' =>
    s.phase = .user ∧ s'.phase = .user ∧ ∃ ret, (c.run fs s.kernel u).1 = some (ret, s'.kernel)
  | .awaitLine, s' =>
    s.phase = .user ∧
      s' = { s with kernel := s.kernel.readTerminalStart s.kernel.terminalBeingServiced }
  | .takeLine t, s' =>
    s.phase = .user ∧ (s.kernel.terminals t).allowedToRead = true ∧
      s' = { s with kernel := (s.kernel.readTerminalDrain t).2 }
  | .vidmap u screenStart, s' =>
    s.phase = .user ∧ s' = { s with kernel := (s.kernel.vidmap screenStart u).1.2 }
  | .fault status, s' =>
    s.phase = .user ∧ ∃ k haltStatus, s.kernel.haltExcep status = .resumed k haltStatus ∧
      s' = { s with kernel := k.iret }
  | .store mem, s' => s.phase = .user ∧ s' = { s with kernel := { s.kernel with mem := mem } }

variable {fs : Fs} {s s' : System}

theorem interrupt_screensKept (h : s.kernel.ScreensKept) {e : Event}
    (hstep : s.interrupt fs e = some s') : s'.kernel.ScreensKept := by
  unfold interrupt at hstep
  cases e with
  | execute residue command => cases hstep
  | halt residue status => cases hstep
  | tick =>
    obtain ⟨k, hk, rfl⟩ := Option.map_eq_some_iff.mp hstep
    obtain ⟨k₁, htick, rfl⟩ := Option.map_eq_some_iff.mp hk
    exact (h.steady (Kernel.irq0Handler_steady htick)).steady (Kernel.setInterruptFlag_steady _ true)
  | key residue raw =>
    have hkey := h.irq1Handler fs residue raw
    dsimp only at hstep
    cases hresult : s.kernel.irq1Handler fs residue raw with
    | returned k =>
      rw [hresult] at hkey hstep
      obtain rfl := Option.some.inj hstep
      exact hkey.steady (Kernel.setInterruptFlag_steady _ true)
    | switched k entryPoint =>
      rw [hresult] at hstep
      cases hstep

theorem step_screensKept (h : s.kernel.ScreensKept) {e : SystemEvent}
    (hstep : s.step fs e = some s') : s'.kernel.ScreensKept := by
  obtain ⟨phase, k⟩ := s
  cases e with
  | entry residue =>
    cases phase with
    | welcome =>
      obtain rfl := Option.some.inj hstep
      exact h.steady (k.printfT_steady Kernel.WELCOME)
    | execute =>
      have hexec := h.executeShell fs residue
      unfold System.step at hstep
      dsimp only at hstep
      cases hresult : k.executeShell fs residue with
      | started k' entryPoint =>
        rw [hresult] at hexec hstep
        obtain rfl := Option.some.inj hstep
        exact hexec
      | failed k' =>
        rw [hresult] at hstep
        cases hstep
    | user => cases hstep
  | event e =>
    cases phase with
    | user =>
      obtain ⟨k', hk', rfl⟩ := Option.map_eq_some_iff.mp hstep
      exact h.step fs hk'
    | welcome => exact interrupt_screensKept h hstep
    | execute => exact interrupt_screensKept h hstep

theorem act_screensKept (s : System) (a : Activity) (s' : System) (h : s.kernel.ScreensKept)
    (hact : s.act fs a s') : s'.kernel.ScreensKept := by
  cases a with
  | system e => exact step_screensKept h hact
  | clock =>
    obtain rfl := hact
    exact h.irq8Handler.steady (Kernel.setInterruptFlag_steady _ true)
  | call u c =>
    obtain ⟨-, -, ret, hrun⟩ := hact
    exact h.steady (Kernel.fdCall_steady hrun)
  | awaitLine =>
    obtain ⟨-, rfl⟩ := hact
    exact h.steady (Kernel.readTerminalStart_steady _ _)
  | takeLine t =>
    obtain ⟨-, -, rfl⟩ := hact
    exact h.steady (Kernel.readTerminalDrain_steady _ _)
  | vidmap u screenStart =>
    obtain ⟨-, rfl⟩ := hact
    exact h.vidmap screenStart u
  | fault status =>
    obtain ⟨-, k, haltStatus, hend, rfl⟩ := hact
    exact (h.haltExcep hend).steady (Kernel.setInterruptFlag_steady _ true)
  | store mem =>
    obtain ⟨-, rfl⟩ := hact
    exact h.steady (s.kernel.setMem_shown mem |>.drawn.steady fun hk =>
      ⟨hk.cursors.cursor, hk.cursors.saved⟩)

end System

theorem Booted.screensKept {k : Kernel} (h : Booted k) (hx : k.screenX = 0) (hy : k.screenY = 0) :
    k.ScreensKept := by
  refine ⟨⟨?_, ?_, ?_, fun t _ => ?_⟩, fun p hp => absurd hp (h.unstarted.not_used p)⟩
  · rw [h.terminalState]
    decide
  · rw [h.terminalBeingServiced]
    decide
  · rw [hx, hy]
    exact onScreen_zero
  · obtain ⟨u, hu⟩ := h.terminals t
    rw [hu]
    exact onScreen_zero

/-- Whatever has happened since the boot, a key that shows no other terminal leaves the
others as they are, if it keeps to the visible terminal, and prints from the cursor of that
one. While the visible screen is mapped, and it is for a terminal that runs a live process
of its own, the condition is exact. -/
theorem keys_on_visible (fs : Fs) (k₀ : Kernel) (hboot : Booted k₀) (hx : k₀.screenX = 0)
    (hy : k₀.screenY = 0) (p : List (Activity × System))
    (hp : Runs.Path (System.act fs) ⟨.welcome, k₀⟩ p) (residue : Residue) (irqFlags : Word)
    (raw : UInt8) :
    let k := (Runs.final ⟨.welcome, k₀⟩ p).kernel
    (k.RunsVisible → k.ShowsVisible) ∧
      (¬ k.ChangesTerminal raw →
        ∃ k', k.interrupted.processSentScancode fs residue irqFlags raw = .returned k' ∧
          (k.KeepsToVisible raw → Follows k (k.keyOps raw) k') ∧
          (k.ShowsVisible → Follows k (k.keyOps raw) k' → k.KeepsToVisible raw)) := by
  intro k
  have hkept : k.ScreensKept :=
    Runs.invariant_final (I := fun s => s.kernel.ScreensKept)
      (fun s a s' h _ hact => System.act_screensKept s a s' h hact) (hboot.screensKept hx hy) hp
      (Runs.meets_true fun _ _ => trivial)
  exact ⟨hkept.displays.showsVisible, hkept.displays.key_keeps fs residue irqFlags⟩

section Runs

/-- The run of the smallest system from the boot on. -/
def runOf (es : List SystemEvent) : List (Activity × System) :=
  (Runs.follow (System.step shellFs) ⟨.welcome, bootKernel⟩ es).map fun x => (.system x.1, x.2)

theorem runOf_path (es : List SystemEvent) :
    Runs.Path (System.act shellFs) ⟨.welcome, bootKernel⟩ (runOf es) :=
  Runs.path_map (f := Activity.system) (fun _ _ _ h => h) (Runs.follow_path _ _ _)

/-- The state in which the first shell begins, reached from `sti`. -/
@[irreducible] def shellStarted : Kernel :=
  (Runs.final ⟨.welcome, bootKernel⟩ (runOf [.entry zeroResidue, .entry zeroResidue])).kernel

theorem shellStarted_facts : shellStarted.asksFor 0x1E = none ∧
    shellStarted.keyOps 0x1E = [.put 97] ∧
    shellStarted.Used (shellStarted.front shellStarted.terminalState) ∧
    shellStarted.owner (shellStarted.front shellStarted.terminalState) =
      shellStarted.terminalState := by
  decide +kernel

/-- The key A for the first shell. -/
theorem keys_on_visible_shell : ∃ k', shellStarted.interrupted.processSentScancode shellFs zeroResidue
    0#32 0x1E = .returned k' ∧ Follows shellStarted [.put 97] k' := by
  obtain ⟨hasks, hops, hruns⟩ := shellStarted_facts
  have h := keys_on_visible shellFs bootKernel bootKernel_booted rfl rfl
    (runOf [.entry zeroResidue, .entry zeroResidue]) (runOf_path _) zeroResidue 0#32 0x1E
  have hstate : (Runs.final ⟨.welcome, bootKernel⟩
      (runOf [.entry zeroResidue, .entry zeroResidue])).kernel = shellStarted := by
    rw [shellStarted]
  rw [hstate] at h
  obtain ⟨hshows, hkey⟩ := h
  have hnone (P : ℕ → Prop) : ¬ ∃ t, shellStarted.asksFor 0x1E = some t ∧ P t := by
    rintro ⟨t, ht, -⟩
    rw [hasks] at ht
    cases ht
  obtain ⟨k', hreturned, hfollows, -⟩ := hkey (hnone _)
  rw [hops] at hfollows
  exact ⟨k', hreturned, hfollows (Or.inr ⟨hshows hruns, fun h => absurd h (hnone _)⟩)⟩

/-- The first shell starts, Alt+F2 launches the second terminal, whose shell takes the last
pids, and a tick comes. -/
def crowded : List SystemEvent :=
  let shell : Event := .execute zeroResidue fun i => Id.run (ofList SHELL i)
  [.entry zeroResidue, .entry zeroResidue, .event (.key zeroResidue ALT_PRESS),
    .event (.key zeroResidue 0x3C), .event shell, .event shell, .event shell, .event shell,
    .event .tick]

/-- The second terminal is visible and runs a process of its own, the first is serviced, and
no pid is left for the third. -/
def PidsTaken (k : Kernel) : Prop :=
  k.terminalState = 1 ∧ k.terminalBeingServiced = 0 ∧ k.asksFor 0x3D = some 2 ∧ ¬ k.CanShow 2 ∧
    k.Used (k.front 1) ∧ k.owner (k.front 1) = 1 ∧ (k.logicalConsole 0).screenX = 0

instance (k : Kernel) : Decidable (PidsTaken k) := inferInstanceAs (Decidable (_ ∧ _))

theorem crowded_pidsTaken :
    PidsTaken (Runs.final ⟨.welcome, bootKernel⟩ (runOf crowded)).kernel := by
  decide +kernel

/-- Alt+F3 is refused while the first terminal is serviced: the message starts at its
cursor, and moves it. -/
theorem refused_in_background : ∃ p, Runs.Path (System.act shellFs) ⟨.welcome, bootKernel⟩ p ∧
    let k := (Runs.final ⟨.welcome, bootKernel⟩ p).kernel
    ¬ k.ChangesTerminal 0x3D ∧ ∃ k',
      k.interrupted.processSentScancode shellFs zeroResidue 0#32 0x3D = .returned k' ∧
        ¬ Follows k (k.keyOps 0x3D) k' := by
  refine ⟨runOf crowded, runOf_path crowded, ?_⟩
  have hkept := Runs.invariant_final (I := fun s => s.kernel.ScreensKept)
    (fun s a s' h _ hact => System.act_screensKept s a s' h hact)
    (bootKernel_booted.screensKept rfl rfl) (runOf_path crowded) (Runs.meets_true fun _ _ => trivial)
  have htaken := crowded_pidsTaken
  generalize (Runs.final ⟨.welcome, bootKernel⟩ (runOf crowded)).kernel = k at hkept htaken ⊢
  obtain ⟨hvisible, hserviced, hasks, hfull, hused, howner, hcursor⟩ := htaken
  have hchanges : ¬ k.ChangesTerminal 0x3D := by
    rintro ⟨t, ht, -, hcan⟩
    rw [hasks] at ht
    exact hfull (Option.some.inj ht ▸ hcan)
  have hrefuses : k.RefusesTerminal 0x3D := by
    refine ⟨2, hasks, ?_, hfull⟩
    rw [hvisible]
    decide
  have hruns : k.RunsVisible := by
    unfold Kernel.RunsVisible
    rw [hvisible]
    exact ⟨hused, howner⟩
  obtain ⟨k', hkey, -, hexact⟩ := hkept.displays.key_keeps shellFs zeroResidue 0#32 hchanges
  refine ⟨hchanges, k', hkey, fun hfollows => ?_⟩
  rcases hexact (hkept.displays.showsVisible hruns) hfollows with hsilent | ⟨-, hallowed⟩
  · rw [hrefuses.keyOps] at hsilent
    cases hsilent
  · rcases hallowed hrefuses with hsame | ⟨hprompt, -⟩
    · rw [hvisible, hserviced] at hsame
      cases hsame
    · have hx := hprompt.1
      rw [hserviced, hcursor] at hx
      cases hx

end Runs

end SnoopDos
