import SnoopDos.Proofs.KeyRuns

/-! What a call on descriptors leaves alone. A relation between two states that the
single assignments of the calls keep is kept by `read`, `open` and `close`, and by
`write` as far as it is kept by what is printed. -/

namespace SnoopDos

open Kernel UserMem

namespace Kernel

/-- A relation that the assignments of the calls keep. -/
structure CallRule (R : Kernel → Kernel → Prop) : Prop where
  refl : ∀ k, R k k
  trans : ∀ k k' k'', R k k' → R k' k'' → R k k''
  setFd : ∀ k n f, R k (k.setFd n f)
  setTerminal : ∀ k t f,
    (∀ u : Terminal, (f u).screenX = u.screenX ∧ (f u).screenY = u.screenY ∧ (f u).pid = u.pid) →
    R k (k.setTerminal t f)
  setRtc : ∀ k flag registerA inited,
    R k { k with rtcFlag := flag, rtcRegisterA := registerA, rtcBeenInited := inited }

namespace CallRule

variable {R : Kernel → Kernel → Prop} {k k' : Kernel} {fs : Fs} {fd : Word} {buf : Addr}
  {numBytes ret : Word} {u : UserMem}

theorem returned {ret₁ : Word} {k₁ : Kernel} (h : some (ret₁, k₁) = some (ret, k')) (hk : R k k₁) :
    R k k' := by
  obtain rfl : k₁ = k' := congrArg Prod.snd (Option.some.inj h)
  exact hk

theorem readTerminalStart (hR : CallRule R) (k : Kernel) (t : ℕ) : R k (k.readTerminalStart t) :=
  hR.setTerminal k t _ fun _ => ⟨rfl, rfl, rfl⟩

theorem readTerminalDrain (hR : CallRule R) (k : Kernel) (t : ℕ) :
    R k (k.readTerminalDrain t).2 := by
  unfold Kernel.readTerminalDrain
  dsimp only
  exact hR.setTerminal k t _ fun _ => ⟨rfl, rfl, rfl⟩

theorem readTerminal (hR : CallRule R) (k : Kernel) (stdin : ℕ → UInt8) :
    R k (k.readTerminal stdin fd buf numBytes u).1.2 := by
  unfold Kernel.readTerminal
  split_ifs
  · exact hR.refl k
  · exact hR.refl k
  · have hline := hR.setTerminal (k.readTerminalStart k.terminalBeingServiced)
      k.terminalBeingServiced (fun t => { t with stdin := stdin, allowedToRead := true })
      fun _ => ⟨rfl, rfl, rfl⟩
    exact hR.trans _ _ _ (hR.trans _ _ _ (hR.readTerminalStart k _) hline)
      (hR.readTerminalDrain _ k.terminalBeingServiced)

theorem readFile (hR : CallRule R) (k : Kernel) (n : ℕ) :
    R k (k.readFile fs n buf numBytes u).1.2 := by
  rw [readFile_run]
  split_ifs
  · exact hR.setFd k n fun f =>
      { f with position := f.position + (k.fileRead fs n numBytes).ret }
  · exact hR.refl k

theorem readDirectory (hR : CallRule R) (k : Kernel) (n : ℕ) :
    R k (k.readDirectory fs n buf numBytes u).1.2 := by
  simp only [Kernel.readDirectory]
  split_ifs
  · exact hR.refl k
  · simp only [bind_run]
    split_ifs
    all_goals exact hR.setFd k n fun f => { f with position := f.position + 1#32 }

theorem writeRtc (hR : CallRule R) (k : Kernel) : R k (k.writeRtc buf u).1.2 := by
  simp only [Kernel.writeRtc, bind_run]
  split_ifs
  · exact hR.setRtc k k.rtcFlag _ k.rtcBeenInited
  · exact hR.refl k

theorem read (hR : CallRule R) {stdin : ℕ → UInt8}
    (h : (k.read fs stdin fd buf numBytes u).1 = some (ret, k')) : R k k' := by
  by_cases hopen : inWindow buf ∧ k.Open fd
  · rw [read_of_open k fs fd buf numBytes stdin hopen.1 hopen.2] at h
    cases htable : (k.fds fd.toNat).fopsJmpTable with
    | null =>
      rw [htable] at h
      cases h
    | rtc =>
      rw [htable] at h
      exact returned h (hR.setRtc k false k.rtcRegisterA k.rtcBeenInited)
    | terminal =>
      rw [htable] at h
      exact returned h (hR.readTerminal k stdin)
    | regularFile =>
      rw [htable] at h
      exact returned h (hR.readFile k fd.toNat)
    | directory =>
      rw [htable] at h
      exact returned h (hR.readDirectory k fd.toNat)
  · rw [read_of_rejected k fs fd buf numBytes u stdin hopen] at h
    exact returned h (hR.refl k)

theorem «open» (hR : CallRule R) (h : (k.open fs buf u).1 = some (ret, k')) : R k k' := by
  rw [Kernel.open] at h
  split_ifs at h
  · rw [bind_run] at h
    cases hfound : (readDentryByName fs (stringAt buf) u).1 with
    | none =>
      rw [hfound] at h
      exact returned h (hR.refl k)
    | some entry =>
      rw [hfound] at h
      simp only at h
      split_ifs at h
      · exact returned h (hR.refl k)
      · generalize allocLoop k.currentPcb.fdArray _ _ = i at h
        have hset := hR.setFd k i (openedFd fs entry)
        generalize k.setFd i (openedFd fs entry) = k₁ at h hset
        cases htable : (k₁.currentPcb.fdArray i).fopsJmpTable with
        | null =>
          rw [htable] at h
          cases h
        | rtc =>
          rw [htable] at h
          refine returned h (hR.trans _ _ _ hset ?_)
          rw [Kernel.openRtc]
          split_ifs
          · exact hR.refl k₁
          · exact hR.setRtc k₁ k₁.rtcFlag _ true
        | _ =>
          rw [htable] at h
          exact returned h hset
  · exact returned h (hR.refl k)

theorem close (hR : CallRule R) (h : k.close fd = some (ret, k')) : R k k' := by
  rcases close_cases h with ⟨-, rfl⟩ | ⟨-, rfl⟩
  · exact hR.refl k'
  · exact hR.setFd k _ _

/-- A `write`, given what the relation makes of a `write` to the terminal. -/
theorem write (hR : CallRule R)
    (hprint : inWindow buf → k.Open fd → (k.fds fd.toNat).fopsJmpTable = .terminal →
      R k (k.writeTerminal fd (stringAt buf) numBytes u).1.2)
    (h : (k.write fd buf numBytes u).1 = some (ret, k')) : R k k' := by
  by_cases hopen : inWindow buf ∧ k.Open fd
  · rw [write_of_open k fd buf numBytes hopen.1 hopen.2] at h
    cases htable : (k.fds fd.toNat).fopsJmpTable with
    | null =>
      rw [htable] at h
      cases h
    | rtc =>
      rw [htable] at h
      exact returned h (hR.writeRtc k)
    | terminal =>
      rw [htable] at h
      exact returned h (hprint hopen.1 hopen.2 htable)
    | regularFile =>
      rw [htable] at h
      exact returned h (hR.refl k)
    | directory =>
      rw [htable] at h
      exact returned h (hR.refl k)
  · rw [write_of_rejected k fd buf numBytes u hopen] at h
    exact returned h (hR.refl k)

theorem call (hR : CallRule R) (hshown : ∀ k k', Kernel.Shown k k' → R k k') {c : FdCall}
    (h : (c.run fs k u).1 = some (ret, k')) : R k k' := by
  cases c with
  | «open» filename => exact hR.open h
  | close fd => exact hR.close h
  | read stdin fd buf numBytes => exact hR.read h
  | write fd buf numBytes =>
    refine hR.write (fun _ _ _ => hshown _ _ ?_) h
    have hprinted := k.writeTerminal_shown fd (fun i => (charAt u buf i : Id UInt8)) numBytes
    rwa [← writeTerminal_user_fst] at hprinted

end CallRule

end Kernel

end SnoopDos
