import SnoopDos.Lib.Runs
import SnoopDos.Proofs.Keys
import SnoopDos.Proofs.Switching
import SnoopDos.Spec.System

/-! Delivery of keyboard lines. The end of a line and the drain of the buffer are
separate steps, and keys may come in between. Reads get the lines in turn, and no
character is lost, unless such a key edits the buffer. -/

namespace SnoopDos

open Kernel

section Buffer

variable {stdin : ℕ → UInt8} {l : List UInt8}

/-- The buffer starts with `l` and a NUL. -/
def BufferHolds (stdin : ℕ → UInt8) (l : List UInt8) : Prop :=
  ∀ i ≤ l.length, stdin i = l.getD i NULL_CHAR

theorem holds_nil (h : stdin 0 = NULL_CHAR) : BufferHolds stdin [] := by
  intro i hi
  obtain rfl : i = 0 := Nat.le_zero.mp hi
  exact h

theorem BufferHolds.congr (h : BufferHolds stdin l) {stdin' : ℕ → UInt8}
    (heq : ∀ i ≤ l.length, stdin' i = stdin i) : BufferHolds stdin' l := fun i hi => (heq i hi).trans (h i hi)

theorem BufferHolds.append (h : BufferHolds stdin l) (c : UInt8) :
    BufferHolds (Function.update (Function.update stdin l.length c) (l.length + 1) NULL_CHAR)
      (l ++ [c]) := by
  intro i hi
  rw [List.length_append, List.length_singleton] at hi
  rcases Nat.lt_trichotomy i l.length with hlt | rfl | hgt
  · rw [Function.update_of_ne (by omega), Function.update_of_ne (by omega), h i hlt.le]
    simp only [List.getD_eq_getElem?_getD, List.getElem?_append_left hlt]
  · rw [Function.update_of_ne (by omega), Function.update_self]
    simp
  · obtain rfl : i = l.length + 1 := by omega
    rw [Function.update_self]
    simp

theorem BufferHolds.dropLast (h : BufferHolds stdin l) :
    BufferHolds (Function.update stdin (l.length - 1) NULL_CHAR) l.dropLast := by
  intro i hi
  rw [List.length_dropLast] at hi
  rcases hi.lt_or_eq with hlt | rfl
  · rw [Function.update_of_ne (by omega), h i (by omega)]
    simp only [List.getD_eq_getElem?_getD, List.getElem?_dropLast, if_pos hlt]
  · rw [Function.update_self]
    simp

theorem drainLoop_eq {n i : ℕ} (h : ∀ j ≤ l.length, stdin (i + j) = l.getD j NULL_CHAR)
    (hl : ∀ c ∈ l, c ≠ NULL_CHAR) (hn : l.length ≤ n) : drainLoop stdin n i = l := by
  induction l generalizing n i with
  | nil =>
    cases n with
    | zero => rfl
    | succ n => exact if_neg (not_not.mpr (h 0 le_rfl))
  | cons c l ih =>
    obtain ⟨n, rfl⟩ : ∃ m, n = m + 1 := ⟨n - 1, by simp at hn; omega⟩
    have hc : stdin i = c := h 0 (Nat.zero_le _)
    have hrest : drainLoop stdin n (i + 1) = l := by
      refine ih (fun j hj => ?_) (fun d hd => hl d (List.mem_cons_of_mem c hd))
        (Nat.succ_le_succ_iff.mp hn)
      rw [Nat.add_assoc, Nat.add_comm 1 j]
      exact h (j + 1) (Nat.succ_le_succ hj)
    rw [drainLoop, if_pos (hc.trans_ne (hl c List.mem_cons_self)), hc, hrest]

theorem BufferHolds.drain {k : Kernel} {t : ℕ} (h : BufferHolds (k.terminals t).stdin l)
    (hl : ∀ c ∈ l, c ≠ NULL_CHAR) (hlen : l.length ≤ KEYBOARD_BUFF_SIZE) :
    (k.readTerminalDrain t).1 = l :=
  drainLoop_eq (fun j hj => by rw [Nat.zero_add]; exact h j hj) hl hlen

end Buffer

/-- How far the `read_terminal` of a terminal's process has come. -/
inductive Phase
  | idle
  | waiting
  | observed
  deriving DecidableEq

/-- The kernel and, for each terminal, its reader and the characters that have been
accepted (appended and not erased) and not yet delivered. Each read is recorded with what
it copied out and what had been accepted by then. -/
structure Session where
  kernel : Kernel
  phase : ℕ → Phase
  pending : ℕ → List UInt8
  reads : List (List UInt8 × List UInt8)

inductive LineEvent
  | key (residue : Residue) (irqFlags : Word) (raw : UInt8)
  | switch (toT : ℕ)
  | start (t : ℕ)
  | observe (t : ℕ)
  | drain (t : ℕ)

/-- The loop of `read_terminal` and what follows it. -/
def LineEvent.Reader (e : LineEvent) : Prop := ∃ t, e = .observe t ∨ e = .drain t

/-- What was copied out is what had been accepted, up to the first NEW_LINE. -/
def GotLine (r : List UInt8 × List UInt8) : Prop :=
  ∃ l, NEW_LINE ∉ l ∧ r.1 = l ++ [NEW_LINE] ∧ r.1 <+: r.2

/-- What is left once the first line has been delivered. -/
def afterLine (l : List UInt8) : List UInt8 := (l.dropWhile (· ≠ NEW_LINE)).tail

/-- A line that ends when nobody reads is discarded. -/
def Edit.onPending (phase : Phase) (l : List UInt8) : Edit → List UInt8
  | .none => l
  | .append c => l ++ [c]
  | .erase => l.dropLast
  | .enter => if phase = .idle then [] else l ++ [NEW_LINE]

namespace Session

variable (s : Session)

def begin (k : Kernel) : Session := ⟨k, fun _ => .idle, fun _ => [], []⟩

def visible : Terminal := s.kernel.terminals s.kernel.terminalState

/-- The edit that a key makes on the visible terminal. -/
def editOf (raw : UInt8) : Edit := SnoopDos.editOf s.kernel.keyboardState s.visible.stdinIndex raw

def typed (t : ℕ) (edit : Edit) : Session :=
  { s with pending := Function.update s.pending t (edit.onPending (s.phase t) (s.pending t)) }

def Step (fs : Fs) (s : Session) : LineEvent → Session → Prop
  | .key residue irqFlags raw, s' => Plain s.kernel.keyboardState raw ∧
    ∃ k, s.kernel.processSentScancode fs residue irqFlags raw = .returned k ∧
      s' = { s.typed s.kernel.terminalState (s.editOf raw) with kernel := k }
  | .switch toT, s' =>
    s' = { s with kernel := s.kernel.changeTerminalState s.kernel.terminalState toT }
  | .start t, s' => s.phase t = .idle ∧
    s' = { s with
      kernel := s.kernel.readTerminalStart t
      phase := Function.update s.phase t .waiting }
  | .observe t, s' => s.phase t = .waiting ∧ (s.kernel.terminals t).allowedToRead = true ∧
    s' = { s with phase := Function.update s.phase t .observed }
  | .drain t, s' => s.phase t = .observed ∧
    s' = {
      kernel := (s.kernel.readTerminalDrain t).2
      phase := Function.update s.phase t .idle
      pending := Function.update s.pending t (afterLine (s.pending t))
      reads := s.reads ++ [((s.kernel.readTerminalDrain t).1, s.pending t)] }

/-- What has been accepted and not delivered is what a drain would copy out. -/
def NoneLost : Prop := ∀ t, (s.kernel.readTerminalDrain t).1 = s.pending t

/-- Every read that has returned, or that returns before the next key, got its line, and
no character is lost. -/
def Delivers (fs : Fs) : Prop :=
  ∀ p, Runs.Path (Step fs) s p → (∀ x ∈ p, x.1.Reader) →
    (∀ r ∈ (Runs.final s p).reads, GotLine r) ∧ (Runs.final s p).NoneLost

/-- No key edits a buffer that a read is about to drain. -/
def Undisturbed : LineEvent → Prop
  | .key _ _ raw => s.visible.allowedToRead = true → s.editOf raw = .none
  | _ => True

end Session

/-- Characters that can stand in a line. -/
def Accepted (l : List UInt8) : Prop :=
  l.length ≤ KEYBOARD_BUFF_SIZE - NULL_NL_PADDING ∧ ∀ c ∈ l, c ≠ NULL_CHAR ∧ c ≠ NEW_LINE

/-- A line is being typed, or one has been ended for a reader that has not drained
it yet. -/
inductive LineState (u : Terminal) : Phase → List UInt8 → Prop
  | typing {phase : Phase} {l : List UInt8} (hphase : phase ≠ .observed)
      (hallowed : u.allowedToRead = false) (hwaiting : u.readWaiting = decide (phase ≠ .idle))
      (hl : Accepted l) (hstdin : BufferHolds u.stdin l) (hindex : u.stdinIndex = l.length) :
      LineState u phase l
  | complete {phase : Phase} {l : List UInt8} (hphase : phase ≠ .idle)
      (hallowed : u.allowedToRead = true) (hwaiting : u.readWaiting = true)
      (hl : Accepted l) (hstdin : BufferHolds u.stdin (l ++ [NEW_LINE]))
      (hindex : u.stdinIndex = l.length + 1) : LineState u phase (l ++ [NEW_LINE])

section Edits

variable {u : Terminal} {phase : Phase} {l : List UInt8}

theorem Accepted.append (h : Accepted l) {c : UInt8} (hc : c ≠ NULL_CHAR ∧ c ≠ NEW_LINE)
    (hlen : l.length < KEYBOARD_BUFF_SIZE - NULL_NL_PADDING) : Accepted (l ++ [c]) := by
  refine ⟨by rw [List.length_append]; exact hlen, fun d hd => ?_⟩
  rcases List.mem_append.mp hd with hd | hd
  · exact h.2 d hd
  · rwa [List.mem_singleton.mp hd]

theorem Accepted.dropLast (h : Accepted l) : Accepted l.dropLast :=
  ⟨by rw [List.length_dropLast]; exact (Nat.sub_le _ _).trans h.1,
    fun c hc => h.2 c (List.mem_of_mem_dropLast hc)⟩

theorem Accepted.newLine_not_mem (h : Accepted l) : NEW_LINE ∉ l := fun hmem => (h.2 _ hmem).2 rfl

theorem Accepted.ne_null (h : Accepted l) : ∀ c ∈ l ++ [NEW_LINE], c ≠ NULL_CHAR := by
  intro c hc
  rcases List.mem_append.mp hc with hc | hc
  · exact (h.2 c hc).1
  · rw [List.mem_singleton.mp hc]
    decide

theorem BufferHolds.head_newLine (hl : Accepted l) (h : BufferHolds u.stdin (l ++ [NEW_LINE])) :
    u.stdin 0 = NEW_LINE ↔ l = [] := by
  rw [h 0 (Nat.zero_le _)]
  cases l with
  | nil => simp
  | cons c l =>
    have hc := (hl.2 c List.mem_cons_self).2
    simpa using hc

theorem holds_newLine {stdin : ℕ → UInt8} (h0 : stdin 0 = NEW_LINE) (h1 : stdin 1 = NULL_CHAR) :
    BufferHolds stdin ([] ++ [NEW_LINE]) := by
  intro i hi
  obtain rfl | rfl : i = 0 ∨ i = 1 := by
    rw [List.length_append, List.length_singleton, List.length_nil] at hi
    omega
  · exact h0
  · exact h1

theorem holds_release (hl : Accepted l) (h : BufferHolds u.stdin (l ++ [NEW_LINE])) :
    BufferHolds u.release.stdin (l ++ [NEW_LINE]) := by
  simp only [Terminal.release]
  split_ifs with hhead
  · obtain rfl := (h.head_newLine hl).mp hhead
    refine holds_newLine ?_ (Function.update_self _ _ _)
    rw [Function.update_of_ne (by decide)]
    exact hhead
  · exact h

theorem afterLine_line (hl : NEW_LINE ∉ l) : afterLine (l ++ [NEW_LINE]) = [] := by
  have hkeep : ∀ c ∈ l, decide (c ≠ NEW_LINE) = true := fun c hc =>
    decide_eq_true fun heq => hl (heq ▸ hc)
  rw [afterLine, List.dropWhile_append_of_pos hkeep]
  rfl

theorem LineState.edited_typing {edit : Edit} (hvalid : edit.Valid u.stdinIndex)
    (hphase : phase ≠ .observed) (hallowed : u.allowedToRead = false)
    (hwaiting : u.readWaiting = decide (phase ≠ .idle)) (hl : Accepted l)
    (hstdin : BufferHolds u.stdin l) (hindex : u.stdinIndex = l.length) :
    LineState (u.edited edit) phase (edit.onPending phase l) := by
  cases edit with
  | none => exact .typing hphase hallowed hwaiting hl hstdin hindex
  | append c =>
    refine .typing hphase hallowed hwaiting (hl.append hvalid.2 (hindex ▸ hvalid.1)) ?_ ?_
    · simp only [Terminal.edited, Terminal.append, hindex]
      exact hstdin.append c
    · simp [Terminal.edited, Terminal.append, Edit.onPending, hindex]
  | erase =>
    refine .typing hphase hallowed hwaiting hl.dropLast ?_ ?_
    · simp only [Terminal.edited, Terminal.erase, hindex]
      exact hstdin.dropLast
    · simp [Terminal.edited, Terminal.erase, Edit.onPending, hindex]
  | enter =>
    have hend : BufferHolds (u.append NEW_LINE).stdin (l ++ [NEW_LINE]) := by
      simp only [Terminal.append, hindex]
      exact hstdin.append NEW_LINE
    by_cases hidle : phase = .idle
    · have hnot : u.readWaiting = false := by simp [hwaiting, hidle]
      have hedit : u.edited .enter = (u.append NEW_LINE).discard := if_neg (by simp [hnot])
      have hline : Edit.onPending phase l .enter = [] := if_pos hidle
      rw [hedit, hline]
      exact .typing hphase rfl hwaiting ⟨Nat.zero_le _, by simp⟩ (holds_nil rfl) rfl
    · have hread : u.readWaiting = true := by simp [hwaiting, hidle]
      have hedit : u.edited .enter = (u.append NEW_LINE).release := if_pos hread
      have hline : Edit.onPending phase l .enter = l ++ [NEW_LINE] := if_neg hidle
      rw [hedit, hline]
      refine .complete hidle rfl hread hl (holds_release hl hend) ?_
      simp only [Terminal.release, Terminal.append, hindex]

end Edits

theorem LineState.edited {u : Terminal} {phase : Phase} {l : List UInt8} {edit : Edit}
    (h : LineState u phase l) (hvalid : edit.Valid u.stdinIndex)
    (hund : u.allowedToRead = true → edit = .none) :
    LineState (u.edited edit) phase (edit.onPending phase l) := by
  cases h with
  | typing hphase hallowed hwaiting hl hstdin hindex =>
    exact LineState.edited_typing hvalid hphase hallowed hwaiting hl hstdin hindex
  | complete hphase hallowed hwaiting hl hstdin hindex =>
    rw [hund hallowed]
    exact .complete hphase hallowed hwaiting hl hstdin hindex

theorem LineState.moved {u : Terminal} {phase : Phase} {l : List UInt8}
    (h : LineState u phase l) (x y : ℤ) :
    LineState { u with screenX := x, screenY := y } phase l := by
  cases h with
  | typing h₁ h₂ h₃ h₄ h₅ h₆ => exact .typing h₁ h₂ h₃ h₄ h₅ h₆
  | complete h₁ h₂ h₃ h₄ h₅ h₆ => exact .complete h₁ h₂ h₃ h₄ h₅ h₆

theorem LineState.drain {k : Kernel} {t : ℕ} {phase : Phase} {l : List UInt8}
    (h : LineState (k.terminals t) phase l) : (k.readTerminalDrain t).1 = l := by
  cases h with
  | typing _ _ _ hl hstdin _ =>
    exact hstdin.drain (fun c hc => (hl.2 c hc).1) (hl.1.trans (by decide))
  | complete _ _ _ hl hstdin _ =>
    refine hstdin.drain hl.ne_null ?_
    rw [List.length_append]
    exact (Nat.add_le_add_right hl.1 1).trans (by decide)

namespace Session

/-- Every terminal is as its reader and its line say, and reads so far got theirs. -/
structure Inv (s : Session) : Prop where
  lines : ∀ t, LineState (s.kernel.terminals t) (s.phase t) (s.pending t)
  reads : ∀ r ∈ s.reads, GotLine r

variable {fs : Fs} {s s' : Session}

theorem begin_inv {k : Kernel} (h : ∀ t, (k.terminals t).stdin 0 = NULL_CHAR ∧
    (k.terminals t).stdinIndex = 0 ∧ (k.terminals t).allowedToRead = false ∧
    (k.terminals t).readWaiting = false) : (begin k).Inv where
  lines t := by
    obtain ⟨hstdin, hindex, hallowed, hwaiting⟩ := h t
    change LineState (k.terminals t) .idle []
    exact .typing (by decide) hallowed hwaiting ⟨Nat.zero_le _, by simp⟩ (holds_nil hstdin) hindex
  reads := by simp [begin]

theorem key_inv {residue : Residue} {irqFlags : Word} {raw : UInt8} (h : s.Inv)
    (hund : s.Undisturbed (.key residue irqFlags raw))
    (hstep : Step fs s (.key residue irqFlags raw) s') : s'.Inv := by
  obtain ⟨hplain, k', hk, rfl⟩ := hstep
  obtain ⟨k'', hk'', -, -, hterminals⟩ := s.kernel.processSentScancode_plain fs residue irqFlags hplain
  obtain rfl := KeyResult.returned.inj (hk.symm.trans hk'')
  refine ⟨fun t => ?_, h.reads⟩
  simp only [typed, hterminals, editedTerminals]
  rcases eq_or_ne t s.kernel.terminalState with rfl | hne
  · simp only [Function.update_self]
    exact (h.lines _).edited (editOf_valid _ _ _) hund
  · simp only [Function.update_of_ne hne]
    exact h.lines t

theorem switch_inv {toT : ℕ} (h : s.Inv) (hstep : Step fs s (.switch toT) s') : s'.Inv := by
  subst hstep
  obtain ⟨P, hk, -⟩ := s.kernel.changeTerminalState_spec s.kernel.terminalState toT
  refine ⟨fun t => ?_, h.reads⟩
  rw [hk]
  simp only [saveScreenXY, setTerminal]
  rcases eq_or_ne t s.kernel.terminalState with rfl | hne
  · rw [Function.update_self]
    exact (h.lines _).moved _ _
  · rw [Function.update_of_ne hne]
    exact h.lines t

theorem start_inv {t : ℕ} (h : s.Inv) (hstep : Step fs s (.start t) s') : s'.Inv := by
  obtain ⟨hidle, rfl⟩ := hstep
  refine ⟨fun t' => ?_, h.reads⟩
  simp only [readTerminalStart, setTerminal]
  rcases eq_or_ne t' t with rfl | hne
  · have hline := h.lines t'
    rw [hidle] at hline
    rw [Function.update_self, Function.update_self]
    generalize s.pending t' = l at hline ⊢
    cases hline with
    | typing _ hallowed _ hl hstdin hindex =>
      exact .typing (by decide) hallowed rfl hl hstdin hindex
    | complete hne => exact absurd rfl hne
  · rw [Function.update_of_ne hne, Function.update_of_ne hne]
    exact h.lines t'

theorem observe_inv {t : ℕ} (h : s.Inv) (hstep : Step fs s (.observe t) s') : s'.Inv := by
  obtain ⟨-, hallowed, rfl⟩ := hstep
  refine ⟨fun t' => ?_, h.reads⟩
  rcases eq_or_ne t' t with rfl | hne
  · have hline := h.lines t'
    simp only [Function.update_self]
    generalize s.pending t' = l at hline ⊢
    cases hline with
    | typing _ hnot => simp [hnot] at hallowed
    | complete _ hallowed hwaiting hl hstdin hindex =>
      exact .complete (by decide) hallowed hwaiting hl hstdin hindex
  · simp only [Function.update_of_ne hne]
    exact h.lines t'

theorem drain_inv {t : ℕ} (h : s.Inv) (hstep : Step fs s (.drain t) s') : s'.Inv := by
  obtain ⟨hobserved, rfl⟩ := hstep
  have hdrained := (h.lines t).drain
  obtain ⟨l, hnew, hpending⟩ : ∃ l, NEW_LINE ∉ l ∧ s.pending t = l ++ [NEW_LINE] := by
    have hline := h.lines t
    rw [hobserved] at hline
    generalize s.pending t = m at hline ⊢
    cases hline with
    | typing hne => exact absurd rfl hne
    | complete _ _ _ hl _ _ => exact ⟨_, hl.newLine_not_mem, rfl⟩
  refine ⟨fun t' => ?_, fun r hr => ?_⟩
  · rcases eq_or_ne t' t with rfl | hne
    · simp only [readTerminalDrain, setTerminal, Function.update_self, hpending,
        afterLine_line hnew]
      exact .typing (by decide) rfl rfl ⟨Nat.zero_le _, by simp⟩ (holds_nil rfl) rfl
    · simp only [readTerminalDrain, setTerminal, Function.update_of_ne hne]
      exact h.lines t'
  · rcases List.mem_append.mp hr with hr | hr
    · exact h.reads r hr
    · obtain rfl := List.mem_singleton.mp hr
      exact ⟨l, hnew, hdrained.trans hpending, hdrained ▸ List.prefix_rfl⟩

theorem step_inv (e : LineEvent) (h : s.Inv) (hund : s.Undisturbed e) (hstep : Step fs s e s') :
    s'.Inv := by
  cases e with
  | key => exact key_inv h hund hstep
  | switch => exact switch_inv h hstep
  | start => exact start_inv h hstep
  | observe => exact observe_inv h hstep
  | drain => exact drain_inv h hstep

theorem Inv.delivers (h : s.Inv) : s.Delivers fs := by
  intro p hp hreader
  have hend : (Runs.final s p).Inv :=
    Runs.invariant_final (I := Inv) (G := fun _ e => e.Reader)
      (fun s e s' h hg hstep => step_inv e h (by obtain ⟨t, rfl | rfl⟩ := hg <;> trivial) hstep) h hp
      (Runs.meets_of_forall fun x hx _ => hreader x hx)
  exact ⟨hend.reads, fun t => (hend.lines t).drain⟩

/-- A reader that may go on drains its buffer before the next key. -/
theorem read_next (s : Session) (fs : Fs) {t : ℕ} (hphase : s.phase t ≠ .idle)
    (hallowed : (s.kernel.terminals t).allowedToRead = true) :
    ∃ p, Runs.Path (Step fs) s p ∧ (∀ x ∈ p, x.1.Reader) ∧
      ((s.kernel.readTerminalDrain t).1, s.pending t) ∈ (Runs.final s p).reads := by
  cases hp : s.phase t with
  | idle => exact absurd hp hphase
  | waiting =>
    refine ⟨[(.observe t, _), (.drain t, _)], ⟨⟨hp, hallowed, rfl⟩, ⟨?_, rfl⟩, trivial⟩, ?_, ?_⟩
    · exact Function.update_self _ _ _
    · simp [LineEvent.Reader]
    · exact List.mem_append_right _ (List.mem_singleton.mpr rfl)
  | observed =>
    refine ⟨[(.drain t, _)], ⟨⟨hp, rfl⟩, trivial⟩, ?_, ?_⟩
    · simp [LineEvent.Reader]
    · exact List.mem_append_right _ (List.mem_singleton.mpr rfl)

end Session

/-- What is no line with one NEW_LINE at its end. -/
def NoLine (l : List UInt8) : Prop := ∀ m, NEW_LINE ∉ m → l ≠ m ++ [NEW_LINE]

theorem noLine_of_newLine_not_mem {l : List UInt8} (h : NEW_LINE ∉ l) : NoLine l :=
  fun _ _ heq => h (heq ▸ List.mem_append_right _ List.mem_cons_self)

theorem noLine_append {l : List UInt8} {c : UInt8} (h : c ≠ NEW_LINE ∨ NEW_LINE ∈ l) :
    NoLine (l ++ [c]) := by
  intro m hm heq
  obtain ⟨rfl, hc⟩ := List.append_inj' heq rfl
  rcases h with h | h
  · exact h (List.cons.inj hc).1
  · exact hm h

/-- A key that edits a line that has been ended either makes what is drained no line, or,
for an empty line that is ended twice, loses the second end. -/
theorem LineState.disturbed {u : Terminal} {phase : Phase} {l : List UInt8} {edit : Edit}
    (h : LineState u phase l) (hvalid : edit.Valid u.stdinIndex) (hallowed : u.allowedToRead = true)
    (hnone : edit ≠ .none) :
    (u.edited edit).allowedToRead = true ∧ phase ≠ .idle ∧
      ∃ l', BufferHolds (u.edited edit).stdin l' ∧ (∀ c ∈ l', c ≠ NULL_CHAR) ∧
        l'.length ≤ KEYBOARD_BUFF_SIZE ∧ (NoLine l' ∨ edit.onPending phase l ≠ l') := by
  cases h with
  | typing _ hnot => simp [hnot] at hallowed
  | @complete line hphase _ hwaiting hl hstdin hindex =>
    have hlast : u.stdinIndex = (line ++ [NEW_LINE]).length := by
      rw [List.length_append, List.length_singleton, hindex]
    have happend (c : UInt8) : BufferHolds (u.append c).stdin (line ++ [NEW_LINE] ++ [c]) := by
      simp only [Terminal.append, hlast]
      exact hstdin.append c
    have hchars {c : UInt8} (hc : c ≠ NULL_CHAR) :
        ∀ d ∈ line ++ [NEW_LINE] ++ [c], d ≠ NULL_CHAR := by
      intro d hd
      rcases List.mem_append.mp hd with hd | hd
      · exact hl.ne_null d hd
      · rwa [List.mem_singleton.mp hd]
    have hlength (c : UInt8) (hi : u.stdinIndex < KEYBOARD_BUFF_SIZE) :
        (line ++ [NEW_LINE] ++ [c]).length ≤ KEYBOARD_BUFF_SIZE := by
      rw [List.length_append, ← hlast]
      exact hi
    have hmem : NEW_LINE ∈ line ++ [NEW_LINE] := List.mem_append_right _ List.mem_cons_self
    cases edit with
    | none => exact absurd rfl hnone
    | append c =>
      exact ⟨hallowed, hphase, _, happend c, hchars hvalid.2.1,
        hlength c (hvalid.1.trans (by decide)), Or.inl (noLine_append (Or.inl hvalid.2.2))⟩
    | erase =>
      refine ⟨hallowed, hphase, line, ?_, fun c hc => (hl.2 c hc).1, hl.1.trans (by decide),
        Or.inl (noLine_of_newLine_not_mem hl.newLine_not_mem)⟩
      have hdrop := hstdin.dropLast
      rw [List.dropLast_concat, ← hlast] at hdrop
      exact hdrop
    | enter =>
      have hedit : u.edited .enter = (u.append NEW_LINE).release := if_pos hwaiting
      have hfirst : (u.append NEW_LINE).stdin 0 = u.stdin 0 := by
        simp only [Terminal.append]
        rw [Function.update_of_ne (by omega), Function.update_of_ne (by omega)]
      have hend : Edit.onPending phase (line ++ [NEW_LINE]) .enter = line ++ [NEW_LINE] ++ [NEW_LINE] :=
        if_neg hphase
      rw [hedit, hend]
      by_cases hempty : u.stdin 0 = NEW_LINE
      · -- the code ends the buffer behind its first character
        obtain rfl := (hstdin.head_newLine hl).mp hempty
        refine ⟨rfl, hphase, [] ++ [NEW_LINE], ?_, hl.ne_null, by decide, Or.inr (by simp)⟩
        simp only [Terminal.release, if_pos (hfirst.trans hempty)]
        refine holds_newLine ?_ (Function.update_self _ _ _)
        rw [Function.update_of_ne (by decide), hfirst, hempty]
      · refine ⟨rfl, hphase, _, ?_, hchars (by decide), hlength NEW_LINE (hvalid.trans (by decide)),
          Or.inl (noLine_append (Or.inr hmem))⟩
        simp only [Terminal.release, if_neg (hfirst.trans_ne hempty)]
        exact happend NEW_LINE

namespace Session

variable {fs : Fs} {s s' : Session}

/-- After any other key the reader that runs next gets no line, or a character is lost. -/
theorem disturbed (e : LineEvent) (h : s.Inv) (hund : ¬ s.Undisturbed e) (hstep : Step fs s e s') :
    ¬ s'.Delivers fs := by
  cases e with
  | key residue irqFlags raw =>
    obtain ⟨hallowed, hnone⟩ := Classical.not_imp.mp hund
    obtain ⟨hplain, k', hk, rfl⟩ := hstep
    obtain ⟨k'', hk'', -, -, hterminals⟩ :=
      s.kernel.processSentScancode_plain fs residue irqFlags hplain
    obtain rfl := KeyResult.returned.inj (hk.symm.trans hk'')
    obtain ⟨hallowed', hphase, l', hholds, hchars, hlength, hwrong⟩ :=
      (h.lines s.kernel.terminalState).disturbed (editOf_valid _ _ _) hallowed hnone
    set s' : Session := { s.typed s.kernel.terminalState (s.editOf raw) with kernel := k' } with hs'
    have hvis : s'.kernel.terminals s.kernel.terminalState = s.visible.edited (s.editOf raw) := by
      rw [hs']
      simp only [hterminals, editedTerminals, Function.update_self]
      rfl
    have hpending : s'.pending s.kernel.terminalState =
        (s.editOf raw).onPending (s.phase s.kernel.terminalState)
          (s.pending s.kernel.terminalState) := Function.update_self _ _ _
    have hdrained : (s'.kernel.readTerminalDrain s.kernel.terminalState).1 = l' := by
      refine BufferHolds.drain ?_ hchars hlength
      rw [hvis]
      exact hholds
    have hready : (s'.kernel.terminals s.kernel.terminalState).allowedToRead = true := by
      rw [hvis]
      exact hallowed'
    intro hdelivers
    rcases hwrong with hnoLine | hlost
    · obtain ⟨p, hp, hreader, hread⟩ := s'.read_next fs hphase hready
      obtain ⟨l, hl, hbytes, -⟩ := (hdelivers p hp hreader).1 _ hread
      exact hnoLine l hl (hdrained.symm.trans hbytes)
    · have hkept := (hdelivers [] trivial (by simp)).2 s.kernel.terminalState
      exact hlost (hpending.symm.trans (hkept.symm.trans hdrained))
  | switch => exact absurd trivial hund
  | start => exact absurd trivial hund
  | observe => exact absurd trivial hund
  | drain => exact absurd trivial hund

end Session

/-- Every line buffer as `init_kbd` leaves it. -/
def Kernel.EmptyLines (k : Kernel) : Prop :=
  ∀ t, (k.terminals t).stdin 0 = NULL_CHAR ∧ (k.terminals t).stdinIndex = 0 ∧
    (k.terminals t).allowedToRead = false ∧ (k.terminals t).readWaiting = false

/-- Every read gets its line, up to the one NEW_LINE that ends it, and no character is lost,
exactly as long as no key edits a buffer that is waiting to be drained. -/
theorem keyboard_line_delivery (fs : Fs) (k : Kernel) (hempty : k.EmptyLines)
    (p : List (LineEvent × Session)) (hp : Runs.Path (Session.Step fs) (Session.begin k) p) :
    (∀ x ∈ p, x.2.Delivers fs) ↔ Runs.Meets Session.Undisturbed (Session.begin k) p :=
  Runs.exact_guard (I := Session.Inv) (fun _ h => h.delivers)
    (fun _ e _ h hg hstep => Session.step_inv e h hg hstep)
    (fun _ e _ h hg hstep => Session.disturbed e h hg hstep) (Session.begin_inv hempty) hp

theorem Session.key_step (fs : Fs) (s : Session) (raw : UInt8) (edit : Edit)
    (h0 : s.kernel.terminalState = 0) (hplain : Plain s.kernel.keyboardState raw)
    (hedit : SnoopDos.editOf s.kernel.keyboardState (s.kernel.terminals 0).stdinIndex raw = edit) :
    ∃ k, s.Step fs (.key zeroResidue 0#32 raw) { s.typed 0 edit with kernel := k } ∧
      k.terminalState = 0 ∧ k.keyboardState = updateKeyboardState s.kernel.keyboardState raw ∧
      k.terminals 0 = (s.kernel.terminals 0).edited edit := by
  obtain ⟨k, hk, hvisible, hstate, hterminals⟩ :=
    s.kernel.processSentScancode_plain fs zeroResidue 0#32 hplain
  have hedit' : s.editOf raw = edit := by rw [Session.editOf, Session.visible, h0, hedit]
  refine ⟨k, ⟨hplain, k, hk, by rw [hedit', h0]⟩, hvisible.trans h0, hstate, ?_⟩
  rw [hterminals, editedTerminals, h0, hedit, Function.update_self]

theorem shellKernel_emptyLines : shellKernel.EmptyLines := by
  have hterminals : shellKernel.terminals =
      Function.update bootKernel.terminals 0 { bootKernel.terminals 0 with pid := 0 } := rfl
  intro t
  rw [hterminals]
  rcases eq_or_ne t 0 with rfl | hne
  · rw [Function.update_self]
    exact ⟨rfl, rfl, rfl, rfl⟩
  · rw [Function.update_of_ne hne]
    exact ⟨rfl, rfl, rfl, rfl⟩

/-- The first shell has begun to read. -/
def readingShell : Session :=
  { Session.begin shellKernel with
    kernel := shellKernel.readTerminalStart 0
    phase := Function.update (fun _ => .idle) 0 .waiting }

theorem line_typed : ∃ k₁ k₂,
    readingShell.Step shellFs (.key zeroResidue 0#32 0x1E)
      { readingShell.typed 0 (.append 97) with kernel := k₁ } ∧
    Session.Step shellFs { readingShell.typed 0 (.append 97) with kernel := k₁ }
      (.key zeroResidue 0#32 0x1C)
      { ({ readingShell.typed 0 (.append 97) with kernel := k₁ } : Session).typed 0 .enter with
        kernel := k₂ } ∧
    k₁.terminalState = 0 ∧ k₁.terminals 0 = (readingShell.kernel.terminals 0).edited (.append 97) ∧
    k₂.terminalState = 0 ∧ k₂.terminals 0 = (k₁.terminals 0).edited .enter ∧
    k₂.keyboardState = updateKeyboardState (updateKeyboardState 0#32 0x1E) 0x1C := by
  obtain ⟨k₁, h₁, hv₁, hs₁, ht₁⟩ := readingShell.key_step shellFs 0x1E (.append 97) rfl (by decide)
    (by change editOf 0#32 0 0x1E = _; rfl)
  obtain ⟨k₂, h₂, hv₂, hs₂, ht₂⟩ := Session.key_step shellFs
    { readingShell.typed 0 (.append 97) with kernel := k₁ } 0x1C .enter hv₁ (by rw [hs₁]; decide)
    (by rw [hs₁, ht₁]; change editOf 0#32 1 0x1C = _; rfl)
  exact ⟨k₁, k₂, h₁, h₂, hv₁, ht₁, hv₂, ht₂, hs₂.trans (congrArg (updateKeyboardState · 0x1C) hs₁)⟩

/-- The first shell reads the line `a`. -/
theorem keyboard_line_delivery_a : ∃ p,
    Runs.Path (Session.Step shellFs) (Session.begin shellKernel) p ∧
      (Runs.final (Session.begin shellKernel) p).reads = [([97, 10], [97, 10])] ∧
      ∀ x ∈ p, x.2.Delivers shellFs := by
  obtain ⟨k₁, k₂, h₁, h₂, hv₁, ht₁, hv₂, ht₂, -⟩ := line_typed
  have hallowed : (k₂.terminals 0).allowedToRead = true := by
    rw [ht₂, ht₁]
    rfl
  have hdrained : (k₂.readTerminalDrain 0).1 = [97, 10] := by
    rw [readTerminalDrain, ht₂, ht₁]
    rfl
  have hpath : Runs.Path (Session.Step shellFs) (Session.begin shellKernel)
      [(.start 0, readingShell), (.key zeroResidue 0#32 0x1E, _), (.key zeroResidue 0#32 0x1C, _),
        (.observe 0, _), (.drain 0, _)] :=
    ⟨⟨rfl, rfl⟩, h₁, h₂, ⟨rfl, hallowed, rfl⟩, ⟨rfl, rfl⟩, trivial⟩
  have hopen : (k₁.terminals k₁.terminalState).allowedToRead = false := by
    rw [hv₁, ht₁]
    rfl
  refine ⟨_, hpath, ?_, (keyboard_line_delivery shellFs shellKernel shellKernel_emptyLines _
    hpath).mpr ⟨trivial, fun h => ?_, fun h => ?_, trivial, trivial, trivial⟩⟩
  · simp only [Runs.final, hdrained]
    rfl
  · exact absurd h (by decide)
  · exact absurd (hopen.symm.trans h) Bool.false_ne_true

/-- The first shell reads while `a`, Enter and `b` are typed, and only then runs. -/
theorem typed_after_enter : ∃ p,
    Runs.Path (Session.Step shellFs) (Session.begin shellKernel) p ∧
      (Runs.final (Session.begin shellKernel) p).reads = [([97, 10, 98], [97, 10, 98])] ∧
      ¬ GotLine ([97, 10, 98], [97, 10, 98]) := by
  obtain ⟨k₁, k₂, h₁, h₂, -, ht₁, hv₂, ht₂, hs₂⟩ := line_typed
  obtain ⟨k₃, h₃, hv₃, hs₃, ht₃⟩ := Session.key_step shellFs
    { ({ readingShell.typed 0 (.append 97) with kernel := k₁ } : Session).typed 0 .enter with
      kernel := k₂ } 0x30 (.append 98) hv₂ (by rw [hs₂]; decide)
    (by rw [hs₂, ht₂, ht₁]; change editOf 0#32 2 0x30 = _; rfl)
  have hallowed : (k₃.terminals 0).allowedToRead = true := by rw [ht₃, ht₂, ht₁]; rfl
  have hdrained : (k₃.readTerminalDrain 0).1 = [97, 10, 98] := by
    rw [readTerminalDrain, ht₃, ht₂, ht₁]
    rfl
  refine ⟨[(.start 0, readingShell), (_, _), (_, _), (_, _), (.observe 0, _), (.drain 0, _)],
    ⟨⟨rfl, rfl⟩, h₁, h₂, h₃, ⟨rfl, hallowed, rfl⟩, ⟨rfl, rfl⟩, trivial⟩, ?_, ?_⟩
  · simp only [Runs.final, hdrained]
    rfl
  · rintro ⟨l, -, hl, -⟩
    have hlast := congrArg List.getLast? hl
    rw [List.getLast?_concat] at hlast
    exact absurd hlast (by decide)

end SnoopDos
