import SnoopDos.Proofs.CallTrees
import SnoopDos.Proofs.ExecuteChecks
import SnoopDos.Proofs.ProgramScreens
import SnoopDos.Proofs.ProgramStrings
import SnoopDos.Spec.Shell

/-! The shell on the first terminal, round by round: what it executes, and what it
says of it, for whatever lines are typed and whatever the programs that it starts do. -/

namespace SnoopDos

open Kernel UserMem Command

section Strings

variable {u : UserMem} {a b : Addr} {l m : List UInt8}

/-- `ece391_strcmp` of two strings tells whether they are the same. -/
theorem ece391Strcmp_spec (ha : HoldsName u a l) (hb : HoldsName u b m) (hl : NulFree l)
    (hm : NulFree m) (fuel : ℕ) (hfuel : l.length < fuel) : ∃ d,
    (ece391Strcmp fuel a b u).1 = some d ∧ (d = 0 ↔ l = m) ∧
      (ece391Strcmp fuel a b u).2.bytes = u.bytes := by
  induction fuel generalizing u a b l m with
  | zero => omega
  | succ fuel ih =>
    have hbytes : (load b (load a u).2).2.bytes = u.bytes := rfl
    simp only [ece391Strcmp, bind_run]
    rw [show (load a u).1 = u.bytes a from rfl, show (load b (load a u).2).1 = u.bytes b from rfl]
    cases l with
    | nil =>
      rw [ha.empty]
      cases m with
      | nil =>
        rw [hb.empty, if_pos rfl, if_pos rfl]
        exact ⟨0, rfl, iff_of_true rfl rfl, hbytes⟩
      | cons d m =>
        rw [hb.head, if_neg hm.head.symm]
        refine ⟨_, rfl, iff_of_false (fun hz => hm.head ?_) (List.cons_ne_nil d m).symm, hbytes⟩
        exact (UInt8.toNat_inj.mp (by omega)).symm
    | cons c l =>
      rw [ha.head]
      cases m with
      | nil =>
        rw [hb.empty, if_neg hl.head]
        refine ⟨_, rfl, iff_of_false (fun hz => hl.head ?_) (List.cons_ne_nil c l), hbytes⟩
        exact UInt8.toNat_inj.mp (by omega)
      | cons d m =>
        rw [hb.head]
        by_cases hcd : c = d
        · subst hcd
          rw [if_pos rfl, if_neg hl.head]
          obtain ⟨e, hrun, hzero, hsame⟩ := ih (ha.tail.of_bytes hbytes) (hb.tail.of_bytes hbytes)
            hl.tail hm.tail (Nat.lt_of_succ_lt_succ hfuel)
          exact ⟨e, hrun, hzero.trans (List.cons_inj_right c).symm, hsame.trans hbytes⟩
        · rw [if_neg hcd]
          refine ⟨_, rfl, iff_of_false (fun hz => hcd ?_) fun h => hcd (List.cons.inj h).1, hbytes⟩
          exact UInt8.toNat_inj.mp (by omega)

theorem strcpy_user_fst (ha : HoldsName u a l) (hl : NulFree l) (fuel i : ℕ) (hi : i ≤ l.length)
    (hfuel : l.length < i + fuel) : (strcpy (stringAt a) fuel i u).1 = l.drop i := by
  induction fuel generalizing u i with
  | zero => omega
  | succ fuel ih =>
    rw [strcpy, bind_run]
    simp only [stringAt_fst]
    change ((if charAt u a i = NULL_CHAR then _ else _ : User (List UInt8)) _).1 = _
    rcases hi.eq_or_lt with rfl | hlt
    · rw [List.drop_length, if_pos]
      · rfl
      · rw [ha _ le_rfl, List.getD_eq_getElem?_getD, List.getElem?_eq_none le_rfl, Option.getD_none]
    · have hchar : charAt u a i = l[i] := by
        rw [ha i hi, List.getD_eq_getElem?_getD, List.getElem?_eq_getElem hlt, Option.getD_some]
      have hne : l[i] ≠ NULL_CHAR := fun h => hl (h ▸ List.getElem_mem hlt)
      rw [if_neg (by rw [hchar]; exact hne), bind_run, pure_run, List.drop_eq_getElem_cons hlt]
      exact congrArg₂ List.cons hchar
        (ih (u := (stringAt a i u).2) (ha.of_bytes rfl) (i + 1) hlt (by omega))

end Strings

section Execute

variable {k k' : Kernel} {fs : Fs} {residue : Residue} {u : UserMem} {buf : Addr} {l : List UInt8}

def Kernel.executeLine (k : Kernel) (fs : Fs) (residue : Residue) (l : List UInt8) : ExecResult :=
  match k.executePrologue.getAvailablePid with
  | none => .failed k.executePrologue
  | some pid =>
    if MAX_EXECUTE_ARG_SIZE ≤ l.length then .failed k.executePrologue
    else k.executePrologue.executeCommand fs residue k.interruptFlag pid l USER_EXECUTE

theorem internalExecute_line (k : Kernel) (fs : Fs) (residue : Residue) (hl : NulFree l)
    (hlen : l.length < 2 ^ 32) : Id.run (k.internalExecute fs residue (ofList l) USER_EXECUTE) =
      some (k.executeLine fs residue l) := by
  simp only [internalExecute, Kernel.executeLine]
  cases k.executePrologue.getAvailablePid with
  | none => rfl
  | some pid =>
    simp only [Id.run_bind]
    rw [strlen_ofList hl (2 ^ 32) 0 (Nat.zero_le _) (by omega)]
    dsimp only
    split_ifs with hlong
    · rfl
    · simp only [Id.run_bind]
      rw [strcpy_ofList hl _ 0 (Nat.zero_le _) (by omega)]
      rfl

theorem execute_line (k : Kernel) (fs : Fs) (residue : Residue) (hname : HoldsName u buf l)
    (hl : NulFree l) (hlen : l.length < 2 ^ 32) :
    (k.execute fs residue buf u).1 = some (k.executeLine fs residue l) ∧
      (k.execute fs residue buf u).2.bytes = u.bytes := by
  have hget (j : ℕ) (hj : j < l.length) : charAt u buf j ≠ NULL_CHAR := by
    rw [hname j hj.le, List.getD_eq_getElem?_getD, List.getElem?_eq_getElem hj, Option.getD_some]
    exact fun h => hl (h ▸ List.getElem_mem hj)
  have hend : charAt u buf l.length = NULL_CHAR := by
    rw [hname _ le_rfl, List.getD_eq_getElem?_getD, List.getElem?_eq_none le_rfl, Option.getD_none]
  have hstrlen : (strlen (stringAt buf) (2 ^ 32) 0 u).1 = some l.length :=
    strlen_user_fst u buf (Nat.zero_le _) (by omega) (fun j _ hj => hget j hj) hend
  have hbytes := strlen_user_bytes u buf (2 ^ 32) 0
  rw [Kernel.execute, internalExecute, Kernel.executeLine]
  cases k.executePrologue.getAvailablePid with
  | none => exact ⟨rfl, rfl⟩
  | some pid =>
    simp only [bind_run, hstrlen]
    split_ifs with hlong
    · exact ⟨rfl, hbytes⟩
    · have hcopy := strcpy_user_fst (hname.of_bytes hbytes) hl MAX_EXECUTE_ARG_SIZE 0
        (Nat.zero_le _) (by omega)
      rw [bind_run, hcopy, pure_run]
      refine ⟨rfl, ?_⟩
      rw [strcpy_user_snd, strlen_user_bytes, hbytes]

def Kernel.launches (k : Kernel) (fs : Fs) (residue : Residue) (l : List UInt8) : Bool :=
  match k.executeLine fs residue l with
  | .started _ _ => true
  | .failed _ => false

/-- Whether a line starts a program depends on the kernel for a free pid only. -/
theorem launches_congr (fs : Fs) (residue : Residue) (l : List UInt8)
    (h : k'.pidAvail = k.pidAvail) : k'.launches fs residue l = k.launches fs residue l := by
  obtain ⟨pcbs, hpro⟩ := k.executePrologue_frame
  obtain ⟨pcbs', hpro'⟩ := k'.executePrologue_frame
  have hpid : k'.executePrologue.getAvailablePid = k.executePrologue.getAvailablePid := by
    rw [hpro, hpro']
    exact congrArg (fun avail => availableLoop avail MAX_NUM_PROCS 0 1#32) h
  unfold Kernel.launches Kernel.executeLine
  rw [hpid]
  cases k.executePrologue.getAvailablePid with
  | none => rfl
  | some pid =>
    unfold executeCommand
    dsimp only
    cases Id.run (readDentryByName fs (ofList (splitCommand l).1)) with
    | none =>
      split_ifs
      · rfl
      · rfl
    | some entry =>
      dsimp only
      split_ifs
      · rfl
      · rfl
      · rfl
      · rfl

theorem executeLine_cases (k : Kernel) (fs : Fs) (residue : Residue) (hl : NulFree l)
    (hlen : l.length < 2 ^ 32) :
    k.executeLine fs residue l = .failed k.executePrologue ∧ k.launches fs residue l = false ∨
      ∃ c k₁ entryPoint, k.Starts c USER_EXECUTE k₁ ∧
        k.executeLine fs residue l = .started k₁ entryPoint ∧ k.launches fs residue l = true := by
  have hrun := internalExecute_line k fs residue hl hlen
  rcases k.internalExecute_cases USER_EXECUTE fs residue (ofList l) with h | h |
    ⟨c, k₁, entryPoint, hstarts, h⟩
  · rw [hrun] at h
    cases h
  · have heq := Option.some.inj (hrun.symm.trans h)
    exact Or.inl ⟨heq, by rw [Kernel.launches, heq]⟩
  · have heq := Option.some.inj (hrun.symm.trans h)
    exact Or.inr ⟨c, k₁, entryPoint, hstarts, heq, by rw [Kernel.launches, heq]⟩

end Execute

section Kept

variable {w : World} {p p' : Process} {q : ℕ}

/-- Between two calls of process `q` the rest of the system leaves alone what is its own. -/
structure World.SparesProcess (w : World) (q : ℕ) : Prop where
  sparesFds : w.SparesFds
  kept : ∀ n k, OnFirstTerminal k q → Kept k q (w.before n k)

/-- Process `q` has kept what is its own, and left the others alone. -/
def Process.KeepsOwn (q : ℕ) (p p' : Process) : Prop :=
  OnFirstTerminal p.kernel q → Kept p.kernel q p'.kernel

theorem keeps_of_call (hw : w.SparesProcess q) {c : FdCall} {a : Word}
    (h : p.resume (c.run w.fs (w.entered p) p.user) = some (a, p')) : p.KeepsOwn q p' := by
  intro hp
  obtain ⟨⟨ret, k'⟩, hx, heq⟩ := Option.map_eq_some_iff.mp h
  obtain ⟨-, rfl⟩ := Prod.mk.inj heq
  have hbefore := hw.kept p.calls p.kernel hp
  exact hbefore.trans ((hp.kept hbefore).kept_fdCall hx)

theorem World.Built.keeps (hw : w.SparesProcess q) {α : Type} {c : Command Process α} (hc : w.Built c) :
    Moves (Process.KeepsOwn q) c := by
  refine hc.moves_of (fun p _ => .refl _ q)
    (fun p p' p'' h h' hp => (h hp).trans (h' (hp.kept (h hp)))) (fun p u _ => .refl _ q) ?_ ?_ ?_ ?_ ?_
  · exact fun fd buf nbytes p a p' h => keeps_of_call hw (c := .read _ fd buf nbytes) h
  · intro fd buf nbytes p a p' h
    have hkeeps := keeps_of_call hw (c := .write fd buf nbytes)
      (p := { p with shown := p.shown ++ (w.entered p).sentToTerminal fd buf nbytes p.user }) h
    exact hkeeps
  · exact fun filename p a p' h => keeps_of_call hw (c := .open filename) h
  · exact fun fd p a p' h => keeps_of_call hw (c := .close fd) h
  · intro buf nbytes p a p' h hp
    obtain ⟨x, hx, heq⟩ := Option.map_eq_some_iff.mp h
    obtain ⟨-, rfl⟩ := Prod.mk.inj heq
    obtain ⟨_, -, hx'⟩ := Option.map_eq_some_iff.mp hx
    rw [← (Prod.mk.inj hx').2]
    exact hw.kept p.calls p.kernel hp

theorem World.read_line_returns (hw : w.SparesFds) (h : OpenAs p.kernel.fds 0 .terminal) {buf : Addr}
    (hin : inWindow buf) {nbytes : Word} (hn : 0 ≤ nbytes.toInt) :
    Returns (w.ece391Read 0#32 buf nbytes) p fun ret p' =>
      ret = BitVec.ofNat 32 (bufferedLine (w.stdin p.calls)).length ∧
      p.Goes [] p.kernel.fds (storeBytes buf (bufferedLine (w.stdin p.calls)) p.user).2.bytes p' := by
  have hfds := hw.entered_fds (p := p)
  have hrun := congrFun (read_of_open (w.entered p) w.fs 0#32 buf nbytes (w.stdin p.calls) hin
    (OpenAs.open h hfds)) p.user
  have htable : ((w.entered p).fds (0#32 : Word).toNat).fopsJmpTable = .terminal := by
    rw [hfds]
    exact h.table
  simp only [htable, map_run] at hrun
  obtain ⟨k', hread⟩ := readTerminal_run (w.entered p) p.user buf (w.stdin p.calls) nbytes
    (not_lt.mpr hn)
  have hframe : (w.entered p).WithFds
      ((w.entered p).readTerminal (w.stdin p.calls) 0#32 buf nbytes p.user).1.2 (w.entered p).fds :=
    (w.entered p).readTerminal_frame _ _ _ _ _
  rw [drainLoop_eq_bufferedLine] at hread
  rw [show (0#32 : Word) = STDIN from rfl, hread] at hrun hframe
  have hgoes := hw.goes hframe (storeBytes buf (bufferedLine (w.stdin p.calls)) p.user).2
  rw [hfds] at hgoes
  refine ⟨_, _, ?_, rfl, hgoes⟩
  rw [World.ece391Read, Process.resume, show (0#32 : Word) = STDIN from rfl, hrun]
  rfl

/-- From `p` to `p'` process `q` has sent `text` to its terminal, its memory holds `bytes`,
and it has kept its descriptors and what else is its own. -/
structure Process.Passes (q : ℕ) (p : Process) (text : List UInt8) (bytes : Addr → UInt8)
    (p' : Process) : Prop where
  goes : p.Goes text p.kernel.fds bytes p'
  kept : Kept p.kernel q p'.kernel

theorem Process.Passes.trans {p'' : Process} {text text' : List UInt8} {bytes bytes' : Addr → UInt8}
    (h : p.Passes q text bytes p') (h' : p'.Passes q text' bytes' p'') :
    p.Passes q (text ++ text') bytes' p'' := by
  have hgoes := h.goes.trans h'.goes
  rw [h.goes.fds] at hgoes
  exact ⟨hgoes, h.kept.trans h'.kept⟩

theorem Process.Passes.quiet {p'' : Process} {text : List UInt8} {bytes bytes' : Addr → UInt8}
    (h : p.Passes q [] bytes p') (h' : p'.Passes q text bytes' p'') :
    p.Passes q text bytes' p'' := h.trans h'

theorem World.Built.passes (hw : w.SparesProcess q) (hp : OnFirstTerminal p.kernel q) {α : Type}
    {c : Command Process α} (hc : w.Built c) {Q : α → Process → Prop} (h : Returns c p Q) :
    Returns c p fun a p' => Q a p' ∧ Kept p.kernel q p'.kernel :=
  (h.moved (hc.keeps hw)).mono fun _ _ h => ⟨h.1, h.2 hp⟩

theorem OnFirstTerminal.same_process {k k' : Kernel} (h : OnFirstTerminal k q) (hkept : Kept k q k')
    (hfds : (k'.pcbs (pcbAddr q)).fdArray = (k.pcbs (pcbAddr q)).fdArray) :
    k'.fds = k.fds ∧ k'.currentPcb.args = k.currentPcb.args := by
  obtain ⟨frame, fdArray, hown⟩ := hkept.own
  have hcur : k'.currentPcb = k'.pcbs (pcbAddr q) := congrArg k'.pcbs (h.kept hkept).pcbCurr
  have hcur₀ : k.currentPcb = k.pcbs (pcbAddr q) := congrArg k.pcbs h.pcbCurr
  refine ⟨?_, ?_⟩
  · rw [Kernel.fds, Kernel.fds, hcur, hcur₀, hfds]
  · rw [hcur, hcur₀, hown]

/-- The program ends whenever process `q` has started it. -/
def Life.Ends (life : Life) (fs : Fs) (q : ℕ) : Prop :=
  ∀ k c k₁, Child k q c k₁ → life.run fs k₁ ≠ none

/-- `execute` returns the status of the program that it has started, if there is one. -/
theorem ShellSession.execute_returns {s : ShellSession} (hw : s.toWorld.SparesProcess q)
    (hp : OnFirstTerminal p.kernel q)
    {buf : Addr} {l : List UInt8} (hname : HoldsName p.user buf l) (hl : NulFree l)
    (hlen : l.length < 2 ^ 32) {n : ℕ} {life : Life}
    (hchild : s.child n = life.run s.fs) (hends : life.Ends s.fs q) :
    Returns (s.ece391Execute n buf) p fun ret p' =>
      ret = (if p.kernel.launches s.fs (s.residue n) l then life.status else FAILURE) ∧
      p.Passes q [] p.user.bytes p' := by
  have hbefore : Kept p.kernel q (s.entered p) := hw.kept _ _ hp
  have hrun : OnFirstTerminal (s.entered p) q := hp.kept hbefore
  have hlaunches := launches_congr s.fs (s.residue n) l hbefore.pidAvail
  obtain ⟨hexec, hbytes⟩ := execute_line (s.entered p) s.fs (s.residue n) hname hl hlen
  have hback {k' : Kernel} (hkept : Kept (s.entered p) q k') (hfds : (k'.pcbs (pcbAddr q)).fdArray =
      ((s.entered p).pcbs (pcbAddr q)).fdArray) : p.Passes q [] p.user.bytes
        (p.after k' ((s.entered p).execute s.fs (s.residue n) buf p.user).2) := by
    obtain ⟨hsame, hargs⟩ := hrun.same_process hkept hfds
    exact ⟨⟨(List.append_nil _).symm, hsame.trans (hw.sparesFds.fds _ _),
      hargs.trans (hw.sparesFds.args _ _), hbytes⟩, hbefore.trans hkept⟩
  rw [← hlaunches]
  rcases executeLine_cases (s.entered p) s.fs (s.residue n) hl hlen with ⟨hline, hno⟩ |
    ⟨c, k₁, entryPoint, hstarts, hline, hyes⟩
  · rw [hline] at hexec
    refine ⟨FAILURE, _, by rw [ShellSession.ece391Execute, hexec], by rw [hno]; rfl, ?_⟩
    refine hback hrun.kept_failed ?_
    rw [executePrologue_of_used _ hrun.used]
    rfl
  · rw [hline] at hexec
    have hinner : Child (s.entered p) q c k₁ := ⟨hrun, hstarts⟩
    cases hlife : life.run s.fs k₁ with
    | none => exact absurd hlife (hends _ c k₁ hinner)
    | some r =>
      obtain ⟨k₂, rfl, hkept, hfds⟩ := Child.run life hinner (.refl k₁ c) r hlife
      have hreturns : s.ece391Execute n buf p = some (life.status,
          p.after k₂.iret ((s.entered p).execute s.fs (s.residue n) buf p.user).2) := by
        rw [ShellSession.ece391Execute, hexec, hchild]
        dsimp only
        rw [hlife]
      exact ⟨_, _, hreturns, by rw [hyes]; rfl, hback (hkept.setInterruptFlag true) hfds⟩

end Kept

section Shell

/-- A line without its final NEW_LINE. -/
def stripped (l : List UInt8) : List UInt8 := if l.getLast? = some NEW_LINE then l.dropLast else l

/-- The command that is typed in round `n`. -/
def ShellSession.line (s : ShellSession) (n : ℕ) : List UInt8 := stripped (bufferedLine (s.typed n))

/-- What the shell says of a program that has ended with this status. -/
def statusReport (status : Word) : List UInt8 :=
  if status = 256#32 then TERMINATED_BY_EXCEPTION
  else if status ≠ 0#32 then TERMINATED_ABNORMALLY else []

/-- What the shell says after line `l`, if it starts programs in states like `k`, and this
one lives `life`. -/
def ShellSession.answer (s : ShellSession) (k : Kernel) (life : Life) (n : ℕ) (l : List UInt8) :
    List UInt8 :=
  if l = [] then []
  else if k.launches s.fs (s.residue n) l then statusReport life.status else NO_SUCH_COMMAND

/-- The strings of the shell, but for the one that it never prints. -/
def SHELL_TEXTS : List (List UInt8) :=
  [STARTING_SHELL, PROMPT, EXIT, NO_SUCH_COMMAND, TERMINATED_BY_EXCEPTION, TERMINATED_ABNORMALLY]

/-- The shell runs as process `q`, with its array at `buf`. -/
structure ShellSession.RunsAs (s : ShellSession) (q : ℕ) (buf : Addr) (p : Process) : Prop where
  running : OnFirstTerminal p.kernel q
  stdin : OpenAs p.kernel.fds 0 .terminal
  stdout : OpenAs p.kernel.fds 1 .terminal
  holds : s.HoldsTexts SHELL_TEXTS buf 1024 p.user.bytes

variable {s : ShellSession} {p p' : Process} {q n : ℕ} {buf : Addr} {l : List UInt8}

theorem ShellSession.RunsAs.passes (h : s.RunsAs q buf p) (hbuf : Spans buf 1024)
    {text : List UInt8} {bytes : Addr → UInt8} (hpass : p.Passes q text bytes p')
    (hchanged : ChangedIn buf 1024 p.user.bytes bytes) : s.RunsAs q buf p' := by
  refine ⟨h.running.kept hpass.kept, ?_, ?_, ?_⟩
  · rw [hpass.goes.fds]
    exact h.stdin
  · rw [hpass.goes.fds]
    exact h.stdout
  · rw [hpass.goes.bytes]
    exact h.holds.changed hbuf hchanged

theorem Life.status_ne (life : Life) : life.status ≠ FAILURE := by
  induction life with
  | ends ending =>
    cases ending with
    | halt residue status =>
      intro h
      have hnat := congrArg BitVec.toNat h
      have hlt := status.toNat_lt
      rw [Life.status, Ending.status, BitVec.toNat_ofNat, Nat.mod_eq_of_lt (by omega)] at hnat
      exact absurd hnat (by rw [show FAILURE.toNat = 2 ^ 32 - 1 from rfl]; omega)
    | exception => decide
  | fdCall u c rest ih => exact ih
  | execute residue command child rest _ ih => exact ih

theorem ShellSession.complain_passes (hw : s.toWorld.SparesProcess q) (h : s.RunsAs q buf p)
    {text : List UInt8} (htext : text ∈ SHELL_TEXTS) {α : Type} (a : α) :
    Returns (s.complain text a) p fun a' p' => a' = a ∧ p.Passes q text p.user.bytes p' := by
  have hnul : ∀ t ∈ SHELL_TEXTS, NulFree t := by decide
  have hgoes := World.complain_returns hw.sparesFds h.stdout h.holds htext (hnul text htext) a
  exact ((s.complain_built text a).passes hw h.running hgoes).mono
    fun _ _ h => ⟨h.1.1, h.1.2, h.2⟩

theorem ShellSession.inMemory_passes (hw : s.toWorld.SparesProcess q)
    (hp : OnFirstTerminal p.kernel q) {α : Type} (x : User α) : Returns (inMemory x) p fun a p' =>
      a = (x p.user).1 ∧ p.Passes q [] (x p.user).2.bytes p' :=
  ((World.Built.inMemory (w := s.toWorld) x).passes hw hp (returns_inMemory x p)).mono
    fun _ _ h => ⟨h.1.1, h.1.2, h.2⟩

theorem ShellSession.report_passes (hw : s.toWorld.SparesProcess q) (h : s.RunsAs q buf p) (n : ℕ)
    (rval : Word) : Returns (s.shellReport n rval) p fun r p' => r = .inr (n + 1) ∧
      p.Passes q (if rval = FAILURE then NO_SUCH_COMMAND else statusReport rval) p.user.bytes p' := by
  have hdone : p.Passes q [] p.user.bytes p := ⟨⟨(List.append_nil _).symm, rfl, rfl, rfl⟩, .refl _ q⟩
  unfold ShellSession.shellReport statusReport
  rw [show FAILURE = -1#32 from rfl]
  split_ifs
  · exact s.complain_passes hw h (by decide) _
  · exact s.complain_passes hw h (by decide) _
  · exact s.complain_passes hw h (by decide) _
  · exact returns_pure ⟨rfl, hdone⟩

theorem ShellSession.answer_congr {k k' : Kernel} (h : k'.pidAvail = k.pidAvail) (life : Life) (n : ℕ)
    (l : List UInt8) : s.answer k' life n l = s.answer k life n l := by
  rw [ShellSession.answer, ShellSession.answer, launches_congr s.fs (s.residue n) l h]

theorem holdsName_store {u : UserMem} (hbuf : Spans buf 1024) (hlen : l.length < 1024)
    (hchars : ∀ j < l.length, charAt u buf j = l.getD j NULL_CHAR) :
    HoldsName (store (buf + BitVec.ofNat 32 l.length) NULL_CHAR u).2 buf l := by
  intro j hj
  rcases hj.eq_or_lt with rfl | hlt
  · rw [List.getD_eq_getElem?_getD, List.getElem?_eq_none le_rfl, Option.getD_none]
    exact Function.update_self _ _ _
  · rw [← hchars j hlt]
    refine Function.update_of_ne (fun heq => ?_) _ _
    have hij := hbuf.offset_inj (by omega) hlen heq
    omega

/-- A round on line `l`, with `text` printed before, has ended in `p'`. -/
structure ShellSession.RoundEnds (s : ShellSession) (q : ℕ) (buf : Addr) (life : Life) (n : ℕ)
    (l text : List UInt8) (p : Process) (r : Word ⊕ ℕ) (p' : Process) : Prop where
  result : r = if l = EXIT then .inl 0#32 else .inr (n + 1)
  passes : ∃ bytes, ChangedIn buf 1024 p.user.bytes bytes ∧
    p.Passes q (text ++ if l = EXIT then [] else s.answer p.kernel life n l) bytes p'

theorem ShellSession.RoundEnds.after {life : Life} {text : List UInt8} {p₁ : Process}
    {bytes : Addr → UInt8} {r : Word ⊕ ℕ} (hp : p.Passes q text bytes p₁)
    (hchanged : ChangedIn buf 1024 p.user.bytes bytes) (h : s.RoundEnds q buf life n l [] p₁ r p') :
    s.RoundEnds q buf life n l text p r p' := by
  obtain ⟨hr, bytes', hbytes, hpass⟩ := h
  rw [hp.goes.bytes] at hbytes
  rw [s.answer_congr hp.kept.pidAvail] at hpass
  exact ⟨hr, bytes', hchanged.trans hbytes, hp.trans hpass⟩

theorem ShellSession.command_passes (hw : s.toWorld.SparesProcess q) (h : s.RunsAs q buf p)
    (hbuf : Spans buf 1024) (hl : NulFree l) (hlen : l.length ≤ KEYBOARD_BUFF_SIZE)
    (hchars : ∀ j < l.length, charAt p.user buf j = l.getD j NULL_CHAR) {life : Life}
    (hlife : l ≠ EXIT → s.child n = life.run s.fs ∧ life.Ends s.fs q) :
    Returns (s.shellCommand buf n (BitVec.ofNat 32 l.length)) p
      (s.RoundEnds q buf life n l [] p) := by
  rw [KEYBOARD_BUFF_SIZE] at hlen
  have hname := holdsName_store hbuf (by omega) hchars
  have hchanged : ChangedIn buf 1024 p.user.bytes
      (store (buf + BitVec.ofNat 32 l.length) NULL_CHAR p.user).2.bytes :=
    changedIn_update _ (by omega) NULL_CHAR
  unfold ShellSession.shellCommand
  refine (s.inMemory_passes hw h.running _).bind fun _ p₁ h₁ => ?_
  obtain ⟨-, hp₁⟩ := h₁
  generalize (store (buf + BitVec.ofNat 32 l.length) NULL_CHAR p.user).2 = u₁ at hname hchanged hp₁
  have hready₁ := h.passes hbuf hp₁ hchanged
  have hname₁ : HoldsName p₁.user buf l := hname.of_bytes hp₁.goes.bytes
  have hexit : HoldsName p₁.user (s.constant EXIT) EXIT :=
    (hready₁.holds.holds EXIT (by decide)).of_bytes rfl
  obtain ⟨d, hcmp, hzero, hcmpBytes⟩ := ece391Strcmp_spec hname₁ hexit hl (by decide) (2 ^ 32)
    (by omega)
  have hdiffer := (World.Built.inMemory? (w := s.toWorld) _).passes hw hready₁.running
    (returns_inMemory? hcmp)
  refine hdiffer.bind fun d' p₂ h₂ => ?_
  obtain ⟨⟨rfl, hgoes₂⟩, hkept₂⟩ := h₂
  rw [hcmpBytes] at hgoes₂
  have hp₂ := hp₁.quiet ⟨hgoes₂, hkept₂⟩
  rw [hp₁.goes.bytes] at hp₂
  by_cases heq : l = EXIT
  · rw [if_pos (hzero.mpr heq)]
    refine returns_pure ⟨(if_pos heq).symm, u₁.bytes, hchanged, ?_⟩
    rw [if_pos heq]
    exact hp₂
  rw [if_neg fun hd => heq (hzero.mp hd)]
  have hready₂ := h.passes hbuf hp₂ hchanged
  refine (s.inMemory_passes hw hready₂.running (load buf)).bind fun c p₃ h₃ => ?_
  obtain ⟨rfl, hp₃⟩ := h₃
  have hp₃' := hp₂.quiet hp₃
  rw [show (load buf p₂.user).2.bytes = u₁.bytes from hp₂.goes.bytes] at hp₃'
  have hname₂ : HoldsName p₂.user buf l := hname.of_bytes hp₂.goes.bytes
  rw [show (load buf p₂.user).1 = p₂.user.bytes buf from rfl]
  cases l with
  | nil =>
    rw [hname₂.empty, if_pos rfl]
    exact returns_pure ⟨(if_neg heq).symm, u₁.bytes, hchanged, hp₃'⟩
  | cons c l =>
    rw [hname₂.head, if_neg hl.head]
    have hready₃ := h.passes hbuf hp₃' hchanged
    obtain ⟨hchild, hends⟩ := hlife heq
    refine (s.execute_returns hw hready₃.running (hname.of_bytes hp₃'.goes.bytes) hl
      (by omega) hchild hends).bind fun rval p₄ h₄ => ?_
    obtain ⟨hrval, hp₄⟩ := h₄
    have hp₄' := hp₃'.quiet hp₄
    rw [hp₃'.goes.bytes] at hp₄'
    refine (s.report_passes hw (h.passes hbuf hp₄' hchanged) n rval).mono fun r p₅ h₅ => ?_
    obtain ⟨rfl, hp₅⟩ := h₅
    have hp₅' := hp₄'.quiet hp₅
    rw [hp₄'.goes.bytes] at hp₅'
    refine ⟨(if_neg heq).symm, u₁.bytes, hchanged, ?_⟩
    have hanswer : s.answer p.kernel life n (c :: l) =
        if rval = FAILURE then NO_SUCH_COMMAND else statusReport rval := by
      rw [hrval, launches_congr s.fs (s.residue n) (c :: l) hp₃'.kept.pidAvail, ShellSession.answer,
        if_neg (List.cons_ne_nil c l)]
      cases p.kernel.launches s.fs (s.residue n) (c :: l) with
      | false => rfl
      | true => exact (if_neg life.status_ne).symm
    rw [if_neg heq, hanswer]
    exact hp₅'

theorem stripped_starts (l : List UInt8) : stripped l <+: l := by
  unfold stripped
  split_ifs
  · exact l.dropLast_prefix
  · exact List.prefix_rfl

theorem stripped_length {l : List UInt8} (h : l ≠ []) :
    (stripped l).length = if l.getD (l.length - 1) NULL_CHAR = NEW_LINE then l.length - 1
      else l.length := by
  have hlast : l.getLast? = some (l.getD (l.length - 1) NULL_CHAR) := by
    have hpos := List.length_pos_iff.mpr h
    rw [List.getLast?_eq_getElem?, List.getD_eq_getElem?_getD,
      List.getElem?_eq_getElem (by omega), Option.getD_some]
  rw [stripped, hlast]
  by_cases hc : l.getD (l.length - 1) NULL_CHAR = NEW_LINE
  · rw [if_pos (congrArg some hc), if_pos hc, List.length_dropLast]
  · rw [if_neg fun hs => hc (Option.some.inj hs), if_neg hc]

theorem charAt_stripped {u : UserMem} (hlen : l.length ≤ 2 ^ 32) {j : ℕ}
    (hj : j < (stripped l).length) :
    charAt (storeBytes buf l u).2 buf j = (stripped l).getD j NULL_CHAR := by
  have hlt := hj.trans_le (stripped_starts l).length_le
  rw [List.getD_eq_getElem?_getD, List.getElem?_eq_getElem hj, Option.getD_some,
    (stripped_starts l).getElem hj]
  exact bytes_storeBytes u buf l hlen j hlt

theorem ShellSession.round_spares (hw : s.toWorld.SparesProcess q) (n : ℕ) :
    (s.round n).SparesProcess q :=
  ⟨⟨hw.sparesFds.fds, hw.sparesFds.args⟩, hw.kept⟩

/-- A round once the line in the terminal's buffer, `L`, has been read. -/
theorem ShellSession.stripped_passes (hw : s.toWorld.SparesProcess q) (h : s.RunsAs q buf p)
    (hbuf : Spans buf 1024) {L : List UInt8} (hnul : NulFree L) (hlen : L.length ≤ KEYBOARD_BUFF_SIZE)
    {u : UserMem} (hbytes : p.user.bytes = (storeBytes buf L u).2.bytes) {life : Life}
    (hlife : stripped L ≠ EXIT → s.child n = life.run s.fs ∧ life.Ends s.fs q) :
    Returns (s.shellCommand buf n (BitVec.ofNat 32 (stripped L).length)) p
      (s.RoundEnds q buf life n (stripped L) [] p) := by
  have hstarts := stripped_starts L
  rw [KEYBOARD_BUFF_SIZE] at hlen
  refine s.command_passes hw h hbuf (fun hmem => hnul (hstarts.subset hmem))
    (hstarts.length_le.trans hlen) (fun j hj => ?_) hlife
  rw [charAt, hbytes]
  exact charAt_stripped (by omega) hj

theorem ShellSession.round_passes (hw : s.toWorld.SparesProcess q) (h : s.RunsAs q buf p)
    (hbuf : Spans buf 1024) (life : Life)
    (hlife : s.line n ≠ EXIT → s.child n = life.run s.fs ∧ life.Ends s.fs q) :
    Returns (s.shellRound buf n) p (s.RoundEnds q buf life n (s.line n) PROMPT p) := by
  unfold ShellSession.shellRound
  refine (s.complain_passes hw h (by decide) ()).bind fun _ p₁ h₁ => ?_
  obtain ⟨-, hp₁⟩ := h₁
  have hready₁ := h.passes hbuf hp₁ (.refl _ _ _)
  have hspares := s.round_spares hw n
  have hread := (World.Built.read (w := s.round n) 0#32 buf 1023#32).passes hspares hready₁.running
    (World.read_line_returns hspares.sparesFds hready₁.stdin (hbuf.inWindow (by decide)) (by decide))
  refine hread.bind fun cnt p₂ h₂ => ?_
  obtain ⟨⟨hcnt, hgoes₂⟩, hkept₂⟩ := h₂
  change cnt = BitVec.ofNat 32 (bufferedLine (s.typed n)).length at hcnt
  change p₁.Goes [] p₁.kernel.fds (storeBytes buf (bufferedLine (s.typed n)) p₁.user).2.bytes p₂
    at hgoes₂
  have hlen : (bufferedLine (s.typed n)).length ≤ KEYBOARD_BUFF_SIZE := fieldString_length_le _ _
  have hnul : NulFree (bufferedLine (s.typed n)) := fieldString_nulFree _ _
  unfold ShellSession.line at hlife ⊢
  generalize bufferedLine (s.typed n) = L at hcnt hgoes₂ hlen hnul hlife
  have hsmall : L.length ≤ 128 := hlen
  have hchanged : ChangedIn buf 1024 p.user.bytes (storeBytes buf L p₁.user).2.bytes := by
    rw [← hp₁.goes.bytes]
    exact changedIn_storeBytes (by omega)
  have hp₂ := hp₁.trans ⟨hgoes₂, hkept₂⟩
  rw [List.append_nil] at hp₂
  have hready₂ := h.passes hbuf hp₂ hchanged
  have hint : cnt.toInt = L.length := by
    rw [hcnt, BitVec.toInt_eq_toNat_of_lt (by rw [BitVec.toNat_ofNat]; omega), BitVec.toNat_ofNat]
    omega
  have hfailed : cnt ≠ -1#32 := fun hc => by
    rw [hc, show (-1#32 : Word).toInt = -1 from rfl] at hint
    omega
  rw [if_neg hfailed]
  by_cases hempty : L = []
  · rw [if_neg (by rw [hint, hempty]; decide)]
    have hnone : cnt = BitVec.ofNat 32 (stripped L).length := by
      rw [hcnt, hempty]
      rfl
    rw [hnone]
    exact (s.stripped_passes hw hready₂ hbuf hnul hlen hp₂.goes.bytes hlife).mono
      fun _ _ => .after hp₂ hchanged
  · have hpos := List.length_pos_iff.mpr hempty
    rw [if_pos (by omega)]
    refine (s.inMemory_passes hw hready₂.running _).bind fun c p₃ h₃ => ?_
    obtain ⟨hc, hp₃⟩ := h₃
    have hlast : cnt - 1#32 = BitVec.ofNat 32 (L.length - 1) := by
      rw [hcnt]
      bv_omega
    have hchar : c = L.getD (L.length - 1) NULL_CHAR := by
      rw [hc, hlast]
      change p₂.user.bytes (buf + BitVec.ofNat 32 (L.length - 1)) = _
      rw [hp₂.goes.bytes, List.getD_eq_getElem?_getD, List.getElem?_eq_getElem (by omega),
        Option.getD_some]
      exact bytes_storeBytes p₁.user buf L (by omega) _ (by omega)
    have hleft : (if c = NEW_LINE then cnt - 1#32 else cnt) =
        BitVec.ofNat 32 (stripped L).length := by
      rw [stripped_length hempty, hchar, hlast, hcnt]
      split_ifs
      · rfl
      · rfl
    have hp₃' := hp₂.trans hp₃
    rw [List.append_nil, show (load (buf + (cnt - 1#32)) p₂.user).2.bytes = p₂.user.bytes from rfl,
      hp₂.goes.bytes] at hp₃'
    rw [hleft]
    exact (s.stripped_passes hw (h.passes hbuf hp₃' hchanged) hbuf hnul hlen hp₃'.goes.bytes
      hlife).mono fun _ _ => .after hp₃' hchanged

/-- What the shell has printed when round `n` begins. -/
def ShellSession.printed (s : ShellSession) (k : Kernel) (lives : ℕ → Life) (n : ℕ) : List UInt8 :=
  STARTING_SHELL ++ (List.range n).flatMap fun i => PROMPT ++ s.answer k (lives i) i (s.line i)

theorem ShellSession.printed_succ (k : Kernel) (lives : ℕ → Life) (n : ℕ) : s.printed k lives (n + 1) =
    s.printed k lives n ++ (PROMPT ++ s.answer k (lives n) n (s.line n)) := by
  rw [ShellSession.printed, ShellSession.printed, List.range_succ, List.flatMap_append, List.append_assoc,
    List.flatMap_singleton]

/-- The shell is about to begin round `n`. -/
structure ShellSession.Begins (s : ShellSession) (q : ℕ) (buf : Addr) (lives : ℕ → Life) (p : Process)
    (n : ℕ) (p' : Process) : Prop where
  ready : s.RunsAs q buf p'
  passes : p.Passes q (s.printed p.kernel lives n) p'.user.bytes p'

theorem ShellSession.Begins.round {lives : ℕ → Life} {p'' : Process} {r : Word ⊕ ℕ}
    (h : s.Begins q buf lives p n p') (hbuf : Spans buf 1024) (hline : s.line n ≠ EXIT)
    (hround : s.RoundEnds q buf (lives n) n (s.line n) PROMPT p' r p'') :
    r = .inr (n + 1) ∧ s.Begins q buf lives p (n + 1) p'' := by
  obtain ⟨hr, bytes, hchanged, hpass⟩ := hround
  rw [if_neg hline] at hr
  rw [if_neg hline, s.answer_congr h.passes.kept.pidAvail] at hpass
  have hall := h.passes.trans hpass
  rw [← s.printed_succ, ← hpass.goes.bytes] at hall
  exact ⟨hr, h.ready.passes hbuf hpass hchanged, hall⟩

theorem ShellSession.Begins.exit {lives : ℕ → Life} {life : Life} {p'' : Process} {r : Word ⊕ ℕ}
    (h : s.Begins q buf lives p n p') (hline : s.line n = EXIT)
    (hround : s.RoundEnds q buf life n (s.line n) PROMPT p' r p'') :
    r = .inl 0#32 ∧ ∃ bytes, p.Passes q (s.printed p.kernel lives n ++ PROMPT) bytes p'' := by
  obtain ⟨hr, bytes, -, hpass⟩ := hround
  rw [if_pos hline] at hr
  rw [if_pos hline, List.append_nil] at hpass
  exact ⟨hr, bytes, h.passes.trans hpass⟩

/-- Whatever lines are typed up to `exit`, and whatever the programs that they start do and
start themselves before they end, the shell ends with status 0. It has prompted for every
line and has said of each what became of it, and its descriptors, its arguments, its
kernel stack, its page directory and the pids in use are what they were. -/
theorem shell_runs (s : ShellSession) (q : ℕ) (hw : s.toWorld.SparesProcess q) (lives : ℕ → Life)
    (m : ℕ) (hlives : ∀ n < m, s.child n = (lives n).run s.fs ∧ (lives n).Ends s.fs q)
    (hlines : ∀ n < m, s.line n ≠ EXIT) (hexit : s.line m = EXIT) (buf : Addr)
    (hbuf : Spans buf 1024) (p : Process) (hp : s.RunsAs q buf p) (fuel : ℕ) (hfuel : m < fuel) :
    Returns (s.shellMain buf fuel) p fun ret p' => ret = 0#32 ∧
      p'.shown = p.shown ++ (s.printed p.kernel lives m ++ PROMPT) ∧
      p'.kernel.fds = p.kernel.fds ∧ p'.kernel.currentPcb.args = p.kernel.currentPcb.args ∧
      Kept p.kernel q p'.kernel := by
  unfold ShellSession.shellMain
  refine (s.complain_passes hw hp (by decide) ()).bind fun _ p₀ h₀ => ?_
  obtain ⟨-, hp₀⟩ := h₀
  have hstart : s.Begins q buf lives p 0 p₀ := by
    refine ⟨hp.passes hbuf hp₀ (.refl _ _ _), ?_⟩
    rw [ShellSession.printed, List.range_zero, List.flatMap_nil, List.append_nil, hp₀.goes.bytes]
    exact hp₀
  -- the rounds that are left bound the loop
  refine returns_loop (fun j n p' => j + n = m ∧ s.Begins q buf lives p n p') ?_ hfuel
    ⟨Nat.add_zero m, hstart⟩
  rintro j n p' ⟨hjn, hreach⟩
  refine (s.round_passes hw hreach.ready hbuf (lives n) fun hne => ?_).mono
    fun r p'' hround => ?_
  · refine hlives n (lt_of_le_of_ne (by omega) ?_)
    rintro rfl
    exact hne hexit
  rcases Nat.eq_zero_or_pos j with rfl | hpos
  · obtain rfl : n = m := by omega
    obtain ⟨rfl, bytes, hend⟩ := hreach.exit hexit hround
    refine ⟨fun a ha => ?_, fun b hb => absurd hb Sum.inl_ne_inr⟩
    obtain rfl := Sum.inl.inj ha
    exact ⟨rfl, hend.goes.shown, hend.goes.fds, hend.goes.args, hend.kept⟩
  · obtain ⟨rfl, hnext⟩ := hreach.round hbuf (hlines n (by omega)) hround
    refine ⟨fun a ha => absurd ha Sum.inr_ne_inl, fun b hb => ?_⟩
    obtain rfl := Sum.inr.inj hb
    exact ⟨j - 1, by omega, by omega, hnext⟩

/-- The first shell, in whose terminal `shell`, `x` and `exit` are typed, and whose programs
end with status 5. -/
def shellSession : ShellSession where
  fs := shellFs
  constant text := 0x8050000#32 + BitVec.ofNat 32 (64 * SHELL_TEXTS.idxOf text)
  before _ k := k
  stdin _ _ := NULL_CHAR
  typed n i := ([SHELL ++ [NEW_LINE], [120, NEW_LINE], EXIT ++ [NEW_LINE]].getD n []).getD i NULL_CHAR
  residue _ := zeroResidue
  child _ := (Life.ends (.halt zeroResidue 5)).run shellFs

def shellProcess : Process where
  kernel := shellKernel
  user := ⟨fun a => (SHELL_TEXTS.getD ((a - 0x8050000#32).toNat / 64) []).getD
    ((a - 0x8050000#32).toNat % 64) NULL_CHAR, []⟩
  calls := 0
  shown := []

theorem shellSession_holds :
    shellSession.HoldsTexts SHELL_TEXTS 0x8051000#32 1024 shellProcess.user.bytes := by
  have hends : ∀ t ∈ SHELL_TEXTS, 0x8050000 ≤ (shellSession.constant t).toNat ∧
      (shellSession.constant t).toNat + (t.length + 1) ≤ 0x8051000 := by decide
  have hcells : ∀ t ∈ SHELL_TEXTS, ∀ j ≤ t.length,
      shellProcess.user.bytes (shellSession.constant t + BitVec.ofNat 32 j) = t.getD j NULL_CHAR := by
    decide
  refine ⟨fun t ht => ?_, fun t ht => ?_, fun t ht => hcells t ht⟩
  · obtain ⟨hlo, hhi⟩ := hends t ht
    exact spans_docs hlo (by omega)
  · exact Or.inl (hends t ht).2

theorem shellProcess_ready : shellSession.RunsAs 0 0x8051000#32 shellProcess where
  running := shellKernel_starts.running rfl
  stdin := ⟨by decide, by decide, by decide⟩
  stdout := ⟨by decide, by decide, by decide⟩
  holds := shellSession_holds

theorem shell_runs_typed :
    Returns (shellSession.shellMain 0x8051000#32 10) shellProcess fun ret p' => ret = 0#32 ∧
      p'.shown = STARTING_SHELL ++ PROMPT ++ TERMINATED_ABNORMALLY ++ PROMPT ++ NO_SUCH_COMMAND ++
        PROMPT := by
  have hlines : shellSession.line 0 = SHELL ∧ shellSession.line 1 = [120] ∧
      shellSession.line 2 = EXIT := by decide
  have hprinted : shellSession.printed shellKernel (fun _ => .ends (.halt zeroResidue 5)) 2 =
      STARTING_SHELL ++ PROMPT ++ TERMINATED_ABNORMALLY ++ PROMPT ++ NO_SUCH_COMMAND := by
    decide +kernel
  refine (shell_runs shellSession 0 ⟨⟨fun _ _ => rfl, fun _ _ => rfl⟩, fun _ _ _ => .refl _ 0⟩
    (fun _ => .ends (.halt zeroResidue 5)) 2
    (fun _ _ => ⟨rfl, fun _ _ _ _ => Option.some_ne_none _⟩) (fun n hn => ?_) hlines.2.2
    0x8051000#32 (spans_docs (by decide) (by decide)) shellProcess shellProcess_ready 10
    (by decide)).mono fun ret p' h => ⟨h.1, ?_⟩
  · obtain rfl | rfl : n = 0 ∨ n = 1 := by omega
    · rw [hlines.1]
      decide
    · rw [hlines.2.1]
      decide
  · rw [h.2.1, show shellProcess.kernel = shellKernel from rfl, hprinted]
    rfl

end Shell

end SnoopDos
