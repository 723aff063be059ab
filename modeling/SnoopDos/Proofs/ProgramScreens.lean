import SnoopDos.Proofs.CallFrames
import SnoopDos.Proofs.FilePrograms

/-! What a program has sent to its terminal is what its console shows. Between its
calls the system may do anything that leaves that one console alone: serve other
processes, write to other terminals, switch the visible one. -/

namespace SnoopDos

open Kernel UserMem Command

/-- Programs that consist of calls and of code of their own. -/
inductive World.Built (w : World) : {α : Type} → Command Process α → Prop
  | pure {α : Type} (a : α) : w.Built (Pure.pure a : Command Process α)
  | bind {α β : Type} {c : Command Process α} {f : α → Command Process β} (hc : w.Built c)
      (hf : ∀ a, w.Built (f a)) : w.Built (c >>= f)
  | loop {α β : Type} {body : β → Command Process (α ⊕ β)} (hbody : ∀ b, w.Built (body b))
      (fuel : ℕ) (b : β) : w.Built (Command.loop body fuel b)
  | inMemory {α : Type} (x : User α) : w.Built (inMemory x)
  | inMemory? {α : Type} (x : User (Option α)) : w.Built (inMemory? x)
  | read (fd : Word) (buf : Addr) (nbytes : Word) : w.Built (w.ece391Read fd buf nbytes)
  | write (fd : Word) (buf : Addr) (nbytes : Word) : w.Built (w.ece391Write fd buf nbytes)
  | «open» (filename : Addr) : w.Built (w.ece391Open filename)
  | close (fd : Word) : w.Built (w.ece391Close fd)
  | getargs (buf : Addr) (nbytes : Word) : w.Built (w.ece391Getargs buf nbytes)

/-- The running process belongs to terminal `t`, and its screen is the page that `t` is
shown on. -/
structure Kernel.Hosts (k : Kernel) (t : ℕ) : Prop where
  lt : t < NUM_TERMINALS
  serviced : k.terminalBeingServiced = t
  shows : k.Shows (screenAddress k.terminalState t)
  onGrid : (k.logicalConsole t).OnGrid

def Console.after (con : Console) (attrib : UInt8) (text : List UInt8) : Console :=
  text.foldl (putcScreen pageBus attrib) con

/-- Terminal `t` has received `text`. -/
structure Kernel.Receives (k : Kernel) (t : ℕ) (text : List UInt8) (k' : Kernel) : Prop where
  hosts : k'.Hosts t
  currAttribute : k'.currAttribute = k.currAttribute
  console : SameConsole (k'.logicalConsole t) ((k.logicalConsole t).after k.currAttribute text)

/-- No call of the kernel has printed or moved anything. -/
structure Kernel.Unprinted (k k' : Kernel) : Prop where
  serviced : k'.terminalBeingServiced = k.terminalBeingServiced
  visible : k'.terminalState = k.terminalState
  paging : k'.paging = k.paging
  cr3 : k'.cr3 = k.cr3
  currAttribute : k'.currAttribute = k.currAttribute
  console : k'.logicalConsole = k.logicalConsole

theorem Kernel.Shown.cr3 {k k' : Kernel} (h : k.Shown k') : k'.cr3 = k.cr3 := by
  obtain ⟨_, _, _, _, _, _, _, rfl, -⟩ := h
  rfl

section Receives

variable {k k' k'' : Kernel} {t : ℕ} {text text' : List UInt8}

theorem Console.after_same (attrib : UInt8) (text : List UInt8) {con con' : Console}
    (h : SameConsole con con') (hgrid : con.OnGrid) :
    SameConsole (con.after attrib text) (con'.after attrib text) := by
  induction text generalizing con con' with
  | nil => exact h
  | cons c text ih =>
    obtain ⟨hmem, hx, hy⟩ := putcScreen_alike pageBus_simulates attrib
      ⟨h.mem, h.screenX, h.screenY⟩ hgrid c
    exact ih ⟨hmem, hx, hy⟩ (putcScreen_onGrid pageBus attrib hgrid c)

theorem Kernel.Receives.refl (h : k.Hosts t) : k.Receives t [] k :=
  ⟨h, rfl, SameConsole.refl _⟩

theorem Kernel.Receives.trans (h : k.Receives t text k') (h' : k'.Receives t text' k'') :
    k.Receives t (text ++ text') k'' := by
  refine ⟨h'.hosts, h'.currAttribute.trans h.currAttribute, h'.console.trans ?_⟩
  rw [h.currAttribute, Console.after, Console.after, List.foldl_append]
  exact Console.after_same _ _ h.console h.hosts.onGrid

/-- Whatever page is shown to a process is shown as long as its directory is the same. -/
theorem Kernel.Shows.congr {base : ℕ} (h : k.Shows base) (hpaging : k'.paging = k.paging)
    (hcr3 : k'.cr3 = k.cr3) : k'.Shows base := by
  unfold Kernel.Shows at *
  rwa [hpaging, hcr3]

theorem Kernel.Unprinted.refl (k : Kernel) : k.Unprinted k := ⟨rfl, rfl, rfl, rfl, rfl, rfl⟩

theorem Kernel.Unprinted.trans (h : k.Unprinted k') (h' : k'.Unprinted k'') : k.Unprinted k'' :=
  ⟨h'.serviced.trans h.serviced, h'.visible.trans h.visible, h'.paging.trans h.paging,
    h'.cr3.trans h.cr3, h'.currAttribute.trans h.currAttribute, h'.console.trans h.console⟩

end Receives

section Calls

variable {k k' : Kernel} {fd : Word} {buf : Addr} {nbytes ret : Word} {u : UserMem}

end Calls

section Programs

variable {w : World} {t : ℕ}

/-- What a program has sent to its terminal since `p`, the console of `t` has received. -/
def Process.Prints (t : ℕ) (p p' : Process) : Prop :=
  p.kernel.Hosts t → ∃ text, p'.shown = p.shown ++ text ∧ p.kernel.Receives t text p'.kernel

theorem Process.Prints.trans {p p' p'' : Process} (h : p.Prints t p') (h' : p'.Prints t p'') :
    p.Prints t p'' := by
  intro hp
  obtain ⟨text, hshown, hrec⟩ := h hp
  obtain ⟨text', hshown', hrec'⟩ := h' hrec.hosts
  exact ⟨text ++ text', by rw [hshown', hshown, List.append_assoc], hrec.trans hrec'⟩

/-- What every call and all code in between keep, a program keeps. -/
theorem World.Built.moves_of {R : Process → Process → Prop} (hrefl : ∀ p, R p p)
    (htrans : ∀ p p' p'', R p p' → R p' p'' → R p p'') (huser : ∀ p u, R p { p with user := u })
    (hread : ∀ fd buf nbytes, Moves R (w.ece391Read fd buf nbytes))
    (hwrite : ∀ fd buf nbytes, Moves R (w.ece391Write fd buf nbytes))
    (hopen : ∀ filename, Moves R (w.ece391Open filename))
    (hclose : ∀ fd, Moves R (w.ece391Close fd))
    (hgetargs : ∀ buf nbytes, Moves R (w.ece391Getargs buf nbytes)) {α : Type}
    {c : Command Process α} (hc : w.Built c) : Moves R c := by
  induction hc with
  | pure a => exact moves_pure hrefl a
  | bind _ _ ihc ihf => exact ihc.bind htrans ihf
  | loop _ fuel b ih => exact moves_loop htrans hrefl ih fuel b
  | inMemory x =>
    intro p a p' h
    obtain ⟨-, rfl⟩ := Prod.mk.inj (Option.some.inj h)
    exact huser p _
  | inMemory? x =>
    intro p a p' h
    obtain ⟨x, -, heq⟩ := Option.map_eq_some_iff.mp h
    obtain ⟨-, rfl⟩ := Prod.mk.inj heq
    exact huser p _
  | read fd buf nbytes => exact hread fd buf nbytes
  | write fd buf nbytes => exact hwrite fd buf nbytes
  | «open» filename => exact hopen filename
  | close fd => exact hclose fd
  | getargs buf nbytes => exact hgetargs buf nbytes

theorem World.fdputs_built (w : World) (fd : Word) (s : Addr) : w.Built (w.ece391Fdputs fd s) :=
  .bind (.inMemory? _) fun _ => .bind (.write _ _ _) fun _ => .pure _

theorem World.complain_built {α : Type} (w : World) (text : List UInt8) (a : α) :
    w.Built (w.complain text a) := .bind (w.fdputs_built _ _) fun _ => .pure a

theorem World.Built.ite {α : Type} {P : Prop} [Decidable P] {c c' : Command Process α}
    (h : w.Built c) (h' : w.Built c') : w.Built (if P then c else c') := by
  split_ifs
  · exact h
  · exact h'

theorem catMain_built (w : World) (buf : Addr) (fuel : ℕ) : w.Built (w.catMain buf fuel) := by
  have hround (fd : Word) : w.Built (w.catRound fd buf) :=
    .bind (.read _ _ _) fun _ => .ite (.pure _) <| .ite (w.complain_built _ _) <|
      .bind (.write _ _ _) fun _ => .ite (.pure _) (.pure _)
  exact .bind (.getargs _ _) fun _ => .ite (w.complain_built _ _) <|
    .bind (.open _) fun fd => .ite (w.complain_built _ _) <| .loop (fun _ => hround fd) _ _

theorem lsMain_built (w : World) (buf : Addr) (fuel : ℕ) : w.Built (w.lsMain buf fuel) := by
  have hround (fd : Word) : w.Built (w.lsRound fd buf) :=
    .bind (.read _ _ _) fun _ => .ite (.pure _) <| .ite (w.complain_built _ _) <|
      .bind (.inMemory _) fun _ => .bind (.write _ _ _) fun _ => .ite (.pure _) (.pure _)
  exact .bind (.open _) fun fd => .ite (w.complain_built _ _) <| .loop (fun _ => hround fd) _ _

theorem World.doOneFile_built (w : World) (s fname data : Addr) (fuel : ℕ) :
    w.Built (w.doOneFile s fname data fuel) := by
  have hputs (a : Addr) : w.Built (w.ece391Fdputs 1#32 a) := w.fdputs_built _ _
  have hsearch (sLen lineStart lineEnd : ℕ) :
      w.Built (w.searchLine s fname data sLen lineStart lineEnd) :=
    .bind (.inMemory _) fun _ => .ite
      (.bind (hputs _) fun _ => .bind (hputs _) fun _ => .bind (hputs _) fun _ => hputs _) (.pure _)
  have hline (sLen : ℕ) (cnt : Word) (last lineStart : ℕ) :
      w.Built (w.grepLine s fname data sLen cnt last lineStart) :=
    .bind (.inMemory _) fun _ => .bind (.inMemory _) fun _ => .ite
      (.bind (.inMemory _) fun _ => .bind (.inMemory? _) fun _ => .pure _)
      (.bind (.inMemory _) fun _ => .bind (hsearch _ _ _) fun _ => .ite (.pure _) (.pure _))
  have hround (sLen : ℕ) (fd : Word) (last : ℕ) :
      w.Built (w.grepRound s fname data sLen fd fuel last) :=
    .bind (.read _ _ _) fun _ => .ite (w.complain_built _ _) <|
      .bind (.loop (hline _ _ _) _ _) fun _ => .ite (.pure _) (.pure _)
  exact .bind (.inMemory? _) fun _ => .bind (.open _) fun _ => .ite (w.complain_built _ _) <|
    .bind (.loop (hround _ _) _ _) fun _ => .ite (.pure _) <|
      .bind (.close _) fun _ => .ite (w.complain_built _ _) (.pure _)

theorem grepMain_built (w : World) (buf search data : Addr) (fuel : ℕ) :
    w.Built (w.grepMain buf search data fuel) := by
  have hentry (fd : Word) : w.Built (w.grepEntry fd buf search data fuel) :=
    .bind (.read _ _ _) fun _ => .ite (.pure _) <| .ite (w.complain_built _ _) <|
      .bind (.inMemory _) fun _ => .ite (.pure _) <| .bind (.inMemory _) fun _ =>
        .bind (w.doOneFile_built _ _ _ _) fun _ => .ite (.pure _) (.pure _)
  exact .bind (.getargs _ _) fun _ => .ite (w.complain_built _ _) <|
    .bind (.open _) fun fd => .ite (w.complain_built _ _) <| .loop (fun _ => hentry fd) _ _

end Programs

end SnoopDos
