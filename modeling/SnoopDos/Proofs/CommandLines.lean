import Mathlib.Data.List.TakeWhile
import SnoopDos.Proofs.Buffers
import SnoopDos.Spec.Emulation

/-! The two parsers of a command line, that of the kernel and that of the emulation
layer: which file name they look up, and which arguments reach the program. -/

namespace SnoopDos

open Kernel UserMem

/-- A program name or an argument. -/
structure IsWord (w : List UInt8) : Prop where
  nonempty : w ≠ []
  nulFree : NulFree w
  chars : ∀ c ∈ w, inWord c = true

instance (w : List UInt8) : Decidable (IsWord w) :=
  decidable_of_iff (w ≠ [] ∧ NulFree w ∧ w.all inWord = true)
    ⟨fun ⟨h, hnul, hc⟩ => ⟨h, hnul, List.all_eq_true.mp hc⟩,
      fun ⟨h, hnul, hc⟩ => ⟨h, hnul, List.all_eq_true.mpr hc⟩⟩

/-- The name `w`, `n` spaces and the argument `a`. -/
def commandLine (w : List UInt8) (n : ℕ) (a : List UInt8) : List UInt8 :=
  w ++ (List.replicate n EMPTY_SPACE ++ a)

/-- The name that `internal_execute` looks up. -/
def commandName (command : ℕ → Id UInt8) : List UInt8 :=
  (splitCommand (Id.run (strcpy command MAX_EXECUTE_ARG_SIZE 0))).1

/-- In the child `k'`, and in a program that the emulation layer starts, the command `w`,
`n` spaces and `a` has become the name `w` and the argument `a`. -/
structure SplitAlike (k' : Kernel) (w : List UInt8) (n : ℕ) (a : List UInt8) (buf : Addr)
    (u : UserMem) : Prop where
  kernelName : commandName (ofList (commandLine w n a)) = w
  kernelReturns : (k'.getargs buf 128#32 u).1 = some SUCCESS
  kernelArgs : HoldsName (k'.getargs buf 128#32 u).2 buf a
  emulated : ∃ argv, ece391Execute (commandLine w n a) = some (CURRENT_DIR ++ w, argv) ∧
    (ece391Getargs argv buf 128#32 u).1 = SUCCESS ∧
    HoldsName (ece391Getargs argv buf 128#32 u).2 buf a

section Words

variable {w a : List UInt8} {n : ℕ}

theorem IsWord.ne_space (h : IsWord w) : ∀ c ∈ w, c ≠ EMPTY_SPACE := fun c hc heq => by
  have hin := h.chars c hc
  rw [heq] at hin
  exact absurd hin (by decide)

theorem IsWord.ne_newLine (h : IsWord w) : ∀ c ∈ w, c ≠ NEW_LINE := fun c hc heq => by
  have hin := h.chars c hc
  rw [heq] at hin
  exact absurd hin (by decide)

theorem nulFree_spaces (n : ℕ) (ha : NulFree a) : NulFree (List.replicate n EMPTY_SPACE ++ a) := by
  intro hmem
  rcases List.mem_append.mp hmem with hspace | hword
  · exact absurd (List.eq_of_mem_replicate hspace) (by decide)
  · exact ha hword

theorem nulFree_commandLine (hw : IsWord w) (ha : IsWord a) : NulFree (commandLine w n a) := by
  intro hmem
  rcases List.mem_append.mp hmem with hname | hrest
  · exact hw.nulFree hname
  · exact nulFree_spaces n ha.nulFree hrest

theorem length_commandLine : (commandLine w n a).length = w.length + n + a.length := by
  rw [commandLine, List.length_append, List.length_append, List.length_replicate, add_assoc]

theorem commandLine_succ :
    commandLine w (n + 1) a = w ++ EMPTY_SPACE :: (List.replicate n EMPTY_SPACE ++ a) := by
  rw [commandLine, List.replicate_succ, List.cons_append]

end Words

section Kernel

/-- The loop of `internal_execute` ends the name at the first space. -/
theorem splitCommand_space {w : List UInt8} (hw : ∀ c ∈ w, c ≠ EMPTY_SPACE) (rest : List UInt8) :
    splitCommand (w ++ EMPTY_SPACE :: rest) = (w, some rest) := by
  induction w with
  | nil => rfl
  | cons c w ih =>
    rw [List.cons_append, splitCommand, if_neg (hw c List.mem_cons_self),
      ih fun d hd => hw d (List.mem_cons_of_mem c hd)]
    rfl

variable {w a : List UInt8} {n : ℕ}

theorem strcpy_commandLine (hw : IsWord w) (ha : IsWord a) (hlen : w.length + n + a.length < 128) :
    Id.run (strcpy (ofList (commandLine w n a)) MAX_EXECUTE_ARG_SIZE 0) = commandLine w n a := by
  rw [strcpy_ofList (nulFree_commandLine hw ha) _ _ (Nat.zero_le _), List.drop_zero]
  rw [length_commandLine]
  exact hlen

theorem splitCommand_commandLine (hw : IsWord w) (ha : IsWord a)
    (hlen : w.length + (n + 1) + a.length < 128) :
    splitCommand (Id.run (strcpy (ofList (commandLine w (n + 1) a)) MAX_EXECUTE_ARG_SIZE 0)) =
      (w, some (List.replicate n EMPTY_SPACE ++ a)) := by
  rw [strcpy_commandLine hw ha hlen, commandLine_succ, splitCommand_space hw.ne_space]

end Kernel

section Emulation

variable {w a : List UInt8} {n : ℕ}

theorem takeWhile_inWord (hw : IsWord w) (rest : List UInt8) :
    (w ++ EMPTY_SPACE :: rest).takeWhile inWord = w := by
  rw [List.takeWhile_append_of_pos hw.chars, List.takeWhile_cons_of_neg (by decide),
    List.append_nil]

theorem dropWhile_inWord (hw : IsWord w) (rest : List UInt8) :
    (w ++ EMPTY_SPACE :: rest).dropWhile inWord = EMPTY_SPACE :: rest := by
  rw [List.dropWhile_append_of_pos hw.chars, List.dropWhile_cons_of_neg (by decide)]

theorem parseArguments_nil (fuel : ℕ) : parseArguments fuel [] = [] := by
  cases fuel with
  | zero => rfl
  | succ fuel => rfl

theorem parseArguments_spaces (ha : IsWord a) (fuel : ℕ) :
    parseArguments (fuel + 1) (List.replicate n EMPTY_SPACE ++ a) = [a] := by
  have hskip : (List.replicate n EMPTY_SPACE ++ a).dropWhile (· = EMPTY_SPACE) = a := by
    rw [List.dropWhile_append_of_pos fun c hc => by simpa using List.eq_of_mem_replicate hc]
    obtain ⟨c, rest, rfl⟩ := List.exists_cons_of_ne_nil ha.nonempty
    exact List.dropWhile_cons_of_neg (by simpa using ha.ne_space c List.mem_cons_self)
  have htake : a.takeWhile inWord = a := List.takeWhile_eq_self_iff.mpr ha.chars
  have hdrop : a.dropWhile inWord = [] := List.dropWhile_eq_nil_iff.mpr ha.chars
  rw [parseArguments, hskip]
  obtain ⟨c, rest, rfl⟩ := List.exists_cons_of_ne_nil ha.nonempty
  simp only [if_neg (ha.ne_newLine c List.mem_cons_self), htake, hdrop, List.drop_nil,
    parseArguments_nil]

theorem ece391Execute_commandLine (hw : IsWord w) (ha : IsWord a)
    (hlen : w.length + (n + 1) + a.length < 128) :
    ece391Execute (commandLine w (n + 1) a) = some (CURRENT_DIR ++ w, [CURRENT_DIR ++ w, a]) := by
  have hshort : ¬ 1023 < (commandLine w (n + 1) a).length := by
    rw [length_commandLine]
    omega
  obtain ⟨fuel, hfuel⟩ : ∃ fuel, (commandLine w (n + 1) a).length = fuel + 1 :=
    ⟨w.length + n + a.length, by rw [length_commandLine]; omega⟩
  rw [ece391Execute, if_neg hshort, hfuel, commandLine_succ]
  simp only [takeWhile_inWord hw, dropWhile_inWord hw, List.drop_one, List.tail_cons,
    parseArguments_spaces ha]

theorem getargsLoop_one (buf : Addr) {nbytes : ℤ} (hfits : ¬ nbytes < a.length) (u : UserMem) :
    getargsLoop [a] buf nbytes u = (some (buf + BitVec.ofNat 32 a.length, nbytes - a.length),
      (storeBytes buf (a ++ [NULL_CHAR]) u).2) := by
  rw [getargsLoop]
  simp only [if_neg hfits]
  rfl

theorem ece391Getargs_one (path : List UInt8) (hlen : a.length < 128) (buf : Addr) (u : UserMem) :
    (ece391Getargs [path, a] buf 128#32 u).1 = SUCCESS ∧
      HoldsName (ece391Getargs [path, a] buf 128#32 u).2 buf a := by
  have h128 : (128#32).toInt = 128 := by decide
  have hrun : ece391Getargs [path, a] buf 128#32 u = (SUCCESS,
      (store (buf + BitVec.ofNat 32 a.length) NULL_CHAR
        (storeBytes buf (a ++ [NULL_CHAR]) u).2).2) := by
    rw [ece391Getargs, bind_run, h128, List.drop_one, List.tail_cons,
      getargsLoop_one buf (by omega)]
    simp only [if_neg (by omega : ¬ (128 : ℤ) - a.length < 1)]
    rfl
  rw [hrun]
  refine ⟨rfl, fun j hj => ?_⟩
  rw [charAt_store _ _ (by omega) (by omega)]
  split_ifs with heq
  · rw [heq, List.getD_eq_getElem?_getD, List.getElem?_eq_none le_rfl, Option.getD_none]
  · have hlt : j < a.length := by omega
    have hbyte := bytes_storeBytes u buf (a ++ [NULL_CHAR]) (by simp; omega) j (by simp; omega)
    rw [charAt, hbyte, List.getElem_append_left hlt, List.getD_eq_getElem?_getD,
      List.getElem?_eq_getElem hlt, Option.getD_some]

end Emulation

section Agreement

variable {k k' : Kernel} {fs : Fs} {residue : Residue} {flags entryPoint : Word} {w a : List UInt8}
  {n : ℕ} {buf : Addr}

/-- In the child `getargs` delivers the spaces after the first one with the argument. -/
theorem getargs_commandLine (hw : IsWord w) (ha : IsWord a)
    (hlen : w.length + (n + 1) + a.length < 128) (hin : inWindow buf)
    (hexec : Id.run (k.internalExecute fs residue (ofList (commandLine w (n + 1) a)) flags) =
      some (.started k' entryPoint)) (u : UserMem) :
    (k'.getargs buf 128#32 u).1 = some SUCCESS ∧
      HoldsName (k'.getargs buf 128#32 u).2 buf (List.replicate n EMPTY_SPACE ++ a) := by
  have hargs := k.internalExecute_args flags fs residue hexec
  rw [splitCommand_commandLine hw ha hlen] at hargs
  have hspaces : (List.replicate n EMPTY_SPACE ++ a).length = n + a.length := by
    rw [List.length_append, List.length_replicate]
  have h128 : (128#32).toInt = 128 := by decide
  exact getargs_fits hargs (nulFree_spaces n ha.nulFree) hin (by rw [hspaces, h128]; omega) u

theorem SplitAlike.one_space {u : UserMem} (h : SplitAlike k' w (n + 1) a buf u) (hw : IsWord w)
    (ha : IsWord a) (hlen : w.length + (n + 1) + a.length < 128) (hin : inWindow buf)
    (hexec : Id.run (k.internalExecute fs residue (ofList (commandLine w (n + 1) a)) flags) =
      some (.started k' entryPoint)) : n = 0 := by
  have hspaces : (List.replicate n EMPTY_SPACE ++ a).length = n + a.length := by
    rw [List.length_append, List.length_replicate]
  have hgot := (getargs_commandLine hw ha hlen hin hexec u).2.fieldString (n := 128)
    (nulFree_spaces n ha.nulFree) (by omega)
  rw [h.kernelArgs.fieldString ha.nulFree (by omega)] at hgot
  have hlength := congrArg List.length hgot
  omega

end Agreement

/-- The kernel and the emulation layer split a command alike exactly when one space
separates the argument from the name. -/
theorem commands_split_alike (k : Kernel) (fs : Fs) (residue : Residue) (flags : Word) (k' : Kernel)
    (entryPoint : Word) (w a : List UInt8) (n : ℕ) (buf : Addr) (u : UserMem) (hw : IsWord w)
    (ha : IsWord a) (hn : 1 ≤ n) (hlen : w.length + n + a.length < 128) (hin : inWindow buf)
    (hexec : Id.run (k.internalExecute fs residue (ofList (commandLine w n a)) flags) =
      some (.started k' entryPoint)) :
    SplitAlike k' w n a buf u ↔ n = 1 := by
  obtain ⟨m, rfl⟩ := Nat.exists_eq_succ_of_ne_zero (Nat.one_le_iff_ne_zero.mp hn)
  constructor
  · intro h
    rw [h.one_space hw ha hlen hin hexec]
  · intro hone
    obtain rfl : m = 0 := by omega
    obtain ⟨hdone, hholds⟩ := getargs_commandLine hw ha hlen hin hexec u
    obtain ⟨hreturns, hdelivered⟩ := ece391Getargs_one (a := a) (CURRENT_DIR ++ w) (by omega) buf u
    exact ⟨congrArg Prod.fst (splitCommand_commandLine hw ha hlen), hdone, hholds, _,
      ece391Execute_commandLine hw ha hlen, hreturns, hdelivered⟩

theorem commands_split_alike_shell : ∃ k' entryPoint,
    Id.run (shellKernel.internalExecute shellFs zeroResidue (ofList (commandLine SHELL 1 [97]))
      USER_EXECUTE) = some (.started k' entryPoint) ∧
    SplitAlike k' SHELL 1 [97] 0x8048000#32 ⟨fun _ => 0, []⟩ := by
  obtain ⟨k', entryPoint, hexec⟩ : ∃ k' entryPoint, Id.run (shellKernel.internalExecute shellFs
      zeroResidue (ofList (commandLine SHELL 1 [97])) USER_EXECUTE) =
        some (.started k' entryPoint) := ⟨_, _, rfl⟩
  exact ⟨k', entryPoint, hexec, (commands_split_alike shellKernel shellFs zeroResidue USER_EXECUTE k'
    entryPoint SHELL [97] 1 0x8048000#32 ⟨fun _ => 0, []⟩ (by decide) (by decide) (by decide)
    (by decide) (by decide) hexec).mpr rfl⟩

/-- After two spaces the kernel delivers a space and then the argument. -/
theorem two_spaces_differ : ∃ k' entryPoint,
    Id.run (shellKernel.internalExecute shellFs zeroResidue (ofList (commandLine SHELL 2 [97]))
      USER_EXECUTE) = some (.started k' entryPoint) ∧
    ¬ SplitAlike k' SHELL 2 [97] 0x8048000#32 ⟨fun _ => 0, []⟩ := by
  obtain ⟨k', entryPoint, hexec⟩ : ∃ k' entryPoint, Id.run (shellKernel.internalExecute shellFs
      zeroResidue (ofList (commandLine SHELL 2 [97])) USER_EXECUTE) =
        some (.started k' entryPoint) := ⟨_, _, rfl⟩
  exact ⟨k', entryPoint, hexec, fun h => absurd
    (h.one_space (n := 1) (by decide) (by decide) (by decide) (by decide) hexec) (by decide)⟩

end SnoopDos
