import SnoopDos.Proofs.FormatPieces
import SnoopDos.Proofs.KeyScreens

/-! `printf_t` prints the text that its format stands for. Nothing is mapped in the upper
half of the address space, so that every string is one that `write_terminal` takes. -/

namespace SnoopDos

open Numerals PageWalk

section Pieces

variable {out : Printer} {mem : Addr → UInt8} {format : Addr} {n : ℕ}
  (residue : ℕ → ℕ → UInt8) (args : ℕ → Word) {off : ℕ} (esp : ℕ) {fuel : ℕ}

/-- The length of every string is an `int32_t`. -/
def ShortStrings (mem : Addr → UInt8) : Prop := ∀ p l, StringAt mem p l → l.length < 2 ^ 31

theorem letter_ne_hash (conv : Conversion) : conv.letter ≠ HASH := by
  cases conv <;> decide

theorem formatLoop_piece (hout : out.Sound mem format n) {a : Addr} (ha : mem a = NULL_CHAR)
    (str : Addr → List UInt8) {p : Piece} (hp : p.Valid)
    (h : Stands (fun i => mem (format + BitVec.ofNat 32 i)) off p.bytes)
    (hn : off + p.bytes.length ≤ n) (hfuel : p.bytes.length ≤ fuel) :
    ∃ text, Reaches mem format n (formatLoop out mem format residue args (fuel + 1) off esp)
        (formatLoop out mem format residue args fuel (off + p.bytes.length) (esp + p.arity)) text ∧
      (ShortStrings mem → p.Matches mem str (args esp) → text = p.text str (args esp)) := by
  cases p with
  | ordinary c =>
    have hlen : (Piece.ordinary c).bytes.length = 1 := rfl
    rw [hlen] at hn ⊢
    refine ⟨[c], ?_, fun _ _ => rfl⟩
    exact formatLoop_ordinary hout (stands_cons.mp h).1 hp.1 hp.2 (by omega)
  | directive hashes conv =>
    have hlen : (Piece.directive hashes conv).bytes.length = hashes + 2 := by simp [Piece.bytes]
    rw [hlen] at hn hfuel ⊢
    obtain ⟨text, hemits, htext⟩ := convert_emits residue args hout ha str conv
      (0 < hashes) esp
    refine ⟨text, ?_, htext⟩
    exact formatLoop_directive (letter_ne_hash conv) h (by omega) (by omega) hemits
  | unknown hashes c =>
    obtain ⟨-, hhash, hletter⟩ := hp
    have hlen : (Piece.unknown hashes c).bytes.length = hashes + 2 := by simp [Piece.bytes]
    rw [hlen] at hn hfuel ⊢
    refine ⟨[], ?_, fun _ _ => rfl⟩
    refine formatLoop_directive hhash h (by omega) (by omega) ?_
    rw [convert_unknown hletter]
    exact Emits.pure _

theorem formatLoop_pieces (hout : out.Sound mem format n) {a : Addr} (ha : mem a = NULL_CHAR)
    (str : Addr → List UInt8) (pieces : List Piece) (hvalid : ∀ p ∈ pieces, p.Valid)
    (h : Stands (fun i => mem (format + BitVec.ofNat 32 i)) off (pieces.flatMap Piece.bytes))
    (hn : off + (pieces.flatMap Piece.bytes).length ≤ n)
    (hfuel : (pieces.flatMap Piece.bytes).length < fuel) :
    ∃ fuel' esp' text, fuel ≤ fuel' + (pieces.flatMap Piece.bytes).length ∧
      Reaches mem format n (formatLoop out mem format residue args fuel off esp)
        (formatLoop out mem format residue args fuel'
          (off + (pieces.flatMap Piece.bytes).length) esp') text ∧
      (ShortStrings mem → ArgsMatch mem str args pieces esp →
        text = render str args pieces esp) := by
  induction pieces generalizing off esp fuel with
  | nil => exact ⟨fuel, esp, [], le_rfl, Reaches.refl _, fun _ _ => rfl⟩
  | cons p pieces ih =>
    obtain ⟨fuel, rfl⟩ := Nat.exists_eq_succ_of_ne_zero (by omega : fuel ≠ 0)
    have hpos : 0 < p.bytes.length := by cases p <;> exact Nat.succ_pos _
    rw [List.flatMap_cons, List.length_append] at hn hfuel ⊢
    obtain ⟨hpiece, hrest⟩ := stands_append.mp (List.flatMap_cons ▸ h)
    obtain ⟨text, hreach, htext⟩ := formatLoop_piece residue args esp hout ha str
      (hvalid p List.mem_cons_self) hpiece (by omega) (show p.bytes.length ≤ fuel by omega)
    obtain ⟨fuel', esp', text', hle, hreach', htext'⟩ := ih (esp + p.arity)
      (fun q hq => hvalid q (List.mem_cons_of_mem p hq)) hrest (by omega)
      (show (pieces.flatMap Piece.bytes).length < fuel by omega)
    refine ⟨fuel', esp', text ++ text', by omega, ?_, fun hshort hmatch => ?_⟩
    · rw [← Nat.add_assoc]
      exact hreach.trans hreach'
    · rw [htext hshort hmatch.1, htext' hshort hmatch.2]
      rfl

/-- A call on a sequence of pieces ends at the terminator, with its length. -/
theorem formatCall_emits {pieces : List Piece} (hvalid : ∀ p ∈ pieces, p.Valid)
    (h : StringAt mem format (pieces.flatMap Piece.bytes))
    (hout : out.Sound mem format (pieces.flatMap Piece.bytes).length) (str : Addr → List UInt8)
    (hfuel : (pieces.flatMap Piece.bytes).length < fuel) :
    ∃ text, Emits mem format (pieces.flatMap Piece.bytes).length
        (formatCall out mem format residue args fuel)
        (some (BitVec.ofNat 32 (pieces.flatMap Piece.bytes).length)) text ∧
      (ShortStrings mem → ArgsMatch mem str args pieces 0 → text = render str args pieces 0) := by
  have hstands := (stands_append.mp h.2).1
  obtain ⟨fuel', esp', text, hle, hreach, htext⟩ := formatLoop_pieces residue args 0
    hout h.end_eq str pieces hvalid hstands (by omega) hfuel
  obtain ⟨fuel', rfl⟩ := Nat.exists_eq_succ_of_ne_zero (by omega : fuel' ≠ 0)
  refine ⟨text, ?_, htext⟩
  rw [Nat.zero_add] at hreach
  have hloop := hreach.emits (formatLoop_end h.end_eq le_rfl)
  rw [List.append_nil] at hloop
  exact hloop.map

end Pieces

section Effects

variable {mem : Addr → UInt8} {format : Addr}

/-- All output of `printf_t` goes through `write_terminal`. -/
def FormatEvent.ToTerminal : FormatEvent → Prop
  | .putc _ => False
  | _ => True

theorem convert_toTerminal (residue : ℕ → ℕ → UInt8) (args : ℕ → Word) (c : UInt8)
    (alternate : Bool) (esp : ℕ) :
    (convert printfTPrinter mem residue args c alternate esp).All FormatEvent.ToTerminal := by
  have hnumber (buf start size) : (printfTPrinter.number buf start size).All FormatEvent.ToTerminal :=
    (Trace.all_access _ _).mpr trivial
  have hstring (s) : (printfTPrinter.string s).All FormatEvent.ToTerminal := by
    simp only [printfTPrinter]
    split
    · exact Trace.all_pure _
    · exact (Trace.all_access _ _).mpr trivial
  rw [convert, convertHex, convertUnsigned, convertSigned]
  split_ifs <;> simp only [Trace.all_bind, Trace.all_pure, and_true, hnumber, hstring]
  · exact (Trace.all_access _ _).mpr trivial
  · exact (Trace.all_access _ _).mpr trivial

theorem formatCharSwitch_toTerminal (residue : ℕ → ℕ → UInt8) (args : ℕ → Word) (fuel off : ℕ)
    (alternate : Bool) (esp : ℕ) :
    (formatCharSwitch printfTPrinter mem format residue args fuel off alternate esp).All
      FormatEvent.ToTerminal := by
  induction fuel generalizing off alternate with
  | zero => exact Trace.all_pure _
  | succ fuel ih =>
    rw [formatCharSwitch]
    refine (Trace.all_bind _ _).mpr ⟨(Trace.all_access _ _).mpr trivial, ?_⟩
    split_ifs
    · exact ih _ _
    · exact (Trace.all_bind _ _).mpr ⟨convert_toTerminal _ _ _ _ _, Trace.all_pure _⟩

theorem formatLoop_toTerminal (residue : ℕ → ℕ → UInt8) (args : ℕ → Word) (fuel off esp : ℕ) :
    (formatLoop printfTPrinter mem format residue args fuel off esp).All
      FormatEvent.ToTerminal := by
  induction fuel generalizing off esp with
  | zero => exact Trace.all_pure _
  | succ fuel ih =>
    rw [formatLoop]
    refine (Trace.all_bind _ _).mpr ⟨(Trace.all_access _ _).mpr trivial, ?_⟩
    split_ifs
    · exact Trace.all_pure _
    · refine (Trace.all_bind _ _).mpr ⟨formatCharSwitch_toTerminal _ _ _ _ _ _, ?_⟩
      split
      · exact Trace.all_pure _
      · exact ih _ _
    · exact (Trace.all_bind _ _).mpr ⟨(Trace.all_access _ _).mpr trivial, ih _ _⟩

theorem FormatEvent.run_prints (mem : Addr → UInt8) (format : Addr) {e : FormatEvent}
    (he : e.ToTerminal) (k : Kernel) :
    k.Shown (e.run mem format k) ∧ Prints k k.terminalBeingServiced
      ((e.sent mem format).foldl (putcScreen k.videoBus k.currAttribute)
        (k.startOf k.terminalBeingServiced)) (e.run mem format k) := by
  cases e with
  | examine off => exact ⟨Kernel.Shown.refl k, prints_nothing k _⟩
  | writeFormat off =>
    exact ⟨k.writeTerminal_shown _ _ _,
      k.writeTerminal_prints (fun i => mem (format + BitVec.ofNat 32 (off + i)))
        (show ¬ (1#32 : Word).toInt < 0 by decide)⟩
  | write buf nbytes =>
    refine ⟨k.writeTerminal_shown _ _ _, ?_⟩
    rw [FormatEvent.sent, FormatEvent.run]
    by_cases hneg : nbytes.toInt < 0
    · rw [if_pos hneg, Kernel.writeTerminal, if_neg (not_not.mpr rfl), if_pos hneg]
      exact prints_nothing k _
    · rw [if_neg hneg]
      exact k.writeTerminal_prints _ hneg
  | putc c => exact he.elim

/-- What a sequence of events prints is what they send, one after the other. -/
theorem run_events_prints {log : List FormatEvent} (hlog : ∀ e ∈ log, e.ToTerminal) (k : Kernel) :
    Prints k k.terminalBeingServiced
      ((log.flatMap (FormatEvent.sent mem format)).foldl (putcScreen k.videoBus k.currAttribute)
        (k.startOf k.terminalBeingServiced)) (log.foldl (FormatEvent.run mem format) k) := by
  induction log generalizing k with
  | nil => exact prints_nothing k _
  | cons e log ih =>
    obtain ⟨hshown, hprints⟩ := FormatEvent.run_prints mem format (hlog e List.mem_cons_self) k
    have hrest := ih (fun d hd => hlog d (List.mem_cons_of_mem e hd)) (e.run mem format k)
    rw [hshown.terminalBeingServiced, hshown.videoBus, hprints.currAttribute, hprints.startOf]
      at hrest
    rw [List.flatMap_cons, List.foldl_append]
    exact hprints.trans hrest

end Effects

section Plain

variable {mem : Addr → UInt8} {format : Addr} {residue : ℕ → ℕ → UInt8} {args : ℕ → Word}

theorem writeTerminal_byte (k : Kernel) {str str' : ℕ → UInt8} (h : str 0 = str' 0) :
    (Id.run (k.writeTerminal STDOUT (fun i => (str i : Id UInt8)) 1#32)).2 =
      (Id.run (k.writeTerminal STDOUT (fun i => (str' i : Id UInt8)) 1#32)).2 := by
  have hone : (List.range' 0 (1#32 : Word).toNat).map str =
      (List.range' 0 (1#32 : Word).toNat).map str' := congrArg (fun c => [c]) h
  rw [writeTerminal_run _ (by decide), writeTerminal_run _ (by decide), putT_eq_foldl,
    putT_eq_foldl, hone]

theorem formatLoop_plain {l : List UInt8} (hnul : NulFree l) (hpercent : PERCENT ∉ l) {off : ℕ}
    (h : Stands (fun i => mem (format + BitVec.ofNat 32 i)) off (l ++ [NULL_CHAR])) {fuel : ℕ}
    (hfuel : l.length < fuel) (esp : ℕ) (k : Kernel) :
    (formatLoop printfTPrinter mem format residue args fuel off esp).log.foldl
      (FormatEvent.run mem format) k = k.printfT l := by
  induction l generalizing off fuel k with
  | nil =>
    obtain ⟨fuel, rfl⟩ := Nat.exists_eq_succ_of_ne_zero (by omega : fuel ≠ 0)
    have hend : mem (format + BitVec.ofNat 32 off) = NULL_CHAR := (stands_cons.mp h).1
    rw [formatLoop, formatByte, hend]
    rfl
  | cons c l ih =>
    obtain ⟨fuel, rfl⟩ := Nat.exists_eq_succ_of_ne_zero (by omega : fuel ≠ 0)
    obtain ⟨hhead, hrest⟩ := stands_cons.mp h
    have hchar : mem (format + BitVec.ofNat 32 off) = c := hhead
    have hend : ¬ c = NULL_CHAR := fun heq => hnul (heq ▸ List.mem_cons_self)
    have hordinary : ¬ c = PERCENT := fun heq => hpercent (heq ▸ List.mem_cons_self)
    have hlog : (formatLoop printfTPrinter mem format residue args (fuel + 1) off esp).log =
        .examine off :: .writeFormat off ::
          (formatLoop printfTPrinter mem format residue args fuel (off + 1) esp).log := by
      rw [formatLoop, formatByte, hchar, Trace.log_bind, Trace.val_access, if_neg hend,
        if_neg hordinary]
      rfl
    rw [hlog, List.foldl_cons, List.foldl_cons,
      ih (fun hmem => hnul (List.mem_cons_of_mem c hmem))
        (fun hmem => hpercent (List.mem_cons_of_mem c hmem)) hrest (by
          rw [List.length_cons] at hfuel
          omega)]
    exact congrArg (Kernel.printfT · l) (writeTerminal_byte k hchar)

theorem printfTCall_plain {l : List UInt8} (hpercent : PERCENT ∉ l) (h : StringAt mem format l)
    {fuel : ℕ} (hfuel : l.length < fuel) (k : Kernel) :
    (printfTCall mem format residue args fuel).log.foldl (FormatEvent.run mem format) k =
      k.printfT l := by
  rw [printfTCall, formatCall, Trace.log_bind, List.foldl_append,
    formatLoop_plain h.1 hpercent h.2 hfuel]
  rfl

end Plain

section Rendering

variable {k : Kernel}

theorem shortStrings (hdir : k.paging.Initialised k.cr3) (mem : Addr → UInt8) :
    ShortStrings (k.loadByte mem) := by
  intro p l hl
  by_contra! hlong
  obtain ⟨i, hi, habove⟩ : ∃ i < 2 ^ 31, 32 < directoryIndex (p + BitVec.ofNat 32 i) := by
    refine ⟨0x8400000 - p.toNat, by omega, ?_⟩
    have := p.isLt
    rw [directoryIndex, BitVec.toNat_add, BitVec.toNat_ofNat]
    omega
  have hchar : k.loadByte mem (p + BitVec.ofNat 32 (0 + i)) = l[i] :=
    (stands_append.mp hl.2).1 i (by omega)
  rw [Nat.zero_add, Kernel.loadByte, hdir.translate_above habove] at hchar
  have hnul : NULL_CHAR ∈ l := by
    have hzero : l[i] = NULL_CHAR := hchar.symm
    exact hzero ▸ List.getElem_mem _
  exact hl.1 hnul

/-- A kernel that has booted, with `l` in its own page. -/
def bootWith (l : List UInt8) : Kernel :=
  { bootKernel with mem := memoryWith KERNEL_BASE_ADDRESS l }

theorem bootWith_stringAt {l : List UInt8} (hl : NulFree l) (hlen : l.length < 0x400000) :
    StringAt ((bootWith l).loadByte (bootWith l).mem) KERNEL_BASE_ADDRESS l := by
  have hdir : (bootWith l).paging.Initialised (bootWith l).cr3 := ⟨zeroPaging, rfl⟩
  have hbase : KERNEL_BASE_ADDRESS.toNat = 0x400000 := rfl
  refine (stringAt_memoryWith KERNEL_BASE_ADDRESS hl (by omega)).congr fun i hi => ?_
  have haddr : (KERNEL_BASE_ADDRESS + BitVec.ofNat 32 i).toNat = 0x400000 + i := by
    rw [BitVec.toNat_add, BitVec.toNat_ofNat, hbase]
    omega
  rw [Kernel.loadByte, hdir.kernelMapped.translate (by omega) (by omega)]
  rfl

/-- `printf_t` on a format of ordinary characters and directives sends the text that the
format stands for, and leaves the terminal with this text printed. -/
theorem printfT_renders (hdir : k.paging.Initialised k.cr3) (format : Addr) (pieces : List Piece)
    (hvalid : ∀ p ∈ pieces, p.Valid)
    (hformat : StringAt (k.loadByte k.mem) format (pieces.flatMap Piece.bytes))
    (residue : ℕ → ℕ → UInt8) (args : ℕ → Word) (str : Addr → List UInt8)
    (hargs : ArgsMatch (k.loadByte k.mem) str args pieces 0) (fuel : ℕ)
    (hfuel : (pieces.flatMap Piece.bytes).length < fuel) :
    let call := printfTCall (k.loadByte k.mem) format residue args fuel
    let text := render str args pieces 0
    call.val = some (BitVec.ofNat 32 (pieces.flatMap Piece.bytes).length) ∧
      call.log.flatMap (FormatEvent.sent (k.loadByte k.mem) format) = text ∧
      Prints k k.terminalBeingServiced
        (text.foldl (putcScreen k.videoBus k.currAttribute) (k.startOf k.terminalBeingServiced))
        (call.log.foldl (FormatEvent.run (k.loadByte k.mem) format) k) := by
  intro call text
  obtain ⟨text', hemits, htext⟩ := formatCall_emits residue args hvalid hformat
    (printfTPrinter_sound _ _ _ hformat.end_eq) str hfuel
  obtain rfl := htext (shortStrings hdir k.mem) hargs
  have hterminal : call.All FormatEvent.ToTerminal :=
    (Trace.all_bind _ _).mpr ⟨formatLoop_toTerminal _ _ _ _ _, Trace.all_pure _⟩
  have hsent : call.log.flatMap (FormatEvent.sent (k.loadByte k.mem) format) = text := hemits.sent
  refine ⟨hemits.val, hsent, ?_⟩
  rw [← hsent]
  exact run_events_prints hterminal k

/-- `printf_t("a%#x%d", 14, -2147483648)` sends `a0000000E-2147483648`. -/
theorem printfT_renders_numbers :
    let pieces : List Piece := [.ordinary 0x61, .directive 1 .hex, .directive 0 .signed]
    let k := bootWith (pieces.flatMap Piece.bytes)
    let args : ℕ → Word := fun esp => if esp = 0 then 14#32 else 0x80000000#32
    (printfTCall (k.loadByte k.mem) KERNEL_BASE_ADDRESS (fun _ _ => 0) args 7).log.flatMap
        (FormatEvent.sent (k.loadByte k.mem) KERNEL_BASE_ADDRESS) =
      [0x61, 0x30, 0x30, 0x30, 0x30, 0x30, 0x30, 0x30, 0x45,
        0x2d, 0x32, 0x31, 0x34, 0x37, 0x34, 0x38, 0x33, 0x36, 0x34, 0x38] := by
  intro pieces k args
  have hvalid : ∀ p ∈ pieces, p.Valid := by simp [pieces, Piece.Valid, NULL_CHAR, PERCENT]
  have h := printfT_renders (k := k) ⟨zeroPaging, rfl⟩ KERNEL_BASE_ADDRESS pieces hvalid
    (bootWith_stringAt (by decide) (by decide)) (fun _ _ => 0) args (fun _ => [])
    ⟨trivial, trivial, trivial, trivial⟩ 7 (by decide)
  refine h.2.1.trans ?_
  simp [pieces, args, render, Piece.text, Piece.arity, Conversion.text, Conversion.arity,
    paddedHexadecimal, hexadecimal, signedDecimal, decimal, numeral, digitChar, MINUS, DIGIT_ZERO]

end Rendering

end SnoopDos
