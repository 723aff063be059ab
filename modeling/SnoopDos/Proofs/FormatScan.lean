import SnoopDos.Proofs.FormatRendering

/-! Where the scan of a format stops. The inner `switch` has no case for the terminator, so
that a format that ends inside a directive is read on behind its end. -/

namespace SnoopDos

open Numerals

section Shapes

/-- Ordinary characters and directives that are all there. -/
def Complete (l : List UInt8) : Prop :=
  ∃ pieces : List Piece, (∀ p ∈ pieces, p.Valid) ∧ l = pieces.flatMap Piece.bytes

/-- The same and then `%`, with `#`s or without, and nothing more. -/
def CutOff (l : List UInt8) : Prop :=
  ∃ (pieces : List Piece) (hashes : ℕ), (∀ p ∈ pieces, p.Valid) ∧
    l = pieces.flatMap Piece.bytes ++ PERCENT :: List.replicate hashes HASH

variable {l : List UInt8} {p : Piece}

theorem Complete.cons (hp : p.Valid) (h : Complete l) : Complete (p.bytes ++ l) := by
  obtain ⟨pieces, hvalid, rfl⟩ := h
  exact ⟨p :: pieces, List.forall_mem_cons.mpr ⟨hp, hvalid⟩, rfl⟩

theorem CutOff.cons (hp : p.Valid) (h : CutOff l) : CutOff (p.bytes ++ l) := by
  obtain ⟨pieces, hashes, hvalid, rfl⟩ := h
  refine ⟨p :: pieces, hashes, List.forall_mem_cons.mpr ⟨hp, hvalid⟩, ?_⟩
  rw [List.flatMap_cons, List.append_assoc]

theorem exists_directive (hashes : ℕ) {c : UInt8} (hnul : c ≠ NULL_CHAR) (hhash : c ≠ HASH) :
    ∃ p : Piece, p.Valid ∧ p.bytes = PERCENT :: (List.replicate hashes HASH ++ [c]) := by
  by_cases hletter : ∃ conv : Conversion, c = conv.letter
  · obtain ⟨conv, rfl⟩ := hletter
    exact ⟨.directive hashes conv, trivial, rfl⟩
  · exact ⟨.unknown hashes c, ⟨hnul, hhash, not_exists.mp hletter⟩, rfl⟩

theorem hashes_append (l : List UInt8) : ∃ hashes rest,
    l = List.replicate hashes HASH ++ rest ∧ ∀ c ∈ rest.head?, c ≠ HASH := by
  induction l with
  | nil => exact ⟨0, [], rfl, fun c hc => absurd hc (Option.not_mem_none c)⟩
  | cons c l ih =>
    by_cases hc : c = HASH
    · obtain ⟨hashes, rest, rfl, hrest⟩ := ih
      exact ⟨hashes + 1, rest, hc ▸ rfl, hrest⟩
    · exact ⟨0, c :: l, rfl, fun d hd => Option.some.inj hd ▸ hc⟩

theorem complete_or_cutOff (hl : NulFree l) : Complete l ∨ CutOff l := by
  induction hlen : l.length using Nat.strong_induction_on generalizing l with
  | _ len ih =>
    have hcons (p : Piece) (rest : List UInt8) (hp : p.Valid) (hpos : 0 < p.bytes.length)
        (heq : l = p.bytes ++ rest) : Complete l ∨ CutOff l := by
      subst heq
      rw [List.length_append] at hlen
      rcases ih rest.length (by omega) (fun hmem => hl (List.mem_append_right _ hmem)) rfl with h | h
      · exact Or.inl (h.cons hp)
      · exact Or.inr (h.cons hp)
    cases l with
    | nil => exact Or.inl ⟨[], fun p hp => absurd hp List.not_mem_nil, rfl⟩
    | cons c l =>
      have hc : c ≠ NULL_CHAR := fun heq => hl (heq ▸ List.mem_cons_self)
      by_cases hpercent : c = PERCENT
      · subst hpercent
        obtain ⟨hashes, rest, rfl, hrest⟩ := hashes_append l
        cases rest with
        | nil => exact Or.inr ⟨[], hashes, fun p hp => absurd hp List.not_mem_nil, by simp⟩
        | cons d rest =>
          have hd : d ≠ NULL_CHAR := fun heq => hl (by simp [heq])
          obtain ⟨p, hp, hbytes⟩ := exists_directive hashes hd (hrest d rfl)
          exact hcons p rest hp (by simp [hbytes]) (by simp [hbytes])
      · exact hcons (.ordinary c) l ⟨hc, hpercent⟩ Nat.one_pos rfl

end Shapes

section Stops

/-- Some number of rounds is enough for the call to end, with the length of the format, and
it then examines no byte behind the terminator. -/
def StopsAtEnd (mem : Addr → UInt8) (format : Addr) (len : ℕ) (call : ℕ → Formatting (Option Word)) :
    Prop :=
  ∃ enough, ∀ fuel ≥ enough, (call fuel).val = some (BitVec.ofNat 32 len) ∧
    ∀ e ∈ (call fuel).log, ∀ k, ∀ off ∈ e.examines mem format k, off ≤ len

variable {out : Printer} {mem : Addr → UInt8} {format : Addr} {l : List UInt8}
  {residue : ℕ → ℕ → UInt8} {args : ℕ → Word}

theorem stopsAtEnd_of_complete (hout : out.Sound mem format l.length) (h : StringAt mem format l)
    (hcomplete : Complete l) :
    StopsAtEnd mem format l.length (formatCall out mem format residue args) := by
  obtain ⟨pieces, hvalid, rfl⟩ := hcomplete
  refine ⟨(pieces.flatMap Piece.bytes).length + 1, fun fuel hfuel => ?_⟩
  obtain ⟨text, hemits, -⟩ := formatCall_emits residue args hvalid h hout
    (fun _ => []) hfuel
  exact ⟨hemits.val, hemits.examined⟩

variable (residue args) in
/-- The inner `switch` leaves the terminator as a character that it does not know, and the
outer loop goes on behind it. -/
theorem examines_behind (hout : out.Sound mem format l.length) (h : StringAt mem format l)
    (hcut : CutOff l) {fuel : ℕ} (hfuel : l.length + 2 ≤ fuel) :
    .examine (l.length + 1) ∈ (formatCall out mem format residue args fuel).log := by
  obtain ⟨pieces, hashes, hvalid, rfl⟩ := hcut
  have hlen : (pieces.flatMap Piece.bytes ++ PERCENT :: List.replicate hashes HASH).length =
      (pieces.flatMap Piece.bytes).length + 1 + hashes := by
    rw [List.length_append, List.length_cons, List.length_replicate]
    omega
  rw [hlen] at hout hfuel ⊢
  obtain ⟨hstands, hcutoff⟩ := stands_append.mp (List.append_assoc _ _ _ ▸ h.2)
  have hnul := h.end_eq
  obtain ⟨fuel', esp', text, hle, hreach, -⟩ := formatLoop_pieces residue args 0
    hout hnul (fun _ => []) pieces hvalid hstands (by omega)
    (show (pieces.flatMap Piece.bytes).length < fuel by omega)
  obtain ⟨fuel', rfl⟩ := Nat.exists_eq_add_of_le' (show 2 ≤ fuel' by omega)
  have hunknown (conv : Conversion) : NULL_CHAR ≠ conv.letter := by
    cases conv <;> decide
  have hconvert : Emits mem format ((pieces.flatMap Piece.bytes).length + 1 + hashes)
      (convert out mem residue args NULL_CHAR (0 < hashes) esp') (some esp') [] := by
    rw [convert_unknown hunknown]
    exact Emits.pure _
  have hbehind := formatLoop_directive (show NULL_CHAR ≠ HASH by decide) hcutoff (by omega)
    (show hashes < fuel' + 1 by omega) hconvert
  have hexamine : FormatEvent.examine ((pieces.flatMap Piece.bytes).length + 1 + hashes + 1) ∈
      (formatLoop out mem format residue args (fuel' + 1)
        (0 + (pieces.flatMap Piece.bytes).length + (hashes + 2)) esp').log := by
    rw [formatLoop, Trace.log_bind]
    refine List.mem_append_left _ (List.mem_singleton.mpr ?_)
    congr 1
    omega
  rw [formatCall, Trace.log_bind]
  exact List.mem_append_left _ (hreach.mem_log (hbehind.mem_log hexamine))

theorem not_stopsAtEnd_of_cutOff (hout : out.Sound mem format l.length) (h : StringAt mem format l)
    (hcut : CutOff l) :
    ¬ StopsAtEnd mem format l.length (formatCall out mem format residue args) := by
  rintro ⟨enough, hstops⟩
  have hmem := examines_behind residue args hout h hcut
    (le_max_right enough (l.length + 2))
  have hle := (hstops _ (le_max_left _ _)).2 _ hmem bootKernel _ (List.mem_singleton_self _)
  omega

theorem stopsAtEnd_iff (hout : out.Sound mem format l.length) (h : StringAt mem format l) :
    StopsAtEnd mem format l.length (formatCall out mem format residue args) ↔ Complete l := by
  refine ⟨fun hstops => ?_, stopsAtEnd_of_complete hout h⟩
  rcases complete_or_cutOff h.1 with hcomplete | hcut
  · exact hcomplete
  · exact absurd hstops (not_stopsAtEnd_of_cutOff hout h hcut)

end Stops

/-- `printf` and `printf_t` stop at the end of a format if and only if it does not end inside
a directive. -/
theorem format_scan_stops {mem : Addr → UInt8} {format : Addr} {l : List UInt8}
    (h : StringAt mem format l) (residue : ℕ → ℕ → UInt8) (args : ℕ → Word) :
    (StopsAtEnd mem format l.length (printf mem format residue args) ↔ Complete l) ∧
      (StopsAtEnd mem format l.length (printfTCall mem format residue args) ↔ Complete l) :=
  ⟨stopsAtEnd_iff (printfPrinter_sound mem format l.length) h,
    stopsAtEnd_iff (printfTPrinter_sound mem format l.length h.end_eq) h⟩

theorem format_scan_stops_char :
    let format := KERNEL_BASE_ADDRESS
    let mem := memoryWith format [0x61]
    StopsAtEnd mem format 1 (printf mem format (fun _ _ => 0) fun _ => 0#32) ∧
      StopsAtEnd mem format 1 (printfTCall mem format (fun _ _ => 0) fun _ => 0#32) := by
  intro format mem
  have hformat : StringAt mem format [0x61] := stringAt_memoryWith format (by decide) (by decide)
  have hcomplete : Complete [0x61] :=
    ⟨[.ordinary 0x61], by simp [Piece.Valid, NULL_CHAR, PERCENT], rfl⟩
  have h := format_scan_stops hformat (fun _ _ => 0) fun _ => 0#32
  exact ⟨h.1.mpr hcomplete, h.2.mpr hcomplete⟩

/-- On the format `%` both read behind the terminator. -/
theorem lone_percent_reads_on :
    let format := KERNEL_BASE_ADDRESS
    let mem := memoryWith format [PERCENT]
    StringAt mem format [PERCENT] ∧
      ¬ StopsAtEnd mem format 1 (printf mem format (fun _ _ => 0) fun _ => 0#32) ∧
      ¬ StopsAtEnd mem format 1 (printfTCall mem format (fun _ _ => 0) fun _ => 0#32) := by
  intro format mem
  have hformat : StringAt mem format [PERCENT] :=
    stringAt_memoryWith format (by decide) (by decide)
  have hcut : CutOff [PERCENT] := ⟨[], 0, fun p hp => absurd hp List.not_mem_nil, rfl⟩
  exact ⟨hformat, not_stopsAtEnd_of_cutOff (printfPrinter_sound mem _ 1) hformat hcut,
    not_stopsAtEnd_of_cutOff (printfTPrinter_sound mem _ 1 hformat.end_eq) hformat hcut⟩

end SnoopDos
