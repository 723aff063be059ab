import SnoopDos.Proofs.FormatEvents

/-! A format as a sequence of ordinary characters and directives, the text that it stands
for, and that the scan prints it piece by piece. -/

namespace SnoopDos

open Loops Numerals

section Reference

def digitChar (d : ℕ) : UInt8 := if d < 10 then UInt8.ofNat (0x30 + d) else UInt8.ofNat (0x37 + d)

def decimal (n : ℕ) : List UInt8 := numeral digitChar 10 n

def signedDecimal (z : ℤ) : List UInt8 :=
  if z < 0 then MINUS :: decimal z.natAbs else decimal z.natAbs

def hexadecimal (n : ℕ) : List UInt8 := numeral digitChar 16 n

def paddedHexadecimal (n : ℕ) : List UInt8 := (hexadecimal n).leftpad 8 DIGIT_ZERO

inductive Conversion
  | percent
  | hex
  | unsigned
  | signed
  | char
  | string
  deriving DecidableEq

namespace Conversion

def letter : Conversion → UInt8
  | percent => PERCENT
  | hex => 0x78
  | unsigned => 0x75
  | signed => 0x64
  | char => 0x63
  | string => 0x73

def arity : Conversion → ℕ
  | percent => 0
  | _ => 1

/-- What it stands for, with `str p` the string at `p`. -/
def text (str : Addr → List UInt8) (alternate : Bool) (arg : Word) : Conversion → List UInt8
  | percent => [PERCENT]
  | hex => if alternate then paddedHexadecimal arg.toNat else hexadecimal arg.toNat
  | unsigned => decimal arg.toNat
  | signed => signedDecimal arg.toInt
  | char => [UInt8.ofNat arg.toNat]
  | string => str arg

/-- The argument is one for the conversion. -/
def Matches (mem : Addr → UInt8) (str : Addr → List UInt8) (arg : Word) : Conversion → Prop
  | char => UInt8.ofNat arg.toNat ≠ NULL_CHAR
  | string => StringAt mem arg (str arg)
  | _ => True

end Conversion

/-- A piece of a format. -/
inductive Piece
  | ordinary (c : UInt8)
  | directive (hashes : ℕ) (conv : Conversion)
  | unknown (hashes : ℕ) (c : UInt8)
  deriving DecidableEq

namespace Piece

def Valid : Piece → Prop
  | ordinary c => c ≠ NULL_CHAR ∧ c ≠ PERCENT
  | directive _ _ => True
  | unknown _ c => c ≠ NULL_CHAR ∧ c ≠ HASH ∧ ∀ conv : Conversion, c ≠ conv.letter

def bytes : Piece → List UInt8
  | ordinary c => [c]
  | directive hashes conv => PERCENT :: (List.replicate hashes HASH ++ [conv.letter])
  | unknown hashes c => PERCENT :: (List.replicate hashes HASH ++ [c])

def arity : Piece → ℕ
  | directive _ conv => conv.arity
  | _ => 0

def text (str : Addr → List UInt8) (arg : Word) : Piece → List UInt8
  | ordinary c => [c]
  | directive hashes conv => conv.text str (0 < hashes) arg
  | unknown _ _ => []

def Matches (mem : Addr → UInt8) (str : Addr → List UInt8) (arg : Word) : Piece → Prop
  | directive _ conv => conv.Matches mem str arg
  | _ => True

end Piece

/-- The text of a format, its arguments being those from `esp` on. -/
def render (str : Addr → List UInt8) (args : ℕ → Word) : List Piece → ℕ → List UInt8
  | [], _ => []
  | p :: pieces, esp => p.text str (args esp) ++ render str args pieces (esp + p.arity)

/-- Every directive finds an argument for it. -/
def ArgsMatch (mem : Addr → UInt8) (str : Addr → List UInt8) (args : ℕ → Word) :
    List Piece → ℕ → Prop
  | [], _ => True
  | p :: pieces, esp => p.Matches mem str (args esp) ∧ ArgsMatch mem str args pieces (esp + p.arity)

theorem paddedHexadecimal_length (w : Word) : (paddedHexadecimal w.toNat).length = 8 := by
  have hle : (hexadecimal w.toNat).length ≤ 8 := numeral_length_le (by decide) (by decide) w.isLt
  rw [paddedHexadecimal, List.length_leftpad, Nat.max_eq_left hle]

end Reference

section Numbers

variable {out : Printer} {mem : Addr → UInt8} {format : Addr} {n : ℕ}

theorem lookupDigit_eq {d : ℕ} (hd : d < 36) : lookupDigit d = digitChar d := by
  revert d
  decide

theorem nulFree_numeral {radix : ℕ} (hradix : 1 < radix) (hmax : radix ≤ 36) (m : ℕ) :
    NulFree (numeral digitChar radix m) := fun hmem => by
  obtain ⟨d, hd, hnul⟩ := mem_numeral hradix hmem
  exact lookupDigit_ne_null (hd.trans_le hmax) ((lookupDigit_eq (hd.trans_le hmax)).trans hnul)

theorem itoa_stands {radix : ℕ} (hradix : 1 < radix) (hmax : radix ≤ 36) (value : Word)
    (buf : ℕ → UInt8) (s : ℕ) :
    Stands (itoa value buf s radix) s (numeral digitChar radix value.toNat ++ [NULL_CHAR]) := by
  rw [← numeral_congr hradix fun d hd => lookupDigit_eq (hd.trans_le hmax)]
  exact (itoa_spec hradix hmax value buf s).1

theorem decimal_length_le (w : Word) : (decimal w.toNat).length ≤ 10 :=
  numeral_length_le (by decide) (by decide) (w.isLt.trans (by decide))

theorem convertUnsigned_emits (hout : out.Sound mem format n) (residue : ℕ → UInt8) (arg : Word) :
    Emits mem format n (convertUnsigned out residue arg) (some ()) (decimal arg.toNat) := by
  have hlen := decimal_length_le arg
  exact hout.number _ 0 36 _ (itoa_stands (by decide) (by decide) arg residue 0)
    (nulFree_numeral (by decide) (by decide) _) (by omega) (by decide)

/-- Negation wraps, and is right as an unsigned number for `-2^31` as well. -/
theorem toNat_neg_of_neg {value : Word} (h : value.toInt < 0) :
    (-value).toNat = value.toInt.natAbs := by
  have := value.isLt
  rw [BitVec.toInt_eq_toNat_cond] at h ⊢
  rw [BitVec.toNat_neg]
  split_ifs at h ⊢ <;> omega

theorem toNat_of_nonneg {value : Word} (h : ¬ value.toInt < 0) :
    value.toNat = value.toInt.natAbs := by
  have := value.isLt
  rw [BitVec.toInt_eq_toNat_cond] at h ⊢
  split_ifs at h ⊢ <;> omega

theorem convertSigned_emits (hout : out.Sound mem format n) (residue : ℕ → UInt8) (value : Word) :
    Emits mem format n (convertSigned out residue value) (some ()) (signedDecimal value.toInt) := by
  rw [convertSigned, signedDecimal]
  split_ifs with hneg
  · have hlen := decimal_length_le (-value)
    rw [← toNat_neg_of_neg hneg]
    have hsign : itoa (-value) (Function.update residue 0 MINUS) 1 10 0 = MINUS := by
      rw [(itoa_spec (by decide) (by decide) _ _ _).2 0 Nat.one_pos, Function.update_self]
    refine hout.number _ 0 36 (MINUS :: decimal (-value).toNat) (stands_cons.mpr ⟨hsign, ?_⟩)
      (fun hmem => ?_) ?_ (by decide)
    · exact itoa_stands (by decide) (by decide) (-value) _ 1
    · rcases List.mem_cons.mp hmem with hnul | hmem
      · exact absurd hnul (by decide)
      · exact nulFree_numeral (by decide) (by decide) _ hmem
    · rw [List.length_cons]
      omega
  · rw [← toNat_of_nonneg hneg]
    exact convertUnsigned_emits hout residue value

/-- The zeros go in front of the digits, from where the digits would end if they began
the buffer. -/
theorem convertHex_emits (hout : out.Sound mem format n) (residue : ℕ → UInt8) (alternate : Bool)
    (arg : Word) : Emits mem format n (convertHex out residue alternate arg) (some ())
      (if alternate then paddedHexadecimal arg.toNat else hexadecimal arg.toNat) := by
  have hle : (hexadecimal arg.toNat).length ≤ 8 :=
    numeral_length_le (by decide) (by decide) arg.isLt
  have hnul : NulFree (hexadecimal arg.toNat) := nulFree_numeral (by decide) (by decide) _
  rw [convertHex]
  cases alternate with
  | false =>
    exact hout.number _ 0 64 (hexadecimal arg.toNat)
      (itoa_stands (by decide) (by decide) arg residue 0) hnul (by omega) le_rfl
  | true =>
    have hstands : Stands (itoa arg residue 8 16) 8 (hexadecimal arg.toNat ++ [NULL_CHAR]) :=
      itoa_stands (by decide) (by decide) arg residue 8
    have hstart : (bufStrlen (itoa arg residue 8 16) 8).getD 0 = (hexadecimal arg.toNat).length := by
      rw [bufStrlen_of_stands hnul (by omega) hstands, Option.getD_some]
    rw [if_neg (by simp), if_pos rfl]
    simp only [hstart]
    generalize hlen : (hexadecimal arg.toNat).length = start at hle
    have hfill (i : ℕ) : forRange start (8 - start)
        (fun i buf => Function.update buf i DIGIT_ZERO) (itoa arg residue 8 16) i =
          if start ≤ i ∧ i < start + (8 - start) then DIGIT_ZERO else itoa arg residue 8 16 i :=
      forRange_fill (fun _ _ _ _ => rfl) _ i
    refine hout.number _ start 64 (paddedHexadecimal arg.toNat) ?_ (fun hmem => ?_) ?_ le_rfl
    · rw [paddedHexadecimal, List.leftpad, hlen, List.append_assoc]
      refine stands_append.mpr ⟨fun j hj => ?_, ?_⟩
      · rw [List.length_replicate] at hj
        rw [hfill, if_pos (by omega), List.getElem_replicate]
      · rw [List.length_replicate, Nat.add_sub_cancel' hle]
        refine hstands.congr fun i hi _ => ?_
        rw [hfill, if_neg (by omega)]
    · rcases List.mem_append.mp hmem with hmem | hmem
      · exact absurd (List.eq_of_mem_replicate hmem) (by decide)
      · exact hnul hmem
    · rw [paddedHexadecimal_length]
      omega

end Numbers

section Strings

variable {mem : Addr → UInt8} {p : Addr} {l : List UInt8}

theorem StringAt.end_eq (h : StringAt mem p l) : mem (p + BitVec.ofNat 32 l.length) = NULL_CHAR := by
  have hend := (stands_cons.mp (stands_append.mp h.2).2).1
  rwa [Nat.zero_add] at hend

theorem StringAt.length_lt (h : StringAt mem p l) : l.length < 2 ^ 32 := by
  by_contra! hlong
  obtain ⟨j, hj⟩ := Nat.exists_eq_add_of_le' hlong
  have hlt : j < l.length := by omega
  have hchar : mem (p + BitVec.ofNat 32 (0 + j)) = l[j] := (stands_append.mp h.2).1 j hlt
  have hwrap : BitVec.ofNat 32 l.length = BitVec.ofNat 32 (0 + j) := by
    apply BitVec.eq_of_toNat_eq
    simp only [BitVec.toNat_ofNat]
    omega
  have hnul := h.end_eq
  rw [hwrap, hchar] at hnul
  exact h.1 (hnul ▸ List.getElem_mem hlt)

theorem StringAt.congr {mem' : Addr → UInt8} (h : StringAt mem p l)
    (hmem : ∀ i ≤ l.length, mem' (p + BitVec.ofNat 32 i) = mem (p + BitVec.ofNat 32 i)) :
    StringAt mem' p l := by
  refine ⟨h.1, h.2.congr fun i _ hi => hmem i ?_⟩
  rw [List.length_append, List.length_singleton] at hi
  omega

/-- Memory that holds `l` at `p`, and nothing else. -/
def memoryWith (p : Addr) (l : List UInt8) (a : Addr) : UInt8 := l.getD (a - p).toNat NULL_CHAR

theorem stringAt_memoryWith (p : Addr) (hl : NulFree l) (hlen : l.length < 2 ^ 32) :
    StringAt (memoryWith p l) p l := by
  have hoff (i : ℕ) (hi : i ≤ l.length) : (p + BitVec.ofNat 32 (0 + i) - p).toNat = i := by
    rw [Nat.zero_add, BitVec.add_comm, BitVec.add_sub_cancel, BitVec.toNat_ofNat]
    omega
  refine ⟨hl, stands_append.mpr ⟨fun j hj => ?_, stands_cons.mpr ⟨?_, stands_nil _ _⟩⟩⟩
  · simp only [memoryWith, hoff j hj.le]
    rw [List.getD_eq_getElem?_getD, List.getElem?_eq_getElem hj, Option.getD_some]
  · simp only [memoryWith, hoff _ le_rfl]
    rw [List.getD_eq_getElem?_getD, List.getElem?_eq_none le_rfl, Option.getD_none]

/-- A terminator anywhere ends the string that begins at any address. -/
theorem exists_stringAt {a : Addr} (ha : mem a = NULL_CHAR) (p : Addr) : ∃ l, StringAt mem p l := by
  have hends : ∃ i, mem (p + BitVec.ofNat 32 i) = NULL_CHAR := by
    refine ⟨(a - p).toNat, ?_⟩
    rw [BitVec.ofNat_toNat, BitVec.setWidth_eq, BitVec.add_comm, BitVec.sub_add_cancel, ha]
  refine ⟨(List.range (Nat.find hends)).map fun i => mem (p + BitVec.ofNat 32 i), fun hmem => ?_,
    stands_append.mpr ⟨fun j hj => ?_, ?_⟩⟩
  · obtain ⟨i, hi, hnul⟩ := List.mem_map.mp hmem
    exact Nat.find_min hends (List.mem_range.mp hi) hnul
  · rw [List.getElem_map, List.getElem_range, Nat.zero_add]
  · rw [List.length_map, List.length_range, Nat.zero_add]
    exact stands_cons.mpr ⟨Nat.find_spec hends, stands_nil _ _⟩

end Strings

section Scan

variable {out : Printer} {mem : Addr → UInt8} {format : Addr} {n : ℕ}
  {residue : ℕ → ℕ → UInt8} {args : ℕ → Word}

variable (residue args) in
/-- A conversion takes its argument and prints its text, if the argument is one for it and
no string is too long for `write_terminal`. -/
theorem convert_emits (hout : out.Sound mem format n) {a : Addr} (ha : mem a = NULL_CHAR)
    (str : Addr → List UInt8) (conv : Conversion) (alternate : Bool) (esp : ℕ) :
    ∃ text, Emits mem format n (convert out mem residue args conv.letter alternate esp)
        (some (esp + conv.arity)) text ∧
      ((∀ p l, StringAt mem p l → l.length < 2 ^ 31) → conv.Matches mem str (args esp) →
        text = conv.text str alternate (args esp)) := by
  cases conv with
  | percent =>
    refine ⟨_, ?_, fun _ _ => rfl⟩
    rw [convert, if_pos (by decide)]
    exact hout.literal.bind (Emits.pure _)
  | hex =>
    refine ⟨_, ?_, fun _ _ => rfl⟩
    rw [convert, if_neg (by decide), if_pos (by decide)]
    exact (convertHex_emits hout _ _ _).map
  | unsigned =>
    refine ⟨_, ?_, fun _ _ => rfl⟩
    rw [convert, if_neg (by decide), if_neg (by decide), if_pos (by decide)]
    exact (convertUnsigned_emits hout _ _).map
  | signed =>
    refine ⟨_, ?_, fun _ _ => rfl⟩
    rw [convert, if_neg (by decide), if_neg (by decide), if_neg (by decide), if_pos (by decide)]
    exact (convertSigned_emits hout _ _).map
  | char =>
    obtain ⟨text, hemits, htext⟩ := hout.char (args esp)
    refine ⟨text, ?_, fun _ hmatches => htext hmatches⟩
    rw [convert, if_neg (by decide), if_neg (by decide), if_neg (by decide), if_neg (by decide),
      if_pos (by decide), ← List.append_nil text]
    exact hemits.bind (Emits.pure _)
  | string =>
    have hstring : ∃ l, StringAt mem (args esp) l ∧
        (StringAt mem (args esp) (str (args esp)) → l = str (args esp)) := by
      by_cases h : StringAt mem (args esp) (str (args esp))
      · exact ⟨_, h, fun _ => rfl⟩
      · obtain ⟨l, hl⟩ := exists_stringAt ha (args esp)
        exact ⟨l, hl, fun h' => absurd h' h⟩
    obtain ⟨l, hl, hstr⟩ := hstring
    obtain ⟨text, hemits, htext⟩ := hout.string _ l hl.2 hl.1 hl.length_lt
    refine ⟨text, ?_, fun hshort hmatches => (htext (hshort _ _ hl)).trans (hstr hmatches)⟩
    rw [convert, if_neg (by decide), if_neg (by decide), if_neg (by decide), if_neg (by decide),
      if_neg (by decide), if_pos (by decide)]
    exact hemits.map

theorem convert_unknown {c : UInt8} (hc : ∀ conv : Conversion, c ≠ conv.letter) (alternate : Bool)
    (esp : ℕ) : convert out mem residue args c alternate esp = pure (some esp) := by
  have hpercent : c ≠ PERCENT := hc .percent
  have hhex : c ≠ 0x78 := hc .hex
  have hunsigned : c ≠ 0x75 := hc .unsigned
  have hsigned : c ≠ 0x64 := hc .signed
  have hchar : c ≠ 0x63 := hc .char
  have hstring : c ≠ 0x73 := hc .string
  rw [convert, if_neg hpercent, if_neg hhex, if_neg hunsigned, if_neg hsigned, if_neg hchar,
    if_neg hstring]

theorem formatByte_emits {off : ℕ} (hoff : off ≤ n) :
    Emits mem format n (formatByte mem format off) (mem (format + BitVec.ofNat 32 off)) [] :=
  Emits.event _ fun _ _ hi => (List.mem_singleton.mp hi).symm ▸ hoff

variable {off esp esp' fuel : ℕ} {c : UInt8} {text : List UInt8}

theorem formatCharSwitch_emits (hashes : ℕ) {alternate : Bool} (hc : c ≠ HASH)
    (h : Stands (fun i => mem (format + BitVec.ofNat 32 i)) off (List.replicate hashes HASH ++ [c]))
    (hn : off + hashes ≤ n) (hfuel : hashes < fuel)
    (hconv : Emits mem format n (convert out mem residue args c (alternate || 0 < hashes) esp)
      (some esp') text) :
    Emits mem format n (formatCharSwitch out mem format residue args fuel off alternate esp)
      (some (off + hashes, esp')) text := by
  induction hashes generalizing off alternate fuel with
  | zero =>
    obtain ⟨fuel, rfl⟩ := Nat.exists_eq_succ_of_ne_zero (by omega : fuel ≠ 0)
    have hchar : mem (format + BitVec.ofNat 32 off) = c := (stands_cons.mp h).1
    rw [formatCharSwitch]
    refine (formatByte_emits (by omega)).bind ?_
    rw [hchar, if_neg hc]
    rw [decide_eq_false (lt_irrefl 0), Bool.or_false] at hconv
    exact hconv.map
  | succ hashes ih =>
    obtain ⟨fuel, rfl⟩ := Nat.exists_eq_succ_of_ne_zero (by omega : fuel ≠ 0)
    obtain ⟨hhash, hrest⟩ := stands_cons.mp h
    rw [formatCharSwitch]
    refine (formatByte_emits (by omega)).bind ?_
    rw [if_pos hhash, ← Nat.add_assoc, Nat.add_right_comm]
    refine ih hrest (by omega) (by omega) ?_
    rwa [Bool.true_or, ← Bool.or_true alternate, ← decide_eq_true (Nat.succ_pos hashes)]

theorem formatLoop_end (h : mem (format + BitVec.ofNat 32 off) = NULL_CHAR) (hn : off ≤ n) :
    Emits mem format n (formatLoop out mem format residue args (fuel + 1) off esp) (some off) [] := by
  rw [formatLoop]
  refine (formatByte_emits hn).bind ?_
  rw [if_pos h]
  exact Emits.pure _

theorem formatLoop_ordinary (hout : out.Sound mem format n)
    (hchar : mem (format + BitVec.ofNat 32 off) = c) (hnul : c ≠ NULL_CHAR) (hpercent : c ≠ PERCENT)
    (hn : off ≤ n) :
    Reaches mem format n (formatLoop out mem format residue args (fuel + 1) off esp)
      (formatLoop out mem format residue args fuel (off + 1) esp) [c] := by
  rw [formatLoop]
  refine ((formatByte_emits hn).reaches _).trans ?_
  rw [hchar, if_neg hnul, if_neg hpercent]
  exact (hout.ordinary c off hchar hnul hn).reaches _

theorem formatLoop_directive {hashes : ℕ} (hc : c ≠ HASH)
    (h : Stands (fun i => mem (format + BitVec.ofNat 32 i)) off
      (PERCENT :: (List.replicate hashes HASH ++ [c])))
    (hn : off + 1 + hashes ≤ n) (hfuel : hashes < fuel)
    (hconv : Emits mem format n (convert out mem residue args c (0 < hashes) esp) (some esp') text) :
    Reaches mem format n (formatLoop out mem format residue args (fuel + 1) off esp)
      (formatLoop out mem format residue args fuel (off + (hashes + 2)) esp') text := by
  obtain ⟨hpercent, hrest⟩ := stands_cons.mp h
  rw [← Bool.false_or (decide (0 < hashes))] at hconv
  have hswitch := formatCharSwitch_emits hashes hc hrest hn hfuel hconv
  rw [formatLoop]
  refine ((formatByte_emits (by omega)).reaches _).trans ?_
  rw [hpercent, if_neg (by decide), if_pos rfl, show off + (hashes + 2) = off + 1 + hashes + 1 by omega]
  exact hswitch.reaches _

end Scan

end SnoopDos
