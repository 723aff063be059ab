import SnoopDos.Proofs.Itoa
import SnoopDos.Proofs.LineBuffer

/-! What the output functions of `printf` and `printf_t` send, and which bytes of the
format they examine. Both send the same for a converted number and for a string. -/

namespace SnoopDos

open Numerals

/-- The characters that an event sends to the terminal. -/
def FormatEvent.sent (mem : Addr → UInt8) (format : Addr) : FormatEvent → List UInt8
  | .examine _ => []
  | .writeFormat off => fieldString (fun i => mem (format + BitVec.ofNat 32 (off + i))) 1
  | .write buf nbytes => if nbytes.toInt < 0 then [] else fieldString buf nbytes.toNat
  | .putc c => [c]

/-- The offsets of the format that an event examines; a `write_terminal` in state `k`
reads it through its buffer. -/
def FormatEvent.examines (mem : Addr → UInt8) (format : Addr) (k : Kernel) : FormatEvent → List ℕ
  | .examine off => [off]
  | .writeFormat off => (k.writeTerminal STDOUT
      (examined fun i => mem (format + BitVec.ofNat 32 (off + i))) 1#32).log.map (off + ·)
  | .write _ _ => []
  | .putc _ => []

/-- `t` ends with `a`, sends `text` and examines no byte of the format beyond offset `n`. -/
structure Emits (mem : Addr → UInt8) (format : Addr) (n : ℕ) {α : Type} (t : Formatting α) (a : α)
    (text : List UInt8) : Prop where
  val : t.val = a
  sent : t.log.flatMap (FormatEvent.sent mem format) = text
  examined : ∀ e ∈ t.log, ∀ k, ∀ i ∈ e.examines mem format k, i ≤ n

section Rules

variable {mem : Addr → UInt8} {format : Addr} {n : ℕ} {α β : Type}

theorem Emits.pure (a : α) : Emits mem format n (Pure.pure a) a [] :=
  ⟨rfl, rfl, fun _ he => absurd he List.not_mem_nil⟩

theorem Emits.bind {t : Formatting α} {f : α → Formatting β} {a : α} {b : β} {text text' : List UInt8}
    (h : Emits mem format n t a text) (h' : Emits mem format n (f a) b text') :
    Emits mem format n (t >>= f) b (text ++ text') := by
  obtain ⟨rfl, rfl, hexamined⟩ := h
  refine ⟨h'.val, ?_, fun e he => ?_⟩
  · rw [Trace.log_bind, List.flatMap_append, h'.sent]
  · rcases List.mem_append.mp he with he | he
    · exact hexamined e he
    · exact h'.examined e he

theorem Emits.event {e : FormatEvent} (a : α)
    (he : ∀ k, ∀ i ∈ e.examines mem format k, i ≤ n) :
    Emits mem format n (Trace.access e a) a (e.sent mem format) := by
  refine ⟨rfl, List.flatMap_singleton _ _, fun d hd => ?_⟩
  rw [List.mem_singleton.mp hd]
  exact he

theorem Emits.write {buf : ℕ → UInt8} {nbytes : Word} {l : List UInt8} (a : α)
    (hn : ¬ nbytes.toInt < 0) (hl : fieldString buf nbytes.toNat = l) :
    Emits mem format n (Trace.access (.write buf nbytes) a) a l := by
  have hsent : (FormatEvent.write buf nbytes).sent mem format = l := by
    rw [FormatEvent.sent, if_neg hn, hl]
  rw [← hsent]
  exact Emits.event a fun k i hi => absurd hi List.not_mem_nil

theorem Emits.map {t : Formatting (Option α)} {a : α} {f : α → β} {text : List UInt8}
    (h : Emits mem format n t (some a) text) :
    Emits mem format n (do let r ← t; Pure.pure (r.map f)) (some (f a)) text := by
  have hbind := h.bind (f := fun r => Pure.pure (r.map f)) (Emits.pure (some (f a)))
  rwa [List.append_nil] at hbind

theorem fieldString_of_stands {s : ℕ → UInt8} {l : List UInt8} {m : ℕ} (hl : NulFree l)
    (h : Stands s 0 (l ++ [NULL_CHAR])) (hm : l.length ≤ m) : fieldString s m = l := by
  obtain ⟨hchars, hend⟩ := stands_append.mp h
  refine (eq_fieldString _ _ hm (fun j hj => ⟨?_, ?_⟩) fun _ => ?_).symm
  · rw [← hchars j hj, Nat.zero_add]
  · exact fun hnul => hl (hnul ▸ List.getElem_mem hj)
  · rw [← Nat.zero_add l.length]
    exact hend 0 Nat.one_pos

theorem puts_emits {s : ℕ → UInt8} {l : List UInt8} (hl : NulFree l) (fuel i : ℕ)
    (hfuel : l.length < fuel) (h : Stands s i (l ++ [NULL_CHAR])) :
    Emits mem format n (puts s fuel i) (some ()) l := by
  induction l generalizing fuel i with
  | nil =>
    obtain ⟨fuel, rfl⟩ := Nat.exists_eq_succ_of_ne_zero (by omega : fuel ≠ 0)
    have hend := (stands_cons.mp h).1
    rw [puts, if_neg (not_not.mpr hend)]
    exact Emits.pure _
  | cons c l ih =>
    obtain ⟨fuel, rfl⟩ := Nat.exists_eq_succ_of_ne_zero (by omega : fuel ≠ 0)
    obtain ⟨hc, hrest⟩ := stands_cons.mp h
    have hne : s i ≠ NULL_CHAR := fun hnul => hl ((hc.symm.trans hnul) ▸ List.mem_cons_self)
    rw [puts, if_pos hne, hc]
    exact (Emits.event () fun k j hj => absurd hj List.not_mem_nil).bind
      (ih (fun hmem => hl (List.mem_cons_of_mem c hmem)) fuel (i + 1) (by
        rw [List.length_cons] at hfuel
        omega) hrest)

end Rules

section Continuing

variable {mem : Addr → UInt8} {format : Addr} {n : ℕ} {α β : Type}

/-- `t` sends `text`, examines no byte of the format beyond offset `n` and goes on as `t'`. -/
structure Reaches (mem : Addr → UInt8) (format : Addr) (n : ℕ) (t t' : Formatting α)
    (text : List UInt8) : Prop where
  val : t.val = t'.val
  log : ∃ log, t.log = log ++ t'.log ∧ log.flatMap (FormatEvent.sent mem format) = text ∧
    ∀ e ∈ log, ∀ k, ∀ i ∈ e.examines mem format k, i ≤ n

variable {t t' t'' : Formatting α} {text text' : List UInt8}

theorem Reaches.refl (t : Formatting α) : Reaches mem format n t t [] :=
  ⟨rfl, [], rfl, rfl, fun _ he => absurd he List.not_mem_nil⟩

theorem Reaches.trans (h : Reaches mem format n t t' text) (h' : Reaches mem format n t' t'' text') :
    Reaches mem format n t t'' (text ++ text') := by
  obtain ⟨hval, log, hlog, rfl, hexamined⟩ := h
  obtain ⟨hval', log', hlog', rfl, hexamined'⟩ := h'
  refine ⟨hval.trans hval', log ++ log', ?_, List.flatMap_append, fun e he => ?_⟩
  · rw [hlog, hlog', List.append_assoc]
  · rcases List.mem_append.mp he with he | he
    · exact hexamined e he
    · exact hexamined' e he

theorem Emits.reaches {t : Formatting β} {b : β} (h : Emits mem format n t b text)
    (f : β → Formatting α) : Reaches mem format n (t >>= f) (f b) text := by
  obtain ⟨rfl, hsent, hexamined⟩ := h
  exact ⟨rfl, t.log, rfl, hsent, hexamined⟩

theorem Reaches.emits {a : α} (h : Reaches mem format n t t' text)
    (h' : Emits mem format n t' a text') : Emits mem format n t a (text ++ text') := by
  obtain ⟨hval, log, hlog, rfl, hexamined⟩ := h
  refine ⟨hval.trans h'.val, ?_, fun e he => ?_⟩
  · rw [hlog, List.flatMap_append, h'.sent]
  · rcases List.mem_append.mp (hlog ▸ he) with he | he
    · exact hexamined e he
    · exact h'.examined e he

theorem Reaches.mem_log {e : FormatEvent} (h : Reaches mem format n t t' text) (he : e ∈ t'.log) :
    e ∈ t.log := by
  obtain ⟨-, log, hlog, -⟩ := h
  exact hlog ▸ List.mem_append_right log he

end Continuing

section Printers

def StringAt (mem : Addr → UInt8) (p : Addr) (l : List UInt8) : Prop :=
  NulFree l ∧ Stands (fun i => mem (p + BitVec.ofNat 32 i)) 0 (l ++ [NULL_CHAR])

/-- The printer puts what it is given: a number or a string up to its terminator. A string
whose length is no `int32_t` need not be printed. -/
structure Printer.Sound (mem : Addr → UInt8) (format : Addr) (n : ℕ) (out : Printer) : Prop where
  literal : Emits mem format n out.literal () [PERCENT]
  ordinary : ∀ c off, mem (format + BitVec.ofNat 32 off) = c → c ≠ NULL_CHAR → off ≤ n →
    Emits mem format n (out.ordinary c off) () [c]
  number : ∀ buf start size l, Stands buf start (l ++ [NULL_CHAR]) → NulFree l →
    start + l.length ≤ size → size ≤ 64 → Emits mem format n (out.number buf start size) (some ()) l
  char : ∀ arg, ∃ text, Emits mem format n (out.char arg) () text ∧
    (UInt8.ofNat arg.toNat ≠ NULL_CHAR → text = [UInt8.ofNat arg.toNat])
  string : ∀ s l, Stands s 0 (l ++ [NULL_CHAR]) → NulFree l → l.length < 2 ^ 32 →
    ∃ text, Emits mem format n (out.string s) (some ()) text ∧ (l.length < 2 ^ 31 → text = l)

variable (mem : Addr → UInt8) (format : Addr) (n : ℕ)

theorem printfPrinter_sound : printfPrinter.Sound mem format n where
  literal := Emits.event () fun _ _ hi => absurd hi List.not_mem_nil
  ordinary c off _ _ _ := Emits.event () fun _ _ hi => absurd hi List.not_mem_nil
  number buf start size l hl hnul hfit hsize :=
    puts_emits hnul (2 ^ 32) 0 (by omega) (stands_offset.mpr hl)
  char arg := ⟨_, Emits.event () fun _ _ hi => absurd hi List.not_mem_nil, fun _ => rfl⟩
  string s l hl hnul hlen := ⟨l, puts_emits hnul (2 ^ 32) 0 hlen hl, fun _ => rfl⟩

/-- `write_terminal` examines one byte past a character that it prints, and that is the
terminator at most. -/
theorem printfTPrinter_sound (hend : mem (format + BitVec.ofNat 32 n) = NULL_CHAR) :
    printfTPrinter.Sound mem format n where
  literal := Emits.write () (by decide) (fieldString_one (by decide))
  ordinary c off hc hne hoff := by
    have hsent : fieldString (fun i => mem (format + BitVec.ofNat 32 (off + i))) 1 = [c] := by
      rw [← hc]
      exact fieldString_one (hc ▸ hne)
    have hlast : mem (format + BitVec.ofNat 32 (off + (n - off))) = NULL_CHAR := by
      rw [Nat.add_sub_cancel' hoff, hend]
    refine hsent ▸ Emits.event (e := .writeFormat off) () fun k i hi => ?_
    obtain ⟨j, hj, rfl⟩ := List.mem_map.mp hi
    have hle : j ≤ n - off := writeTerminal_all k STDOUT 1#32 hlast j hj
    omega
  number buf start size l hl hnul hfit hsize := by
    have hsize' : (BitVec.ofNat 32 (size - start)).toNat = size - start := by
      rw [BitVec.toNat_ofNat]
      omega
    refine Emits.write (some ()) ?_ ?_
    · rw [not_lt, BitVec.toInt_eq_toNat_cond, hsize']
      split_ifs <;> omega
    · rw [hsize']
      exact fieldString_of_stands hnul (stands_offset.mpr hl) (by omega)
  char arg := by
    have hbyte : UInt8.ofNat (arg.toNat / 256 ^ 0) = UInt8.ofNat arg.toNat := by
      rw [pow_zero, Nat.div_one]
    refine ⟨_, Emits.write () (by decide) rfl, fun hne => ?_⟩
    rw [← hbyte]
    exact fieldString_one (hbyte ▸ hne)
  string s l hl hnul hlen := by
    have hstrlen : bufStrlen s 0 = some l.length := bufStrlen_of_stands hnul hlen hl
    have hput : printfTPrinter.string s =
        Trace.access (.write s (BitVec.ofNat 32 l.length)) (some ()) := by
      simp only [printfTPrinter, hstrlen]
    refine ⟨_, hput ▸ Emits.event (some ()) fun _ _ hi => absurd hi List.not_mem_nil, fun hlt => ?_⟩
    have hnat : (BitVec.ofNat 32 l.length).toNat = l.length := by
      rw [BitVec.toNat_ofNat, Nat.mod_eq_of_lt hlen]
    have hsize : ¬ (BitVec.ofNat 32 l.length).toInt < 0 := by
      rw [not_lt, BitVec.toInt_eq_toNat_cond, hnat]
      split_ifs <;> omega
    rw [FormatEvent.sent, if_neg hsize, hnat]
    exact fieldString_of_stands hnul hl le_rfl

end Printers

end SnoopDos
