import SnoopDos.Lib.StringOps

/-! A stack of words in the byte memory of a 32-bit machine. It grows downwards, and
may lie anywhere, across the end of the address space too. -/

namespace WordStack

open StringOps

/-- The word at an address, its lowest byte first. -/
def load32 (mem : Address → UInt8) (a : Address) : BitVec 32 :=
  (mem (a + 3#32)).toBitVec ++ (mem (a + 2#32)).toBitVec ++ (mem (a + 1#32)).toBitVec ++
    (mem a).toBitVec

def store32 (mem : Address → UInt8) (a : Address) (v : BitVec 32) : Address → UInt8 :=
  write mem a 4 (byteOf v)

/-- The areas of `n` bytes from `p` on and of `k` bytes from `q` on have no byte in common. -/
def Disjoint (p : Address) (n : ℕ) (q : Address) (k : ℕ) : Prop :=
  n ≤ (q - p).toNat ∧ k ≤ (p - q).toNat

instance (p : Address) (n : ℕ) (q : Address) (k : ℕ) : Decidable (Disjoint p n q k) :=
  inferInstanceAs (Decidable (_ ∧ _))

/-- From `mem` to `mem'` the `n` bytes from `p` on stay. -/
def Keeps (mem mem' : Address → UInt8) (p : Address) (n : ℕ) : Prop :=
  ∀ i < n, mem' (p + BitVec.ofNat 32 i) = mem (p + BitVec.ofNat 32 i)

def Words (mem : Address → UInt8) : Address → List (BitVec 32) → Prop
  | _, [] => True
  | a, w :: ws => load32 mem a = w ∧ Words mem (a + 4#32) ws

section Memory

variable {mem mem' mem'' : Address → UInt8} {a b p q : Address} {n k : ℕ} {v w : BitVec 32}
  {ws : List (BitVec 32)}

theorem bytes_append (v : BitVec 32) : v.extractLsb' 24 8 ++ v.extractLsb' 16 8 ++
    v.extractLsb' 8 8 ++ v.extractLsb' 0 8 = v := by
  apply BitVec.eq_of_getLsbD_eq
  intro i hi
  simp only [BitVec.getLsbD_append, BitVec.getLsbD_extractLsb']
  split_ifs <;> grind

theorem store32_byte {i : ℕ} (hi : i < 4) :
    store32 mem a v (a + BitVec.ofNat 32 i) = byteOf v i := by
  have hoff := toNat_add_sub (show i < 2 ^ 32 by omega) a
  rw [store32, write_of_lt (by rw [hoff]; exact hi), hoff]

theorem load32_store32 : load32 (store32 mem a v) a = v := by
  have h0 : store32 mem a v a = byteOf v 0 := by
    have hbyte : store32 mem a v (a + BitVec.ofNat 32 0) = byteOf v 0 := store32_byte (by omega)
    rwa [show BitVec.ofNat 32 0 = 0#32 from rfl, BitVec.add_zero] at hbyte
  rw [load32, h0, show (1#32 : Address) = BitVec.ofNat 32 1 from rfl,
    show (2#32 : Address) = BitVec.ofNat 32 2 from rfl,
    show (3#32 : Address) = BitVec.ofNat 32 3 from rfl, store32_byte (by omega),
    store32_byte (by omega), store32_byte (by omega)]
  exact bytes_append v

theorem Keeps.refl (mem : Address → UInt8) (p : Address) (n : ℕ) : Keeps mem mem p n :=
  fun _ _ => rfl

theorem Keeps.trans (h : Keeps mem mem' p n) (h' : Keeps mem' mem'' p n) : Keeps mem mem'' p n :=
  fun i hi => (h' i hi).trans (h i hi)

theorem Keeps.part (h : Keeps mem mem' p n) (hle : (q - p).toNat + k ≤ n) : Keeps mem mem' q k := by
  intro i hi
  have hq : q = p + BitVec.ofNat 32 (q - p).toNat := by
    rw [BitVec.ofNat_toNat, BitVec.setWidth_eq, BitVec.add_comm, BitVec.sub_add_cancel]
  rw [hq, BitVec.add_assoc, ← BitVec.ofNat_add]
  exact h _ (by omega)

theorem Keeps.load32 (h : Keeps mem mem' a 4) : load32 mem' a = load32 mem a := by
  have h0 := h 0 (by omega)
  rw [show BitVec.ofNat 32 0 = 0#32 from rfl, BitVec.add_zero] at h0
  have h1 : mem' (a + 1#32) = mem (a + 1#32) := h 1 (by omega)
  have h2 : mem' (a + 2#32) = mem (a + 2#32) := h 2 (by omega)
  have h3 : mem' (a + 3#32) = mem (a + 3#32) := h 3 (by omega)
  rw [WordStack.load32, WordStack.load32, h0, h1, h2, h3]

theorem Disjoint.outside (h : Disjoint p n q k) {i : ℕ} (hi : i < k) :
    n ≤ (q + BitVec.ofNat 32 i - p).toNat := by
  obtain ⟨hnear, hfar⟩ := h
  bv_omega

theorem store32_keeps (h : Disjoint a 4 p n) (mem : Address → UInt8) (v : BitVec 32) :
    Keeps mem (store32 mem a v) p n := fun _ hi => write_of_ge (h.outside hi)

theorem Words.keeps (h : Words mem a ws) (hkeeps : Keeps mem mem' a (4 * ws.length)) :
    Words mem' a ws := by
  induction ws generalizing a with
  | nil => trivial
  | cons w ws ih =>
    rw [List.length_cons] at hkeeps
    refine ⟨?_, ih h.2 ?_⟩
    · rw [← h.1]
      exact (hkeeps.part (by rw [BitVec.sub_self, BitVec.toNat_zero]; omega)).load32
    · refine hkeeps.part ?_
      rw [BitVec.add_comm, BitVec.add_sub_cancel, show (4#32 : Address).toNat = 4 from rfl]
      omega

/-- The words `ws` have been pushed, the last of them first, where the top of the stack
was at `b`; nothing else has been written. -/
structure Pushed (mem : Address → UInt8) (b : Address) (ws : List (BitVec 32))
    (mem' : Address → UInt8) : Prop where
  words : Words mem' (b - BitVec.ofNat 32 (4 * ws.length)) ws
  outside : ∀ a, 4 * ws.length ≤ (a - (b - BitVec.ofNat 32 (4 * ws.length))).toNat → mem' a = mem a

theorem Pushed.nil (mem : Address → UInt8) (b : Address) : Pushed mem b [] mem :=
  ⟨trivial, fun _ _ => rfl⟩

theorem Pushed.keeps (h : Pushed mem b ws mem')
    (hapart : Disjoint (b - BitVec.ofNat 32 (4 * ws.length)) (4 * ws.length) p n) :
    Keeps mem mem' p n := fun _ hi => h.outside _ (hapart.outside hi)

theorem Pushed.push (h : Pushed mem b ws mem') (hroom : 4 * (ws.length + 1) ≤ 2 ^ 32)
    (v : BitVec 32) :
    Pushed mem b (v :: ws) (store32 mem' (b - BitVec.ofNat 32 (4 * ws.length) - 4#32) v) := by
  have hend : b - BitVec.ofNat 32 (4 * (v :: ws).length) =
      b - BitVec.ofNat 32 (4 * ws.length) - 4#32 := by
    rw [List.length_cons, Nat.mul_succ, BitVec.ofNat_add, BitVec.sub_sub]
  obtain ⟨hwords, houtside⟩ := h
  generalize htop : b - BitVec.ofNat 32 (4 * ws.length) = top at hwords houtside hend ⊢
  have hapart : Disjoint (top - 4#32) 4 top (4 * ws.length) := by
    constructor
    · bv_omega
    · bv_omega
  refine ⟨?_, fun a ha => ?_⟩
  · rw [hend]
    refine ⟨load32_store32, ?_⟩
    rw [BitVec.sub_add_cancel]
    exact hwords.keeps (store32_keeps hapart mem' v)
  · rw [hend, List.length_cons] at ha
    rw [← houtside a (by bv_omega)]
    exact write_of_ge (by omega)

end Memory

/-- The registers of the processor, and the memory. -/
structure Cpu where
  eax : BitVec 32
  ebx : BitVec 32
  ecx : BitVec 32
  edx : BitVec 32
  esi : BitVec 32
  edi : BitVec 32
  ebp : BitVec 32
  esp : BitVec 32
  eip : BitVec 32
  eflags : BitVec 32
  cs : BitVec 32
  ss : BitVec 32
  mem : Address → UInt8

namespace Cpu

variable (m : Cpu)

def push (v : BitVec 32) : Cpu :=
  { m with esp := m.esp - 4#32, mem := store32 m.mem (m.esp - 4#32) v }

def top : BitVec 32 := load32 m.mem m.esp

def drop : Cpu := { m with esp := m.esp + 4#32 }

/-- `m'` is the state after a function has returned that was entered in `m`: it has taken
the return address, and the registers that belong to its caller are as they were. -/
structure Returns (m' : Cpu) : Prop where
  eip : m'.eip = m.top
  esp : m'.esp = m.esp + 4#32
  ebx : m'.ebx = m.ebx
  esi : m'.esi = m.esi
  edi : m'.edi = m.edi
  ebp : m'.ebp = m.ebp
  cs : m'.cs = m.cs
  ss : m'.ss = m.ss

/-- What the stack holds, from the top on. -/
def Holds (ws : List (BitVec 32)) : Prop := Words m.mem m.esp ws

/-- The words `ws` have been pushed where the top of the stack was at `b`. -/
structure Pushes (mem : Address → UInt8) (b : Address) (ws : List (BitVec 32)) : Prop where
  esp : m.esp = b - BitVec.ofNat 32 (4 * ws.length)
  mem : Pushed mem b ws m.mem

/-- The registers of a program but for the stack pointer are the same. -/
structure SameRegs (k : Cpu) : Prop where
  eax : k.eax = m.eax
  ebx : k.ebx = m.ebx
  ecx : k.ecx = m.ecx
  edx : k.edx = m.edx
  esi : k.esi = m.esi
  edi : k.edi = m.edi
  ebp : k.ebp = m.ebp
  ss : k.ss = m.ss

variable {m} {k l : Cpu} {mem : Address → UInt8} {b : Address} {w : BitVec 32}
  {ws : List (BitVec 32)}

theorem SameRegs.trans (h : m.SameRegs k) (h' : k.SameRegs l) : m.SameRegs l :=
  ⟨h'.eax.trans h.eax, h'.ebx.trans h.ebx, h'.ecx.trans h.ecx, h'.edx.trans h.edx,
    h'.esi.trans h.esi, h'.edi.trans h.edi, h'.ebp.trans h.ebp, h'.ss.trans h.ss⟩

theorem SameRegs.refl (m : Cpu) : m.SameRegs m := ⟨rfl, rfl, rfl, rfl, rfl, rfl, rfl, rfl⟩

theorem SameRegs.push (h : m.SameRegs k) (v : BitVec 32) : m.SameRegs (k.push v) :=
  h.trans ⟨rfl, rfl, rfl, rfl, rfl, rfl, rfl, rfl⟩

theorem Holds.top (h : m.Holds (w :: ws)) : m.top = w := h.1

theorem Holds.drop (h : m.Holds (w :: ws)) : m.drop.Holds ws := h.2

theorem pushes_nil (m : Cpu) : m.Pushes m.mem m.esp [] := ⟨(BitVec.sub_zero _).symm, .nil _ _⟩

theorem Pushes.push (h : m.Pushes mem b ws) (hroom : 4 * (ws.length + 1) ≤ 2 ^ 32)
    (v : BitVec 32) : (m.push v).Pushes mem b (v :: ws) := by
  refine ⟨?_, ?_⟩
  · rw [List.length_cons, Nat.mul_succ, BitVec.ofNat_add, ← BitVec.sub_sub, ← h.esp]
    rfl
  · have hmem := h.mem.push hroom v
    rwa [← h.esp] at hmem

theorem Pushes.holds (h : m.Pushes mem b ws) : m.Holds ws := by
  unfold Holds
  rw [h.esp]
  exact h.mem.words

end Cpu

end WordStack
