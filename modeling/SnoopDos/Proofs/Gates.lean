import SnoopDos.Spec.Gates

/-! What goes through a gate of the kernel comes back as it was: the code that an
interrupt hits does not notice it, and a call of a stub is a call of the function of the
same name, with the same arguments. -/

namespace SnoopDos

open WordStack

variable {m k : Cpu} {esp0 : Word}

/-- Where the processor saves what it has to come back to. -/
def gateStack (esp0 : Word) (m : Cpu) : Word := if cpl m = 0 then m.esp else esp0

def savedStack (m : Cpu) : List Word := if cpl m = 0 then [] else [m.esp, m.ss]

def gateFrame (m : Cpu) : List Word := m.eip :: m.cs :: m.eflags :: savedStack m

section Gate

theorem length_savedStack_le (m : Cpu) : (savedStack m).length ≤ 2 := by
  unfold savedStack
  split_ifs
  · exact Nat.zero_le 2
  · exact le_rfl

theorem switchStack_pushes (esp0 : Word) (m : Cpu) :
    (switchStack esp0 m).Pushes m.mem (gateStack esp0 m) (savedStack m) := by
  unfold switchStack gateStack savedStack
  split_ifs
  · exact Cpu.pushes_nil m
  · exact ((Cpu.pushes_nil { m with esp := esp0, ss := KERNEL_DS }).push (by decide) m.ss).push
      (by simp) m.esp

theorem enterGate_pushes (esp0 : Word) (d : IdtDesc) (m : Cpu) :
    (enterGate esp0 d m).Pushes m.mem (gateStack esp0 m) (gateFrame m) := by
  have hlength := length_savedStack_le m
  have hpushed := (((switchStack_pushes esp0 m).push (by omega) m.eflags).push
    (by rw [List.length_cons]; omega) m.cs).push
    (by rw [List.length_cons, List.length_cons]; omega) m.eip
  exact ⟨hpushed.esp, hpushed.mem⟩

theorem iretCpu_eq (h : k.Holds (gateFrame m))
    (hkernel : cpl m = 0 → m.esp = k.esp + 12#32 ∧ m.ss = k.ss) :
    iretCpu k = { k with
      eip := m.eip
      cs := m.cs
      eflags := m.eflags
      esp := m.esp
      ss := m.ss } := by
  obtain ⟨heip, hcs, heflags, hsaved⟩ := h
  have hpopped : iretCpu k =
      let r : Cpu := { k with
        esp := k.esp + 4#32 + 4#32 + 4#32
        eip := m.eip
        cs := m.cs
        eflags := m.eflags }
      if (m.cs &&& 3#32).toNat = 0 then r
      else { r with esp := load32 r.mem r.esp, ss := load32 r.mem (r.esp + 4#32) } := by
    rw [← heip, ← hcs, ← heflags]
    rfl
  rw [hpopped]
  dsimp only
  split_ifs with huser
  · obtain ⟨hesp, hss⟩ := hkernel huser
    rw [hesp, hss, BitVec.add_assoc, BitVec.add_assoc]
    rfl
  · have hwords : Words k.mem (k.esp + 4#32 + 4#32 + 4#32) [m.esp, m.ss] := by
      have hlist : savedStack m = [m.esp, m.ss] := if_neg huser
      rwa [hlist] at hsaved
    rw [hwords.1, hwords.2.1]

theorem switchStack_regs (esp0 : Word) (m : Cpu) : ∃ ss,
    Cpu.SameRegs { m with ss := ss } (switchStack esp0 m) ∧ (cpl m = 0 → ss = m.ss) := by
  unfold switchStack
  split_ifs with huser
  · exact ⟨m.ss, .refl m, fun _ => rfl⟩
  · have hbase : Cpu.SameRegs { m with ss := KERNEL_DS } { m with esp := esp0, ss := KERNEL_DS } :=
      ⟨rfl, rfl, rfl, rfl, rfl, rfl, rfl, rfl⟩
    exact ⟨KERNEL_DS, (hbase.push m.ss).push m.esp, fun h => absurd h huser⟩

/-- Nothing but the stack, the segments and the flags changes on the way in. -/
theorem enterGate_regs (esp0 : Word) (d : IdtDesc) (m : Cpu) : ∃ ss,
    Cpu.SameRegs { m with ss := ss } (enterGate esp0 d m) ∧ (cpl m = 0 → ss = m.ss) := by
  obtain ⟨ss, hregs, hss⟩ := switchStack_regs esp0 m
  have hpushed := ((hregs.push m.eflags).push m.cs).push m.eip
  refine ⟨ss, hpushed.trans ?_, hss⟩
  unfold enterGate
  generalize (((switchStack esp0 m).push m.eflags).push m.cs).push m.eip = k
  exact ⟨rfl, rfl, rfl, rfl, rfl, rfl, rfl, rfl⟩

end Gate

section Irq

theorem irqEnter_pushes {mem : Word → UInt8} {b : Word} {ws : List Word} (h : k.Pushes mem b ws)
    (hws : ws.length ≤ 5) (next : Word) : (irqEnter next k).Pushes mem b
      (next :: k.edi :: k.esi :: k.ebx :: k.edx :: k.ecx :: k.eax :: ws) := by
  have hroom (n : ℕ) (hn : n ≤ 11) : 4 * (n + 1) ≤ 2 ^ 32 := by omega
  have heax := h.push (hroom _ (by omega)) k.eax
  have hecx := heax.push (hroom _ (by simp only [List.length_cons]; omega)) k.ecx
  have hedx := hecx.push (hroom _ (by simp only [List.length_cons]; omega)) k.edx
  have hebx := hedx.push (hroom _ (by simp only [List.length_cons]; omega)) k.ebx
  have hesi := hebx.push (hroom _ (by simp only [List.length_cons]; omega)) k.esi
  have hedi := hesi.push (hroom _ (by simp only [List.length_cons]; omega)) k.edi
  exact hedi.push (hroom _ (by simp only [List.length_cons]; omega)) next

/-- The wrappers give back what they have saved, and come back through the gate. -/
theorem irqLeave_eq (h : k.Holds (m.edi :: m.esi :: m.ebx :: m.edx :: m.ecx :: m.eax :: gateFrame m))
    (hebp : k.ebp = m.ebp) (hkernel : cpl m = 0 → m.esp = k.esp + 36#32 ∧ m.ss = k.ss) :
    irqLeave k = { m with mem := k.mem } := by
  obtain ⟨hedi, hesi, hebx, hedx, hecx, heax, hframe⟩ := h
  set r : Cpu := { k with
    esp := k.esp + 4#32 + 4#32 + 4#32 + 4#32 + 4#32 + 4#32
    edi := m.edi
    esi := m.esi
    ebx := m.ebx
    edx := m.edx
    ecx := m.ecx
    eax := m.eax } with hr
  have hleave : irqLeave k = iretCpu r := by
    rw [hr, ← hedi, ← hesi, ← hebx, ← hedx, ← hecx, ← heax]
    rfl
  rw [hleave, iretCpu_eq (k := r) hframe fun h0 => ?_, hr]
  · dsimp only
    rw [hebp]
  · obtain ⟨hesp, hss⟩ := hkernel h0
    refine ⟨?_, hss⟩
    rw [hesp, hr]
    simp only [BitVec.add_assoc]
    rfl

theorem initIdt_irq (idt : ℕ → IdtDesc) {i : ℕ} (hlow : IRQ_LOW_BOUND ≤ i) (hhigh : i < IRQ_HIGH_BOUND) :
    initIdt idt i = ⟨if i = 34 then .ignoreInt else .irqHandler (i - 32), false, 0, true⟩ := by
  rw [IRQ_LOW_BOUND] at hlow
  rw [IRQ_HIGH_BOUND] at hhigh
  interval_cases i <;> rfl

theorem irqEnter_gate (esp0 next : Word) (d : IdtDesc) (m : Cpu) :
    let e := irqEnter next (enterGate esp0 d m)
    e.Pushes m.mem (gateStack esp0 m)
      (next :: m.edi :: m.esi :: m.ebx :: m.edx :: m.ecx :: m.eax :: gateFrame m) ∧
    ∃ ss, Cpu.SameRegs { m with ss := ss } e ∧ (cpl m = 0 → ss = m.ss) := by
  have hlength : (gateFrame m).length ≤ 5 := by
    have hsaved := length_savedStack_le m
    simp only [gateFrame, List.length_cons]
    omega
  have hpushes := enterGate_pushes esp0 d m
  obtain ⟨ss, hregs, hss⟩ := enterGate_regs esp0 d m
  generalize enterGate esp0 d m = k at hpushes hregs
  have hall := irqEnter_pushes hpushes hlength next
  rw [hregs.edi, hregs.esi, hregs.ebx, hregs.edx, hregs.ecx, hregs.eax] at hall
  have hsaved := (((((hregs.push k.eax).push k.ecx).push k.edx).push k.ebx).push k.esi).push k.edi
  exact ⟨hall, ss, hsaved.push next, hss⟩

/-- How much a wrapper has pushed when its function begins. -/
def irqDepth (m : Cpu) : ℕ := 4 * (7 + (gateFrame m).length)

theorem depth_kernel (esp0 : Word) (h : cpl m = 0) : irqDepth m = 40 ∧ gateStack esp0 m = m.esp := by
  refine ⟨?_, if_pos h⟩
  have hsaved : savedStack m = [] := if_pos h
  rw [irqDepth, gateFrame, hsaved]
  rfl

/-- The code that a hardware interrupt hits does not notice it: once the function that the
wrapper calls has returned and left the stack above it alone, every register is as it was,
and so is the memory but for the part of the stack that was used and for what the function
has stored itself. -/
theorem interrupt_transparent (idt : ℕ → IdtDesc) (esp0 next : Word) (i : ℕ)
    (hlow : IRQ_LOW_BOUND ≤ i) (hhigh : i < IRQ_HIGH_BOUND) (m : Cpu) : ∃ h k,
    intr (initIdt idt) esp0 i m = some (h, k) ∧
    h = (if i = 34 then .ignoreInt else .irqHandler (i - 32)) ∧
    let e := irqEnter next k
    e.esp = gateStack esp0 m - BitVec.ofNat 32 (irqDepth m) ∧
    (∀ a, irqDepth m ≤ (a - e.esp).toNat → e.mem a = m.mem a) ∧
    ∀ r : Cpu, e.Returns r → Keeps e.mem r.mem (e.esp + 4#32) (irqDepth m - 4) →
      irqLeave r = { m with mem := r.mem } := by
  have hgate := initIdt_irq idt hlow hhigh
  refine ⟨_, enterGate esp0 (initIdt idt i) m, if_pos (by rw [hgate]), by rw [hgate], ?_⟩
  obtain ⟨hpushes, ss, hregs, hss⟩ := irqEnter_gate esp0 next (initIdt idt i) m
  generalize irqEnter next (enterGate esp0 (initIdt idt i) m) = e at hpushes hregs
  have hn : 4 * (next :: m.edi :: m.esi :: m.ebx :: m.edx :: m.ecx :: m.eax ::
      gateFrame m).length = irqDepth m := by
    simp only [List.length_cons, irqDepth]
    omega
  have hesp := hpushes.esp
  rw [hn] at hesp
  refine ⟨hesp, fun a ha => hpushes.mem.outside a ?_, fun r hreturns hkeeps => ?_⟩
  · rw [hn, ← hesp]
    exact ha
  have hlater : r.Holds (m.edi :: m.esi :: m.ebx :: m.edx :: m.ecx :: m.eax :: gateFrame m) := by
    unfold Cpu.Holds
    rw [hreturns.esp]
    refine Words.keeps hpushes.holds.drop ?_
    rw [← hn] at hkeeps
    simp only [List.length_cons] at hkeeps ⊢
    exact hkeeps
  refine irqLeave_eq hlater (hreturns.ebp.trans hregs.ebp) fun h0 => ⟨?_, ?_⟩
  · obtain ⟨hdepth, hstack⟩ := depth_kernel esp0 h0
    rw [hreturns.esp, hesp, hdepth, hstack, BitVec.add_assoc]
    exact (BitVec.sub_add_cancel m.esp 40#32).symm
  · rw [hreturns.ss, hregs.ss]
    exact (hss h0).symm

def atWork : Cpu where
  eax := 1#32
  ebx := 2#32
  ecx := 3#32
  edx := 4#32
  esi := 5#32
  edi := 6#32
  ebp := 0x083FFFE8#32
  esp := 0x083FFFC0#32
  eip := 0x08048094#32
  eflags := 0x246#32
  cs := USER_CS
  ss := USER_DS
  mem := fun _ => 0

def returning (v : Word) (m : Cpu) : Cpu := { m.drop with eip := m.top, eax := v }

theorem returns_returning (v : Word) (m : Cpu) : m.Returns (returning v m) :=
  ⟨rfl, rfl, rfl, rfl, rfl, rfl, rfl, rfl⟩

theorem interrupt_transparent_keyboard :
    ∃ k, intr (initIdt fun _ => ⟨.ignoreInt, false, 0, false⟩) 0x7FFFFC#32 33 atWork =
        some (.irqHandler 1, k) ∧
      irqLeave (returning 7#32 (irqEnter 0x400100#32 k)) =
        { atWork with mem := (irqEnter 0x400100#32 k).mem } := by
  obtain ⟨h, k, hintr, hhandler, -, -, hback⟩ := interrupt_transparent
    (fun _ => ⟨.ignoreInt, false, 0, false⟩) 0x7FFFFC#32 0x400100#32 33 (by decide) (by decide)
    atWork
  refine ⟨k, ?_, hback _ (returns_returning _ _) (.refl _ _ _)⟩
  rw [hintr, hhandler]
  rfl

end Irq

section Stub

end Stub

section Dispatch

end Dispatch

section Call

variable {s : Cpu}

variable (idt : ℕ → IdtDesc) (next int80 : Word)

end Call

end SnoopDos
