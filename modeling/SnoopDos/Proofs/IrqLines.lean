import Mathlib.Tactic
import SnoopDos.Spec.I8259

/-! The sixteen interrupt lines over the two controllers: which of them are masked and
which are in service after any calls of `enable_irq`, `disable_irq` and `send_eoi`. -/

namespace SnoopDos

/-- What happens to a line: a call that names it, or the processor takes its interrupt. -/
inductive IrqEvent
  | enable (n : Fin 16)
  | disable (n : Fin 16)
  | sendEoi (n : Fin 16)
  | acknowledge (n : Fin 16)

namespace Pic

variable (cmds : I8259Commands) (p : Pic)

/-- The line is masked on its controller. -/
def Masked (n : Fin 16) : Prop :=
  if n.val < 8 then p.master.imr.toBitVec.getLsbD n.val = true
  else p.slave.imr.toBitVec.getLsbD (n.val - 8) = true

/-- The line is in service on its controller. -/
def InService (n : Fin 16) : Prop :=
  if n.val < 8 then n.val ∈ p.master.inService else n.val - 8 ∈ p.slave.inService

/-- An interrupt of the second controller comes through line 2 of the first. -/
def acknowledge (n : Fin 16) : Pic :=
  if n.val < 8 then
    { p with master := { p.master with inService := insert n.val p.master.inService } }
  else
    { p with
      slave := { p.slave with inService := insert (n.val - 8) p.slave.inService }
      master := { p.master with inService := insert 2 p.master.inService } }

def step : IrqEvent → Pic
  | .enable n => p.enableIrq cmds (BitVec.ofNat 32 n)
  | .disable n => p.disableIrq cmds (BitVec.ofNat 32 n)
  | .sendEoi n => p.sendEoi cmds (BitVec.ofNat 32 n)
  | .acknowledge n => p.acknowledge n

/-- After `i8259_init`, with any lines in service. -/
def initialised (inMaster inSlave : Finset ℕ) : Pic :=
  let q := p.i8259Init cmds
  { q with
    master := { q.master with inService := inMaster }
    slave := { q.slave with inService := inSlave } }

def run (es : List IrqEvent) : Pic := es.foldl (fun p e => p.step cmds e) p

end Pic

/-- Whether the last call so far that switched line `n` disabled it. -/
def IrqEvent.switch (n : Fin 16) (last : Option Bool) : IrqEvent → Option Bool
  | .enable m => if m = n then some false else last
  | .disable m => if m = n then some true else last
  | .sendEoi _ => last
  | .acknowledge _ => last

/-- `send_eoi` of line `n` clears its bit and that of the second controller's line. -/
structure EoiClears (p p' : Pic) (n : Fin 16) : Prop where
  inService : ∀ m, p'.InService m ↔ p.InService m ∧ m ≠ n ∧ ¬ (8 ≤ n ∧ m = 2)
  masterMask : p'.masterMask = p.masterMask ∧ p'.master.imr = p.master.imr
  slaveMask : p'.slaveMask = p.slaveMask ∧ p'.slave.imr = p.slave.imr

/-- After the run `es` the kernel's masks are those of the controllers, every line is
masked as it was last switched, and a last end of interrupt has cleared what it should. -/
structure IrqBooks (cmds : I8259Commands) (p : Pic) (es : List IrqEvent) : Prop where
  master : (p.run cmds es).masterMask = (p.run cmds es).master.imr
  slave : (p.run cmds es).slaveMask = (p.run cmds es).slave.imr
  masked : ∀ n, (p.run cmds es).Masked n ↔
    (es.foldl (IrqEvent.switch n) none).getD (decide (n ≠ 2)) = true
  eoi : ∀ es' n, es = es' ++ [.sendEoi n] → EoiClears (p.run cmds es') (p.run cmds es) n

section Masks

theorem getLsbD_one_shiftLeft {i j : ℕ} (hi : i < 32) : (1#32 <<< j).getLsbD i = decide (i = j) := by
  rw [BitVec.getLsbD_shiftLeft, BitVec.getLsbD_one]
  rcases lt_trichotomy i j with hlt | rfl | hgt
  · simp [hlt, hlt.ne]
  · simp [hi]
  · simp [hi, hgt.ne', not_lt.mpr hgt.le, Nat.sub_ne_zero_of_lt hgt]

/-- The new mask has `v` at the bit of the line, and the old mask's other bits. -/
def SetsBit (newMask : Word → Word → Word) (v : Bool) : Prop :=
  ∀ (imr : UInt8) (i j : ℕ), i < 8 →
    (lowByte (newMask (imr.toBitVec.setWidth 32) (1#32 <<< j))).toBitVec.getLsbD i =
      if i = j then v else imr.toBitVec.getLsbD i

theorem enable_setsBit : SetsBit (fun mask bit => mask &&& ~~~bit) false := by
  intro imr i j hi
  have h32 : i < 32 := by omega
  rw [lowByte, BitVec.getLsbD_setWidth, BitVec.getLsbD_and, BitVec.getLsbD_not,
    getLsbD_one_shiftLeft h32, BitVec.getLsbD_setWidth]
  split_ifs with heq
  · simp [heq]
  · simp [hi, h32, heq]

theorem disable_setsBit : SetsBit (fun mask bit => mask ||| bit) true := by
  intro imr i j hi
  have h32 : i < 32 := by omega
  rw [lowByte, BitVec.getLsbD_setWidth, BitVec.getLsbD_or, getLsbD_one_shiftLeft h32,
    BitVec.getLsbD_setWidth]
  split_ifs with heq
  · simp [heq]
    omega
  · simp [hi, h32, heq]

end Masks

section Calls

variable {cmds : I8259Commands} {p : Pic}

/-- Both controllers are initialized, and the kernel knows their masks. -/
structure Pic.Synced (p : Pic) : Prop where
  masterReady : p.master.awaited = 0
  slaveReady : p.slave.awaited = 0
  master : p.masterMask = p.master.imr
  slave : p.slaveMask = p.slave.imr

theorem toNat_line (n : Fin 16) : (BitVec.ofNat 32 n.val).toNat = n.val := by
  rw [BitVec.toNat_ofNat]
  omega

theorem dataPort_line (n : Fin 16) : Pic.dataPort (BitVec.ofNat 32 n.val) =
    if n.val < 8 then MASTER_8259_PORT_DATA else SLAVE_8259_PORT_DATA := by
  rw [Pic.dataPort, toNat_line]
  simp only [NUM_INTERRUPTS_PER_PIC, BitVec.toNat_ofNat]
  split_ifs <;> first | rfl | omega

theorem writeData_ready {c : I8259} (h : c.awaited = 0) (b : UInt8) :
    c.writeData b = { c with imr := b } := if_pos h

theorem outb_masterData (b : UInt8) :
    p.outb cmds b MASTER_8259_PORT_DATA = { p with master := p.master.writeData b } := rfl

theorem outb_slaveData (b : UInt8) :
    p.outb cmds b SLAVE_8259_PORT_DATA = { p with slave := p.slave.writeData b } := rfl

theorem switchIrq_low {newMask : Word → Word → Word} {n : Fin 16} (hn : n.val < 8)
    (h : p.Synced) :
    let mask := lowByte (newMask (p.master.imr.toBitVec.setWidth 32) (1#32 <<< n.val))
    p.switchIrq cmds newMask (BitVec.ofNat 32 n.val) =
      { p with masterMask := mask, master := { p.master with imr := mask } } := by
  intro mask
  have hport : Pic.dataPort (BitVec.ofNat 32 n.val) = MASTER_8259_PORT_DATA := by
    rw [dataPort_line, if_pos hn]
  have hne : MASTER_8259_PORT_DATA ≠ SLAVE_8259_PORT_DATA := by decide
  rw [Pic.switchIrq, hport]
  simp only [if_neg hne, toNat_line, outb_masterData, writeData_ready h.masterReady]
  rfl

theorem switchIrq_high {newMask : Word → Word → Word} {n : Fin 16} (hn : ¬ n.val < 8)
    (h : p.Synced) :
    let mask := lowByte (newMask (p.slave.imr.toBitVec.setWidth 32) (1#32 <<< (n.val - 8)))
    p.switchIrq cmds newMask (BitVec.ofNat 32 n.val) =
      { p with slaveMask := mask, slave := { p.slave with imr := mask } } := by
  intro mask
  have hport : Pic.dataPort (BitVec.ofNat 32 n.val) = SLAVE_8259_PORT_DATA := by
    rw [dataPort_line, if_neg hn]
  have hlevel : (BitVec.ofNat 32 n.val - NUM_INTERRUPTS_PER_PIC).toNat = n.val - 8 := by
    rw [BitVec.toNat_sub, toNat_line]
    simp only [NUM_INTERRUPTS_PER_PIC, BitVec.toNat_ofNat]
    omega
  rw [Pic.switchIrq, hport]
  simp only [if_true, hlevel, outb_slaveData, writeData_ready h.slaveReady]
  rfl

variable (cmds) in
/-- `enable_irq` and `disable_irq` set the mask bit of their line and nothing else. -/
theorem switchIrq_spec {newMask : Word → Word → Word} {v : Bool} (hbit : SetsBit newMask v)
    (n : Fin 16) (h : p.Synced) :
    let p' := p.switchIrq cmds newMask (BitVec.ofNat 32 n.val)
    p'.Synced ∧ ∀ m, p'.Masked m ↔ if n = m then v = true else p.Masked m := by
  intro p'
  by_cases hn : n.val < 8
  · have hp' : p' = _ := switchIrq_low hn h
    rw [hp']
    refine ⟨⟨h.masterReady, h.slaveReady, rfl, h.slave⟩, fun m => ?_⟩
    unfold Pic.Masked
    by_cases hm : m.val < 8
    · simp only [if_pos hm, hbit _ _ _ hm]
      rcases eq_or_ne n m with rfl | hne
      · simp
      · have hval : m.val ≠ n.val := fun heq => hne (Fin.ext heq.symm)
        simp [hne, hval]
    · have hne : n ≠ m := fun heq => hm (heq ▸ hn)
      simp only [if_neg hm, if_neg hne]
  · have hp' : p' = _ := switchIrq_high hn h
    rw [hp']
    refine ⟨⟨h.masterReady, h.slaveReady, h.master, rfl⟩, fun m => ?_⟩
    unfold Pic.Masked
    by_cases hm : m.val < 8
    · have hne : n ≠ m := fun heq => hn (heq ▸ hm)
      simp only [if_pos hm, if_neg hne]
    · simp only [if_neg hm, hbit _ _ _ (by omega : m.val - 8 < 8)]
      rcases eq_or_ne n m with rfl | hne
      · simp
      · have hval : m.val - 8 ≠ n.val - 8 := fun heq => hne (Fin.ext (by omega))
        simp [hne, hval]

end Calls

section Eoi

variable {cmds : I8259Commands} {p : Pic}

theorem eoi_command : ∀ n : Fin 16, n.val < 8 →
    lowByte (EOI ||| BitVec.ofNat 32 n.val) &&& 0x10 = 0 ∧
      lowByte (EOI ||| BitVec.ofNat 32 n.val) &&& 0xF8 = 0x60 ∧
      (lowByte (EOI ||| BitVec.ofNat 32 n.val) &&& 0x07).toNat = n.val := by
  decide

variable (cmds) in
theorem writeCommand_eoi (c : I8259) (n : Fin 16) (hn : n.val < 8) :
    c.writeCommand cmds (lowByte (EOI ||| BitVec.ofNat 32 n.val)) =
      { c with inService := c.inService.erase n.val } := by
  obtain ⟨hicw, hocw, hlevel⟩ := eoi_command n hn
  rw [I8259.writeCommand, if_neg (not_not.mpr hicw), if_pos hocw, hlevel]

theorem sendEoi_low (n : Fin 16) (hn : n.val < 8) : p.sendEoi cmds (BitVec.ofNat 32 n.val) =
    { p with master := { p.master with inService := p.master.inService.erase n.val } } := by
  have hlow : ¬ NUM_INTERRUPTS_PER_PIC.toNat ≤ (BitVec.ofNat 32 n.val).toNat := by
    rw [toNat_line]
    simp only [NUM_INTERRUPTS_PER_PIC, BitVec.toNat_ofNat]
    omega
  rw [Pic.sendEoi, if_neg hlow, ← writeCommand_eoi cmds p.master n hn]
  rfl

theorem sendEoi_eight : p.sendEoi cmds (BitVec.ofNat 32 8) =
    { p with
      slave := { p.slave with inService := p.slave.inService.erase 0 }
      master := { p.master with inService := p.master.inService.erase 2 } } := by
  change { p with
    slave := p.slave.writeCommand cmds (lowByte (EOI ||| BitVec.ofNat 32 (0 : Fin 16).val))
    master := p.master.writeCommand cmds (lowByte (EOI ||| BitVec.ofNat 32 (2 : Fin 16).val)) } = _
  rw [writeCommand_eoi cmds p.slave 0 (by decide), writeCommand_eoi cmds p.master 2 (by decide)]
  rfl

theorem sendEoi_clears (n : Fin 16) (hn : n ≤ 8) :
    EoiClears p (p.sendEoi cmds (BitVec.ofNat 32 n.val)) n := by
  rcases hn.lt_or_eq with hlt | rfl
  · rw [sendEoi_low n hlt]
    refine ⟨fun m => ?_, ⟨rfl, rfl⟩, ⟨rfl, rfl⟩⟩
    have hnot : ¬ 8 ≤ n := not_le.mpr hlt
    unfold Pic.InService
    split_ifs with hm
    · rw [Finset.mem_erase, ne_eq, Fin.val_inj]
      tauto
    · have hne : m ≠ n := fun heq => hm (heq ▸ hlt)
      tauto
  · have height : p.sendEoi cmds (BitVec.ofNat 32 (8 : Fin 16).val) = _ := sendEoi_eight
    rw [height]
    refine ⟨fun m => ?_, ⟨rfl, rfl⟩, ⟨rfl, rfl⟩⟩
    unfold Pic.InService
    split_ifs with hm
    · have hne : m ≠ 8 := fun heq => absurd (heq ▸ hm) (by decide)
      have htwo : m.val = 2 ↔ m = 2 := Fin.val_inj (b := (2 : Fin 16))
      rw [Finset.mem_erase, ne_eq, htwo]
      tauto
    · have hne : m ≠ 2 := fun heq => hm (heq ▸ by decide)
      have hzero : m.val - 8 = 0 ↔ m = 8 := by
        rw [← Fin.val_inj]
        omega
      rw [Finset.mem_erase, ne_eq, hzero]
      tauto

end Eoi

section Runs

variable {cmds : I8259Commands} {p : Pic}

/-- `send_eoi` is called for a line whose level it computes right. -/
def IrqEvent.Levelled : IrqEvent → Prop
  | .sendEoi n => n ≤ 8
  | .enable _ => True
  | .disable _ => True
  | .acknowledge _ => True

variable (cmds) in
theorem sendEoi_keeps (h : p.Synced) (n : Fin 16) (hn : n ≤ 8) :
    let p' := p.sendEoi cmds (BitVec.ofNat 32 n.val)
    p'.Synced ∧ ∀ m, p'.Masked m ↔ p.Masked m := by
  rcases hn.lt_or_eq with hlt | rfl
  · rw [sendEoi_low n hlt]
    exact ⟨⟨h.masterReady, h.slaveReady, h.master, h.slave⟩, fun m => Iff.rfl⟩
  · have height : p.sendEoi cmds (BitVec.ofNat 32 (8 : Fin 16).val) = _ := sendEoi_eight
    rw [height]
    exact ⟨⟨h.masterReady, h.slaveReady, h.master, h.slave⟩, fun m => Iff.rfl⟩

theorem acknowledge_keeps (h : p.Synced) (n : Fin 16) :
    (p.acknowledge n).Synced ∧ ∀ m, (p.acknowledge n).Masked m ↔ p.Masked m := by
  unfold Pic.acknowledge
  split_ifs
  · exact ⟨⟨h.masterReady, h.slaveReady, h.master, h.slave⟩, fun m => Iff.rfl⟩
  · exact ⟨⟨h.masterReady, h.slaveReady, h.master, h.slave⟩, fun m => Iff.rfl⟩

theorem step_books (h : p.Synced) {last : Fin 16 → Option Bool}
    (hmasked : ∀ m, p.Masked m ↔ (last m).getD (decide (m ≠ 2)) = true) (e : IrqEvent)
    (he : e.Levelled) :
    (p.step cmds e).Synced ∧ ∀ m, (p.step cmds e).Masked m ↔
      (e.switch m (last m)).getD (decide (m ≠ 2)) = true := by
  cases e with
  | enable n =>
    obtain ⟨hsynced, hbits⟩ := switchIrq_spec cmds enable_setsBit n h
    refine ⟨hsynced, fun m => (hbits m).trans ?_⟩
    rw [IrqEvent.switch]
    split_ifs
    · exact iff_of_false not_false Bool.false_ne_true
    · exact hmasked m
  | disable n =>
    obtain ⟨hsynced, hbits⟩ := switchIrq_spec cmds disable_setsBit n h
    refine ⟨hsynced, fun m => (hbits m).trans ?_⟩
    rw [IrqEvent.switch]
    split_ifs
    · rfl
    · exact hmasked m
  | sendEoi n =>
    obtain ⟨hsynced, hbits⟩ := sendEoi_keeps cmds h n he
    exact ⟨hsynced, fun m => (hbits m).trans (hmasked m)⟩
  | acknowledge n =>
    obtain ⟨hsynced, hbits⟩ := acknowledge_keeps h n
    exact ⟨hsynced, fun m => (hbits m).trans (hmasked m)⟩

variable (cmds p) in
/-- Whatever state the controllers were in, they are ready, with all lines masked but
line 2. -/
theorem initialised_books (inMaster inSlave : Finset ℕ) :
    (p.initialised cmds inMaster inSlave).Synced ∧
      ∀ m, (p.initialised cmds inMaster inSlave).Masked m ↔ decide (m ≠ 2) = true := by
  have hmaster : (p.initialised cmds inMaster inSlave).master.imr = DEFAULT_MASTER_MASK := rfl
  have hslave : (p.initialised cmds inMaster inSlave).slave.imr = DEFAULT_SLAVE_MASK := rfl
  refine ⟨⟨rfl, rfl, rfl, rfl⟩, fun m => ?_⟩
  rw [Pic.Masked, hmaster, hslave]
  revert m
  decide

theorem run_concat (es : List IrqEvent) (e : IrqEvent) :
    p.run cmds (es ++ [e]) = (p.run cmds es).step cmds e := by
  rw [Pic.run, List.foldl_append, List.foldl_cons, List.foldl_nil, Pic.run]

variable (cmds) in
theorem run_books (h : p.Synced) (hmasked : ∀ m, p.Masked m ↔ decide (m ≠ 2) = true)
    (es : List IrqEvent) (hes : ∀ e ∈ es, e.Levelled) :
    (p.run cmds es).Synced ∧ ∀ m, (p.run cmds es).Masked m ↔
      (es.foldl (IrqEvent.switch m) none).getD (decide (m ≠ 2)) = true := by
  induction es using List.reverseRecOn with
  | nil => exact ⟨h, hmasked⟩
  | append_singleton es e ih =>
    obtain ⟨hsynced, hbits⟩ := ih fun d hd => hes d (List.mem_append_left _ hd)
    rw [run_concat]
    simp only [List.foldl_append, List.foldl_cons, List.foldl_nil]
    exact step_books hsynced hbits e (hes e (List.mem_append_right _ (List.mem_singleton_self e)))

end Runs

/-- The books are right after every run whose ends of interrupt name no line of the second
controller but its first. -/
theorem irq_bookkeeping (cmds : I8259Commands) (p : Pic) (inMaster inSlave : Finset ℕ)
    (es : List IrqEvent) (hes : ∀ e ∈ es, e.Levelled) :
    IrqBooks cmds (p.initialised cmds inMaster inSlave) es := by
  obtain ⟨hinit, hmasked⟩ := initialised_books cmds p inMaster inSlave
  obtain ⟨hsynced, hbits⟩ := run_books cmds hinit hmasked es hes
  refine ⟨hsynced.master, hsynced.slave, hbits, fun es' n heq => ?_⟩
  have hn : n ≤ 8 := hes (.sendEoi n) (heq ▸ List.mem_append_right _ (List.mem_singleton_self _))
  rw [heq, run_concat]
  exact sendEoi_clears n hn

/-- Controllers that clear their in-service bits when they are initialized. -/
def plainCommands : I8259Commands := ⟨fun _ => ∅, fun _ c => c⟩

def resetPic : Pic := ⟨0, 0, ⟨0, ∅, 0⟩, ⟨0, ∅, 0⟩⟩

theorem irq_bookkeeping_rtc : IrqBooks plainCommands
    (resetPic.initialised plainCommands {2} {0}) [.enable 8, .sendEoi 8, .disable 1] :=
  irq_bookkeeping plainCommands resetPic {2} {0} [.enable 8, .sendEoi 8, .disable 1] (by
    simp [IrqEvent.Levelled])

/-- The end of interrupt of line 9 writes 0xFF to the command port, which starts an
initialization and clears the mask register. -/
theorem eoi_of_line_nine :
    ¬ IrqBooks plainCommands (resetPic.initialised plainCommands {2} {1}) [.sendEoi 9] := by
  intro h
  have hmask := h.slave
  exact absurd hmask (by decide)

end SnoopDos
