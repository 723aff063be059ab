import SnoopDos.Lib.Runs
import SnoopDos.Proofs.Descriptors
import SnoopDos.Proofs.Loading

/-! Reading a file through one descriptor, chunk by chunk. Each call delivers the
next bytes of the file and moves the position past them; reads on the other
descriptors do not interfere. -/

namespace SnoopDos

open Fs

/-- A `read_file` call on the descriptor that is followed, or a `read` on another. -/
inductive ReadCall
  | file (buf : Addr) (nbytes : Word)
  | other (stdin : ℕ → UInt8) (fd : Word) (buf : Addr) (numBytes : Word)

/-- The kernel and the user's memory, and the bytes that the followed descriptor
has returned so far. -/
structure Reading where
  kernel : Kernel
  user : UserMem
  delivered : List UInt8

/-- The bytes a caller finds in its buffer when the call returned `ret`. -/
def returned (u : UserMem) (buf : Addr) (ret : Word) : List UInt8 :=
  (List.range ret.toNat).map fun i => u.bytes (buf + BitVec.ofNat 32 i)

def readStep (fs : Fs) (fd : ℕ) (s : Reading) : ReadCall → Reading → Prop
  | .file buf nbytes, s' =>
    let r := s.kernel.readFile fs fd buf nbytes s.user
    0 ≤ nbytes.toInt ∧ s' = ⟨r.1.2, r.2, s.delivered ++ returned r.2 buf r.1.1⟩
  | .other stdin fd' buf numBytes, s' =>
    fd'.toNat ≠ fd ∧ ∃ ret,
      (s.kernel.read fs stdin fd' buf numBytes s.user).1 = some (ret, s'.kernel) ∧
      s'.user = (s.kernel.read fs stdin fd' buf numBytes s.user).2 ∧ s'.delivered = s.delivered

section Step

variable {fs : Fs} {k : Kernel} {u : UserMem} {fd : ℕ} {buf : Addr} {nbytes : Word}

theorem returned_storeBytes (bs : List UInt8) (h : bs.length < 2 ^ 32) :
    returned (UserMem.storeBytes buf bs u).2 buf (BitVec.ofNat 32 bs.length) = bs := by
  have hlen : (BitVec.ofNat 32 bs.length).toNat = bs.length := by
    rw [BitVec.toNat_ofNat, Nat.mod_eq_of_lt h]
  refine List.ext_getElem (by rw [returned, List.length_map, List.length_range, hlen]) fun i h1 h2 => ?_
  simp only [returned, List.getElem_map, List.getElem_range]
  exact UserMem.bytes_storeBytes u buf bs h.le i h2

variable (fs k u fd buf nbytes) in
theorem readFile_spec (hvalid : fs.ValidFile (getInodeNum fs (k.fds fd).inode).toNat)
    (r : (Word × Kernel) × UserMem) (hr : r = k.readFile fs fd buf nbytes u) :
    let contents := fs.contents (getInodeNum fs (k.fds fd).inode).toNat
    let position := (k.fds fd).position
    r.1.1 = BitVec.ofNat 32 (min nbytes.toNat (contents.length - position.toNat)) ∧
      returned r.2 buf r.1.1 = (contents.drop position.toNat).take nbytes.toNat ∧
      r.1.2.fds = Kernel.withPosition k.fds fd (position + r.1.1) := by
  subst hr
  set inode := getInodeNum fs (k.fds fd).inode with hinode
  intro contents position
  have hbytes := readData_bytes position nbytes hvalid
  have hret := readData_ret position nbytes hvalid
  have hlen : (k.fileRead fs fd nbytes).bytes.length =
      min nbytes.toNat (contents.length - position.toNat) := by
    rw [Kernel.fileRead, ← hinode, hbytes, List.length_take, List.length_drop]
  have hsmall : contents.length ≤ 1023 * 4096 := by
    rw [hvalid.contents_length]
    exact hvalid.length_le
  have hret' : (k.fileRead fs fd nbytes).ret =
      BitVec.ofNat 32 (k.fileRead fs fd nbytes).bytes.length := hret
  have hfds := (k.readFile_withFds fs fd buf nbytes u).fds
  rw [Kernel.readFile_run] at hfds ⊢
  refine ⟨by rw [hret', hlen], ?_, ?_⟩
  · simp only [hret']
    rw [returned_storeBytes _ (by omega), Kernel.fileRead, ← hinode, hbytes]
  · rw [hfds]
    by_cases hpos : 0 < (k.fileRead fs fd nbytes).ret.toInt
    · rw [if_pos hpos]
    · have hzero : (k.fileRead fs fd nbytes).ret = 0#32 := by
        rw [hret'] at hpos ⊢
        rw [BitVec.toInt_eq_toNat_of_lt (by rw [BitVec.toNat_ofNat]; omega), BitVec.toNat_ofNat] at hpos
        rw [show (k.fileRead fs fd nbytes).bytes.length = 0 by omega]
      rw [if_neg hpos, hzero]

/-- What a reading keeps: the descriptor still names the file, and the bytes
delivered are those between the position it started from and the present one. -/
structure Delivered (fs : Fs) (fd : ℕ) (ptr : Addr) (start : ℕ) (s : Reading) : Prop where
  inode : (s.kernel.fds fd).inode = ptr
  position_le : (s.kernel.fds fd).position.toNat ≤ (fs.contents (getInodeNum fs ptr).toNat).length
  delivered : (fs.contents (getInodeNum fs ptr).toNat).take start ++ s.delivered =
    (fs.contents (getInodeNum fs ptr).toNat).take (s.kernel.fds fd).position.toNat

theorem readStep_delivered {inode : Addr} {start : ℕ}
    (hvalid : fs.ValidFile (getInodeNum fs inode).toNat) (s : Reading) (c : ReadCall) (s' : Reading)
    (h : Delivered fs fd inode start s) (hstep : readStep fs fd s c s') :
    Delivered fs fd inode start s' := by
  cases c with
  | file buf nbytes =>
    obtain ⟨hn, rfl⟩ := hstep
    have hsmall : (fs.contents (getInodeNum fs inode).toNat).length ≤ 1023 * 4096 := by
      rw [hvalid.contents_length]
      exact hvalid.length_le
    have hspec := readFile_spec fs s.kernel s.user fd buf nbytes
      (by rwa [h.inode]) _ rfl
    simp only [h.inode] at hspec
    obtain ⟨hret, hbytes, hfds⟩ := hspec
    have hle := h.position_le
    have hnat : ((s.kernel.fds fd).position +
        (s.kernel.readFile fs fd buf nbytes s.user).1.1).toNat =
        (s.kernel.fds fd).position.toNat + min nbytes.toNat
          ((fs.contents (getInodeNum fs inode).toNat).length - (s.kernel.fds fd).position.toNat) := by
      rw [hret, BitVec.toNat_add, BitVec.toNat_ofNat]
      omega
    refine ⟨?_, ?_, ?_⟩
    · simp [hfds, Kernel.withPosition, h.inode]
    · simp only [hfds, Kernel.withPosition, Function.update_self, hnat]
      omega
    · simp only [hfds, Kernel.withPosition, Function.update_self, hnat, hbytes]
      rw [← List.append_assoc, h.delivered, List.take_add]
      congr 1
      rw [List.take_eq_take_iff, List.length_drop]
      omega
  | other stdin fd' buf numBytes =>
    obtain ⟨hne, ret, hread, -, hdel⟩ := hstep
    obtain ⟨pos, hk⟩ := Kernel.read_withFds hread
    have hfd : s'.kernel.fds fd = s.kernel.fds fd := by
      rw [hk.fds]
      exact Function.update_of_ne (Ne.symm hne) _ _
    exact ⟨by rw [hfd, h.inode], by rw [hfd]; exact h.position_le, by rw [hfd, hdel, h.delivered]⟩

end Step

/-- However a file is read chunk by chunk, the bytes delivered are the file from
the starting position to the present one, the next call returns as many as it was
asked for or as are left, and at the end it returns 0 and stays. -/
theorem sequential_reads (fs : Fs) (fd : ℕ) (s : Reading) (p : List (ReadCall × Reading))
    (hvalid : fs.ValidFile (getInodeNum fs (s.kernel.fds fd).inode).toNat)
    (hpos : (s.kernel.fds fd).position.toNat ≤
      (fs.contents (getInodeNum fs (s.kernel.fds fd).inode).toNat).length)
    (hstart : s.delivered = []) (hp : Runs.Path (readStep fs fd) s p) :
    let contents := fs.contents (getInodeNum fs (s.kernel.fds fd).inode).toNat
    let k := (Runs.final s p).kernel
    let position := (k.fds fd).position.toNat
    contents.take (s.kernel.fds fd).position.toNat ++ (Runs.final s p).delivered =
        contents.take position ∧
      ∀ (u : UserMem) (buf : Addr) (nbytes : Word), 0 ≤ nbytes.toInt →
        let r := k.readFile fs fd buf nbytes u
        r.1.1.toNat = min nbytes.toNat (contents.length - position) ∧
          returned r.2 buf r.1.1 = (contents.drop position).take nbytes.toNat ∧
          (r.1.2.fds fd).position.toNat = position + r.1.1.toNat ∧
          (position = contents.length → r.1.1 = 0#32 ∧ r.1.2.fds = k.fds) := by
  intro contents k position
  have hsmall : contents.length ≤ 1023 * 4096 := by
    rw [hvalid.contents_length]
    exact hvalid.length_le
  have hinv : Delivered fs fd (s.kernel.fds fd).inode (s.kernel.fds fd).position.toNat
      (Runs.final s p) := by
    refine Runs.invariant_final (G := fun _ _ => True)
      (fun s c s' h _ hstep => readStep_delivered hvalid s c s' h hstep) ⟨rfl, hpos, ?_⟩ hp
      (Runs.meets_true fun _ _ => trivial)
    rw [hstart, List.append_nil]
  refine ⟨hinv.delivered, fun u buf nbytes _ => ?_⟩
  have hspec := readFile_spec fs k u fd buf nbytes
    (by rwa [hinv.inode]) _ rfl
  rw [hinv.inode] at hspec
  obtain ⟨hret, hbytes, hfds⟩ := hspec
  have hle : position ≤ contents.length := hinv.position_le
  have hnat : (k.readFile fs fd buf nbytes u).1.1.toNat =
      min nbytes.toNat (contents.length - position) := by
    rw [hret, BitVec.toNat_ofNat]
    change min nbytes.toNat (contents.length - position) % 2 ^ 32 = _
    omega
  refine ⟨hnat, hbytes, ?_, fun hend => ?_⟩
  · simp only [hfds, Kernel.withPosition, Function.update_self, BitVec.toNat_add]
    change (position + _) % 2 ^ 32 = position + _
    omega
  · have hzero : (k.readFile fs fd buf nbytes u).1.1 = 0#32 :=
      BitVec.eq_of_toNat_eq (by rw [hnat, BitVec.toNat_zero]; omega)
    refine ⟨hzero, ?_⟩
    rw [hfds, hzero, BitVec.add_zero]
    exact Kernel.withPosition_self _ _

def shellReader : Kernel :=
  shellKernel.setPcb shellKernel.pcbCurr fun p =>
    { p with fdArray := Function.update p.fdArray 2 ⟨.regularFile, shellFs.inodesAddr, 0#32, 1#32⟩ }

def readNext (fs : Fs) (fd : ℕ) (s : Reading) : ReadCall → Option Reading
  | .file buf nbytes =>
    let r := s.kernel.readFile fs fd buf nbytes s.user
    some ⟨r.1.2, r.2, s.delivered ++ returned r.2 buf r.1.1⟩
  | .other stdin fd' buf numBytes =>
    let r := s.kernel.read fs stdin fd' buf numBytes s.user
    r.1.map fun x => ⟨x.2, r.2, s.delivered⟩

/-- Ten bytes of the file, a line `a` from the keyboard, and sixteen bytes more. -/
def shellReadCalls : List ReadCall :=
  [.file 0x8048000#32 10#32, .other (fun i => [97, 10].getD i 0) 0#32 0x8049000#32 8#32,
    .file 0x8048000#32 16#32]

def shellReading : Reading := ⟨shellReader, ⟨fun _ => 0, []⟩, []⟩

@[irreducible] def shellReads : List (ReadCall × Reading) :=
  Runs.follow (readNext shellFs 2) shellReading shellReadCalls

theorem shellReads_path : Runs.Path (readStep shellFs 2) shellReading shellReads := by
  unfold shellReads
  refine Runs.path_imp (fun x hx s hstep => ?_) (Runs.follow_path _ _ _)
  have hcall := Runs.follow_mem _ _ _ x hx
  obtain ⟨c, s'⟩ := x
  simp only [shellReadCalls, List.mem_cons, List.not_mem_nil, or_false] at hcall
  rcases hcall with rfl | rfl | rfl
  · exact ⟨by decide, (Option.some.inj hstep).symm⟩
  · obtain ⟨⟨ret, k'⟩, hread, rfl⟩ := Option.map_eq_some_iff.mp hstep
    exact ⟨by decide, ret, hread, rfl, rfl⟩
  · exact ⟨by decide, (Option.some.inj hstep).symm⟩

/-- The first 26 bytes have been delivered then, and 14 are left. -/
theorem sequential_reads_shell :
    let s := Runs.final shellReading shellReads
    shellReads.length = 3 ∧ s.delivered = (shellFs.contents 0).take 26 ∧
      (s.kernel.readFile shellFs 2 0x8048000#32 100#32 s.user).1.1.toNat = 14 := by
  intro s
  have hinode : (getInodeNum shellFs (shellReader.fds 2).inode).toNat = 0 := by decide
  have hlength : (shellFs.contents 0).length = 40 := shellFs_validFile.contents_length
  have hposition : (s.kernel.fds 2).position.toNat = 26 := by decide +kernel
  obtain ⟨hdelivered, hnext⟩ := sequential_reads shellFs 2 shellReading shellReads
    (show shellFs.ValidFile (getInodeNum shellFs (shellReader.fds 2).inode).toNat by
      rw [hinode]; exact shellFs_validFile) (Nat.zero_le _) rfl shellReads_path
  have hret := (hnext s.user 0x8048000#32 100#32 (by decide)).1
  rw [show (getInodeNum shellFs (shellReading.kernel.fds 2).inode).toNat = 0 from hinode, hposition]
    at hdelivered hret
  rw [hlength] at hret
  exact ⟨by decide +kernel, hdelivered, hret⟩

end SnoopDos
