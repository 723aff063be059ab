import SnoopDos.Spec.Board

/-! The cells of `blink_array` and their links are a list of blinkers, newest first, as
long as nobody adds one at location zero: every call does to the list what it does to
the cells. -/

namespace SnoopDos

open Links

def Fish.blinker (s : Fish) (i : ℕ) : Blinker := (s.blinkArray i).toBlinker

/-- The same cells with other blinkers in them, and another screen. -/
def Fish.withBlinkers (s : Fish) (g : ℕ → Blinker) (vmem : ℕ → UInt8) : Fish :=
  ⟨fun i => ⟨g i, (s.blinkArray i).next⟩, s.mp1ListHead, vmem⟩

/-- The cells `l`, in this order, hold the blinkers. -/
structure Fish.Lists (s : Fish) (l : List ℕ) (B : Board) : Prop where
  chain : Chain s.links.next s.mp1ListHead l
  lt : ∀ i ∈ l, i < BLINK_CELLS
  blinkers : l.map s.blinker = B.blinkers
  vmem : s.vmem = B.vmem

/-- The cells off the list, and only those, are unused. -/
structure Fish.Represents (s : Fish) (l : List ℕ) (B : Board) : Prop extends s.Lists l B where
  used : ∀ i ∈ l, (s.blinkArray i).location ≠ 0
  free : ∀ i < BLINK_CELLS, i ∉ l → (s.blinkArray i).location = 0

theorem Blinker.ticked_location (b : Blinker) : b.ticked.location = b.location := by
  unfold Blinker.ticked
  split_ifs <;> rfl

theorem Board.add_eq {B : Board} {b : Blinker} (hin : b.location.toNat < BLINK_CELLS)
    (hroom : B.blinkers.length < BLINK_CELLS) : B.add b =
      (0, ⟨b.started :: B.blinkers, Function.update B.vmem b.cell b.onChar⟩) := by
  rw [Board.add, if_neg (by omega)]

namespace Fish

variable {s : Fish} {l : List ℕ} {B : Board} {fuel i : ℕ} {b : Blinker}

section Lists

variable {g : ℕ → Blinker} {test : Blinker → Bool} {i : ℕ}

theorem map_erase_find (h : l.find? (fun i => test (g i)) = some i) :
    (l.erase i).map g = (l.map g).eraseP test := by
  induction l with
  | nil => cases h
  | cons j l ih =>
    rw [List.find?_cons] at h
    cases htest : test (g j) with
    | true =>
      rw [htest] at h
      obtain rfl := Option.some.inj h
      rw [List.erase_cons_head, List.map_cons, List.eraseP_cons_of_pos htest]
    | false =>
      rw [htest] at h
      have hne : j ≠ i := by
        rintro rfl
        have hpos := List.find?_some h
        rw [htest] at hpos
        cases hpos
      rw [List.erase_cons_tail (by simpa using hne), List.map_cons, List.map_cons,
        List.eraseP_cons_of_neg (by simp [htest]), ih h]

theorem map_update_find (hnodup : l.Nodup) (f : Blinker → Blinker)
    (h : l.find? (fun i => test (g i)) = some i) :
    l.map (Function.update g i (f (g i))) =
      (l.map g).replaceF fun b => if test b then some (f b) else none := by
  induction l with
  | nil => cases h
  | cons j l ih =>
    obtain ⟨hj, hnodup⟩ := List.nodup_cons.mp hnodup
    rw [List.find?_cons] at h
    cases htest : test (g j) with
    | true =>
      rw [htest] at h
      obtain rfl := Option.some.inj h
      have hrest : l.map (Function.update g j (f (g j))) = l.map g := by
        refine List.map_congr_left fun m hm => ?_
        exact Function.update_of_ne (ne_of_mem_of_not_mem hm hj) _ _
      rw [List.map_cons, List.map_cons, Function.update_self, hrest, List.replaceF_cons_of_some]
      rw [if_pos htest]
    | false =>
      rw [htest] at h
      have hi : i ∈ l := List.mem_of_find?_eq_some h
      rw [List.map_cons, List.map_cons, Function.update_of_ne (ne_of_mem_of_not_mem hi hj).symm,
        List.replaceF_cons_of_none, ih hnodup h]
      rw [if_neg (by simp [htest])]

end Lists

section Lists

variable (h : s.Lists l B)
include h

theorem Lists.length_le : l.length ≤ BLINK_CELLS := by
  have hsub : l ⊆ List.range BLINK_CELLS := fun i hi => List.mem_range.mpr (h.lt i hi)
  have hle := (h.chain.nodup.subperm hsub).length_le
  rwa [List.length_range] at hle

theorem Lists.lt_fuel (hfuel : BLINK_CELLS < fuel) : l.length < fuel :=
  h.length_le.trans_lt hfuel

theorem Lists.length_eq : B.blinkers.length = l.length := by
  rw [← h.blinkers, List.length_map]

theorem Lists.board_eq : B = ⟨l.map s.blinker, s.vmem⟩ := by
  rw [h.blinkers, h.vmem]

theorem Lists.findHelper (hfuel : BLINK_CELLS < fuel) (location : BitVec 16) :
    s.mp1FindHelper fuel location = some (l.find? fun i => (s.blinker i).isAt location) :=
  search_eq h.chain (h.lt_fuel hfuel)

theorem Lists.find?_eq (location : BitVec 16) : B.blinkers.find? (Blinker.isAt location) =
    (l.find? fun i => (s.blinker i).isAt location).map s.blinker := by
  rw [← h.blinkers, List.find?_map]
  rfl

theorem Lists.withBlinkers (g : ℕ → Blinker) (vmem : ℕ → UInt8) :
    (s.withBlinkers g vmem).Lists l ⟨l.map g, vmem⟩ :=
  ⟨h.chain, h.lt, rfl, rfl⟩

end Lists

theorem Represents.withBlinkers (h : s.Represents l B) {g : ℕ → Blinker}
    (hlocation : ∀ i, (g i).location = (s.blinker i).location) (vmem : ℕ → UInt8) :
    (s.withBlinkers g vmem).Represents l ⟨l.map g, vmem⟩ where
  toLists := h.toLists.withBlinkers g vmem
  used i hi := by
    change (g i).location ≠ 0
    rw [hlocation]
    exact h.used i hi
  free i hi hil := by
    change (g i).location = 0
    rw [hlocation]
    exact h.free i hi hil

section Malloc

theorem mallocLoop_eq_some {n i j : ℕ} (h : s.mallocLoop n i = some j) :
    j < i + n ∧ (s.blinkArray j).location = 0 := by
  induction n generalizing i with
  | zero => cases h
  | succ n ih =>
    rw [mallocLoop] at h
    by_cases hfree : (s.blinkArray i).location = 0
    · rw [if_pos hfree] at h
      obtain rfl := Option.some.inj h
      exact ⟨by omega, hfree⟩
    · rw [if_neg hfree] at h
      obtain ⟨hlt, hj⟩ := ih h
      exact ⟨by omega, hj⟩

theorem mallocLoop_eq_none {n i j : ℕ} (h : s.mallocLoop n i = none) (hij : i ≤ j)
    (hj : j < i + n) : (s.blinkArray j).location ≠ 0 := by
  induction n generalizing i with
  | zero => omega
  | succ n ih =>
    rw [mallocLoop] at h
    by_cases hfree : (s.blinkArray i).location = 0
    · rw [if_pos hfree] at h
      cases h
    · rw [if_neg hfree] at h
      rcases Nat.eq_or_lt_of_le hij with rfl | hlt
      · exact hfree
      · exact ih h hlt (by omega)

theorem Represents.malloc (h : s.Represents l B) :
    (l.length = BLINK_CELLS ∧ s.mp1Malloc = none) ∨
      l.length < BLINK_CELLS ∧ ∃ i < BLINK_CELLS, i ∉ l ∧ s.mp1Malloc = some i := by
  cases hmalloc : s.mp1Malloc with
  | none =>
    have hsub : List.range BLINK_CELLS ⊆ l := by
      intro i hi
      by_contra hil
      have hlt := List.mem_range.mp hi
      exact mallocLoop_eq_none hmalloc (Nat.zero_le i) (by omega) (h.free i hlt hil)
    have hle := (List.nodup_range.subperm hsub).length_le
    rw [List.length_range] at hle
    exact Or.inl ⟨le_antisymm h.length_le hle, rfl⟩
  | some i =>
    obtain ⟨hlt, hfree⟩ := mallocLoop_eq_some hmalloc
    rw [Nat.zero_add] at hlt
    have hil : i ∉ l := fun hi => h.used i hi hfree
    have hsub : i :: l ⊆ List.range BLINK_CELLS := by
      intro j hj
      rcases List.mem_cons.mp hj with rfl | hj
      · exact List.mem_range.mpr hlt
      · exact List.mem_range.mpr (h.lt j hj)
    have hle := ((List.nodup_cons.mpr ⟨hil, h.chain.nodup⟩).subperm hsub).length_le
    rw [List.length_range, List.length_cons] at hle
    exact Or.inr ⟨hle, i, hlt, hil, rfl⟩

end Malloc

section Calls

@[simp] theorem withBlinkers_blinker (g : ℕ → Blinker) (vmem : ℕ → UInt8) :
    (s.withBlinkers g vmem).blinker = g := rfl

theorem setCell_eq (s : Fish) (i : ℕ) (b : Blinker) :
    s.setCell i ⟨b, (s.blinkArray i).next⟩ =
      s.withBlinkers (Function.update s.blinker i b) s.vmem := by
  refine congrArg (fun cells => (⟨cells, s.mp1ListHead, s.vmem⟩ : Fish)) (funext fun j => ?_)
  rcases eq_or_ne j i with rfl | hne
  · rw [Function.update_self, Function.update_self]
  · rw [Function.update_of_ne hne, Function.update_of_ne hne]
    rfl

/-- The state after a blinker has been added in cell `i`. -/
def added (s : Fish) (i : ℕ) (b : Blinker) : Fish :=
  ⟨Function.update s.blinkArray i ⟨b.started, s.mp1ListHead⟩, some i,
    Function.update s.vmem b.cell b.onChar⟩

theorem mp1IoctlAdd_eq {b : Blinker} (hin : b.location.toNat < BLINK_CELLS)
    (hmalloc : s.mp1Malloc = some i) : s.mp1IoctlAdd b = (0, s.added i b) := by
  rw [mp1IoctlAdd, if_neg (not_le.mpr hin), hmalloc]
  rfl

theorem added_self (s : Fish) (i : ℕ) (b : Blinker) :
    (s.added i b).blinkArray i = ⟨b.started, s.mp1ListHead⟩ := Function.update_self _ _ _

theorem added_other (s : Fish) (b : Blinker) {j : ℕ} (h : j ≠ i) :
    (s.added i b).blinkArray j = s.blinkArray j := Function.update_of_ne h _ _

theorem Lists.added (h : s.Lists l B) (hi : i < BLINK_CELLS) (hil : i ∉ l) (b : Blinker) :
    (s.added i b).Lists (i :: l)
      ⟨b.started :: B.blinkers, Function.update B.vmem b.cell b.onChar⟩ := by
  have hother {j : ℕ} (hj : j ∈ l) : (s.added i b).blinkArray j = s.blinkArray j :=
    s.added_other b (ne_of_mem_of_not_mem hj hil)
  refine ⟨⟨rfl, ?_⟩, fun j hj => ?_, ?_, ?_⟩
  · have hnext : (s.added i b).links.next i = s.mp1ListHead :=
      congrArg BlinkStruct.next (s.added_self i b)
    rw [hnext]
    exact h.chain.congr fun j hj => congrArg BlinkStruct.next (hother hj)
  · rcases List.mem_cons.mp hj with rfl | hj
    · exact hi
    · exact h.lt j hj
  · rw [List.map_cons, ← h.blinkers]
    refine congrArg₂ List.cons (congrArg BlinkStruct.toBlinker (s.added_self i b))
      (List.map_congr_left fun j hj => ?_)
    exact congrArg BlinkStruct.toBlinker (hother hj)
  · exact congrArg (fun v => Function.update v b.cell b.onChar) h.vmem

theorem Represents.add (h : s.Represents l B) {user : Blinker} (hlocation : user.location ≠ 0) :
    (s.mp1IoctlAdd user).1 = (B.add user).1 ∧
      ∃ l', (s.mp1IoctlAdd user).2.Represents l' (B.add user).2 := by
  by_cases hout : BLINK_CELLS ≤ user.location.toNat
  · rw [mp1IoctlAdd, Board.add, if_pos hout, if_pos (Or.inl hout)]
    exact ⟨rfl, l, h⟩
  rcases h.malloc with ⟨hfull, hmalloc⟩ | ⟨hroom, i, hlt, hil, hmalloc⟩
  · rw [mp1IoctlAdd, if_neg hout, hmalloc, Board.add, h.length_eq, if_pos (Or.inr hfull.ge)]
    exact ⟨rfl, l, h⟩
  rw [mp1IoctlAdd_eq (not_le.mp hout) hmalloc,
    Board.add_eq (not_le.mp hout) (h.length_eq.trans_lt hroom)]
  refine ⟨rfl, i :: l, h.toLists.added hlt hil user, fun j hj => ?_, fun j hj hjl => ?_⟩
  · rcases List.mem_cons.mp hj with rfl | hj
    · rw [s.added_self]
      exact hlocation
    · rw [s.added_other user (ne_of_mem_of_not_mem hj hil)]
      exact h.used j hj
  · obtain ⟨hji, hjl⟩ := not_or.mp (fun hor => hjl (List.mem_cons.mpr hor))
    rw [s.added_other user hji]
    exact h.free j hj hjl

theorem Lists.find (h : s.Lists l B) (hfuel : BLINK_CELLS < fuel)
    (location : BitVec 16) : s.mp1IoctlFind fuel location = some (B.find location) := by
  rw [mp1IoctlFind, h.findHelper hfuel, Board.find, h.find?_eq]
  cases l.find? fun i => (s.blinker i).isAt location with
  | none => rfl
  | some i => rfl

theorem Represents.remove (h : s.Represents l B) (hfuel : BLINK_CELLS < fuel) (arg : Word) :
    ∃ s' l', s.mp1IoctlRemove fuel arg = some ((B.remove (arg.setWidth 16)).1, s') ∧
      s'.Represents l' (B.remove (arg.setWidth 16)).2 := by
  rw [mp1IoctlRemove, h.findHelper hfuel, Board.remove, h.find?_eq]
  cases hfind : l.find? fun i => (s.blinker i).isAt (arg.setWidth 16) with
  | none => exact ⟨s, l, rfl, h⟩
  | some i =>
    have hil : i ∈ l := List.mem_of_find?_eq_some hfind
    obtain ⟨slot, hslot, hcases, hchain⟩ := findSlot_eq none h.chain hil
      (fun _ _ => Option.some_ne_none _ |>.symm) (h.lt_fuel hfuel)
    simp only [Option.bind_eq_bind, Option.bind_some, hslot, Option.map_some]
    refine ⟨_, l.erase i, rfl, ?_⟩
    have hnodup := h.chain.nodup
    have hother {j : ℕ} (hj : j ∈ l.erase i) : j ≠ i ∧ j ∈ l := hnodup.mem_erase_iff.mp hj
    change Chain (s.links.point slot (s.blinkArray i).next).next
      (s.links.point slot (s.blinkArray i).next).head (l.erase i) at hchain
    generalize s.links.point slot (s.blinkArray i).next = L at hchain ⊢
    have hcell {j : ℕ} (hji : j ≠ i) : ((s.setLinks L).mp1Free i).blinkArray j =
        { s.blinkArray j with next := L.next j } := Function.update_of_ne hji _ _
    refine ⟨⟨hchain.congr fun j hj => ?_, fun j hj => h.lt j (hother hj).2, ?_, h.vmem⟩,
      fun j hj => ?_, fun j hj hjl => ?_⟩
    · exact congrArg BlinkStruct.next (hcell (hother hj).1)
    · change (l.erase i).map _ = B.blinkers.eraseP _
      rw [← h.blinkers, ← map_erase_find hfind]
      refine List.map_congr_left fun j hj => ?_
      rw [blinker, hcell (hother hj).1]
      rfl
    · rw [hcell (hother hj).1]
      exact h.used j (hother hj).2
    · rcases eq_or_ne j i with rfl | hji
      · have hzero : ((s.setLinks L).mp1Free j).blinkArray j = zeroBlink :=
          Function.update_self _ _ _
        rw [hzero]
        rfl
      · rw [hcell hji]
        exact h.free j hj fun hmem => hjl (hnodup.mem_erase_iff.mpr ⟨hji, hmem⟩)

theorem mp1IoctlSync_eq {arg : Word} {i j : ℕ}
    (hsrc : s.mp1FindHelper fuel ((arg >>> 16).setWidth 16) = some (some i))
    (hdst : s.mp1FindHelper fuel (arg.setWidth 16) = some (some j)) :
    s.mp1IoctlSync fuel arg = some (0,
      s.withBlinkers (Function.update s.blinker j ((s.blinker i).synced (s.blinker j)))
        (Function.update s.vmem (s.blinker j).cell (s.blinker j).offChar)) := by
  let c : BlinkStruct := ⟨(s.blinker i).synced (s.blinker j), (s.blinkArray j).next⟩
  have hself : (s.setCell j c).blinkArray j = c := Function.update_self _ _ _
  rw [mp1IoctlSync, hsrc]
  simp only [Option.bind_eq_bind, Option.bind_some, hdst]
  change some ((0 : Word), (s.setCell j c).mp1Poke ((s.setCell j c).blinkArray j).offChar
    (((s.setCell j c).blinkArray j).location.toNat <<< 1)) = _
  rw [hself, setCell_eq]
  rfl

theorem Lists.sync (h : s.Lists l B) (hfuel : BLINK_CELLS < fuel) (arg : Word) :
    let r := B.sync ((arg >>> 16).setWidth 16) (arg.setWidth 16)
    ∃ g vmem, (∀ i, (g i).location = (s.blinker i).location) ∧
      s.mp1IoctlSync fuel arg = some (r.1, s.withBlinkers g vmem) ∧ r.2 = ⟨l.map g, vmem⟩ := by
  have hfound := h.findHelper hfuel
  rw [Board.sync, h.find?_eq, h.find?_eq]
  cases hsrc : l.find? fun i => (s.blinker i).isAt ((arg >>> 16).setWidth 16) with
  | none =>
    refine ⟨s.blinker, s.vmem, fun _ => rfl, ?_, h.board_eq⟩
    rw [mp1IoctlSync, hfound, hsrc]
    rfl
  | some i =>
    cases hdst : l.find? fun i => (s.blinker i).isAt (arg.setWidth 16) with
    | none =>
      refine ⟨s.blinker, s.vmem, fun _ => rfl, ?_, h.board_eq⟩
      rw [mp1IoctlSync, hfound, hsrc]
      simp only [Option.bind_eq_bind, Option.bind_some, hfound, hdst]
      rfl
    | some j =>
      refine ⟨_, _, fun m => ?_, mp1IoctlSync_eq ((hfound _).trans (congrArg some hsrc))
        ((hfound _).trans (congrArg some hdst)), ?_⟩
      · rcases eq_or_ne m j with rfl | hne
        · rw [Function.update_self]
          rfl
        · rw [Function.update_of_ne hne]
      · rw [map_update_find h.chain.nodup (s.blinker i).synced hdst, h.blinkers, h.vmem]
        rfl

theorem taskletRound_eq (i : ℕ) (s : Fish) : taskletRound i s =
    s.withBlinkers (Function.update s.blinker i (s.blinker i).ticked)
      ((s.blinker i).draw s.vmem) := by
  have hround : taskletRound i s =
      { s.setCell i ⟨(s.blinker i).ticked, (s.blinkArray i).next⟩ with
        vmem := (s.blinker i).draw s.vmem } := by
    unfold taskletRound Blinker.ticked Blinker.draw
    by_cases hstays : (s.blinker i).Stays
    · rw [if_pos hstays, if_pos hstays]
      exact if_pos hstays
    · rw [if_neg hstays, if_neg hstays]
      refine (if_neg hstays).trans ?_
      by_cases hoff : (s.blinker i).status &&& 1 = 0
      · rw [if_pos hoff, if_pos hoff]
        exact if_pos hoff
      · rw [if_neg hoff, if_neg hoff]
        exact if_neg hoff
  rw [hround, setCell_eq]
  rfl

theorem taskletRound_next (i j : ℕ) (s : Fish) :
    ((taskletRound i s).blinkArray j).next = (s.blinkArray j).next := by
  rw [taskletRound_eq]
  rfl

theorem taskletRounds_eq (hnodup : l.Nodup) (s : Fish) :
    l.foldl (fun s i => taskletRound i s) s =
      s.withBlinkers (fun i => if i ∈ l then (s.blinker i).ticked else s.blinker i)
        ((l.map s.blinker).foldl (fun vmem b => b.draw vmem) s.vmem) := by
  induction l generalizing s with
  | nil => rfl
  | cons i l ih =>
    obtain ⟨hil, hnodup⟩ := List.nodup_cons.mp hnodup
    have hrest : l.map (Function.update s.blinker i (s.blinker i).ticked) = l.map s.blinker :=
      List.map_congr_left fun j hj => Function.update_of_ne (ne_of_mem_of_not_mem hj hil) _ _
    rw [List.foldl_cons, ih hnodup, taskletRound_eq, withBlinkers_blinker, hrest]
    refine congrArg (fun g => s.withBlinkers g _) (funext fun j => ?_)
    rcases eq_or_ne j i with rfl | hne
    · rw [Function.update_self, if_neg hil, if_pos List.mem_cons_self]
    · rw [Function.update_of_ne hne]
      simp only [List.mem_cons, hne, false_or]

theorem Lists.tasklet (h : s.Lists l B) (hfuel : BLINK_CELLS < fuel) :
    ∃ g vmem, (∀ i, (g i).location = (s.blinker i).location) ∧
      s.mp1RtcTasklet fuel = some (s.withBlinkers g vmem) ∧ B.tick = ⟨l.map g, vmem⟩ := by
  have hwalk : s.mp1RtcTasklet fuel = some (l.foldl (fun s i => taskletRound i s) s) :=
    walk_eq (fun i s => funext fun j => taskletRound_next i j s) h.chain (h.lt_fuel hfuel)
  rw [taskletRounds_eq h.chain.nodup] at hwalk
  refine ⟨_, _, fun i => ?_, hwalk, ?_⟩
  · split_ifs
    · exact Blinker.ticked_location _
    · rfl
  · rw [Board.tick, ← h.vmem, ← h.blinkers, List.map_map]
    exact congrArg (Board.mk · _) (List.map_congr_left fun i hi => (if_pos hi).symm)

theorem Lists.looks (h : s.Lists l B) (hfuel : BLINK_CELLS < fuel) {c : BlinkCall} (hc : c.Looks) :
    ∃ g vmem, (∀ i, (g i).location = (s.blinker i).location) ∧
      s.call fuel c = some ((B.call c).1, s.withBlinkers g vmem) ∧
      (B.call c).2 = ⟨l.map g, vmem⟩ := by
  cases c with
  | add b => exact hc.elim
  | remove arg => exact hc.elim
  | find location =>
    refine ⟨s.blinker, s.vmem, fun _ => rfl, ?_, h.board_eq⟩
    rw [Fish.call, h.find hfuel]
    rfl
  | sync arg =>
    obtain ⟨g, vmem, hg, hcall, hB⟩ := h.sync hfuel arg
    refine ⟨g, vmem, hg, ?_, hB⟩
    rw [Fish.call, hcall]
    rfl
  | tasklet =>
    obtain ⟨g, vmem, hg, hcall, hB⟩ := h.tasklet hfuel
    refine ⟨g, vmem, hg, ?_, hB⟩
    rw [Fish.call, hcall]
    rfl

theorem Represents.looks (h : s.Represents l B) (hfuel : BLINK_CELLS < fuel) {c : BlinkCall}
    (hc : c.Looks) :
    ∃ s' l', s.call fuel c = some ((B.call c).1, s') ∧ s'.Represents l' (B.call c).2 := by
  obtain ⟨g, vmem, hg, hcall, hB⟩ := h.toLists.looks hfuel hc
  refine ⟨_, l, hcall, ?_⟩
  rw [hB]
  exact h.withBlinkers hg vmem

theorem Represents.call (h : s.Represents l B) (hfuel : BLINK_CELLS < fuel) {c : BlinkCall}
    (hc : c.Located) :
    ∃ s' l', s.call fuel c = some ((B.call c).1, s') ∧ s'.Represents l' (B.call c).2 := by
  cases c with
  | add b =>
    obtain ⟨hreply, l', hl'⟩ := h.add hc
    refine ⟨_, l', ?_, hl'⟩
    rw [Fish.call, Board.call, hreply]
  | remove arg =>
    obtain ⟨s', l', hcall, hl'⟩ := h.remove hfuel arg
    refine ⟨s', l', ?_, hl'⟩
    rw [Fish.call, hcall]
    rfl
  | find location => exact h.looks hfuel trivial
  | sync arg => exact h.looks hfuel trivial
  | tasklet => exact h.looks hfuel trivial

/-- `blink_array` after it has been cleared. -/
structure Cleared (s : Fish) : Prop where
  blinkArray : ∀ i < BLINK_CELLS, (s.blinkArray i).location = 0
  mp1ListHead : s.mp1ListHead = none

theorem Cleared.represents (h : s.Cleared) : s.Represents [] ⟨[], s.vmem⟩ where
  chain := h.mp1ListHead
  lt _ hi := absurd hi List.not_mem_nil
  blinkers := rfl
  vmem := rfl
  used _ hi := absurd hi List.not_mem_nil
  free i hi _ := h.blinkArray i hi

theorem Represents.calls (h : s.Represents l B) (hfuel : BLINK_CELLS < fuel) {cs : List BlinkCall}
    (hcs : ∀ c ∈ cs, c.Located) :
    ∃ s' l', s.calls fuel cs = some ((B.calls cs).1, s') ∧ s'.Represents l' (B.calls cs).2 := by
  induction cs generalizing s l B with
  | nil => exact ⟨s, l, rfl, h⟩
  | cons c cs ih =>
    obtain ⟨s', l', hcall, hl'⟩ := h.call hfuel (hcs c List.mem_cons_self)
    obtain ⟨s'', l'', hrest, hl''⟩ := ih hl' fun d hd => hcs d (List.mem_cons_of_mem c hd)
    refine ⟨s'', l'', ?_, hl''⟩
    rw [Fish.calls, hcall]
    simp only [Option.bind_eq_bind, Option.bind_some, hrest]
    rfl

end Calls

end Fish

/-- From a cleared `blink_array`, as long as no blinker is added at location zero, every
call returns, and replies as the list of blinkers does; the links never loop, the cells
off the list are those to give out, and the screen is that of the list. -/
theorem blinkers_refine (s : Fish) (h : s.Cleared) (cs : List BlinkCall)
    (hcs : ∀ c ∈ cs, c.Located) (fuel : ℕ) (hfuel : BLINK_CELLS < fuel) :
    ∃ s' l, s.calls fuel cs = some (((⟨[], s.vmem⟩ : Board).calls cs).1, s') ∧
      s'.Represents l ((⟨[], s.vmem⟩ : Board).calls cs).2 :=
  h.represents.calls hfuel hcs

/-- The memory of `fish` when it starts. -/
def clearedFish : Fish := ⟨fun _ => zeroBlink, none, fun _ => 0⟩

/-- Two blinkers, a tick, and the removal of the older. -/
def twoBlinkers : List BlinkCall :=
  [.add ⟨540, 73, 77, 7, 6, 0, 0⟩, .add ⟨60, 73, 77, 1, 6, 0, 0⟩, .tasklet, .remove 540]

theorem blinkers_refine_two : ∃ s' l, clearedFish.calls 2001 twoBlinkers =
    some (((⟨[], clearedFish.vmem⟩ : Board).calls twoBlinkers).1, s') ∧
      s'.Represents l ((⟨[], clearedFish.vmem⟩ : Board).calls twoBlinkers).2 :=
  blinkers_refine clearedFish ⟨fun _ _ => rfl, rfl⟩ twoBlinkers (by decide) 2001 (by decide)

namespace Fish

variable {s s' s'' : Fish} {l : List ℕ} {B : Board} {fuel i : ℕ} {b : Blinker}

section Zero

/-- Cell `i` heads the list, and is the next to be given out. -/
structure Reused (s : Fish) (i : ℕ) : Prop where
  head : s.mp1ListHead = some i
  malloc : s.mp1Malloc = some i

theorem mallocLoop_congr
    (h : ∀ i, (s'.blinkArray i).location = 0 ↔ (s.blinkArray i).location = 0) (n i : ℕ) :
    s'.mallocLoop n i = s.mallocLoop n i := by
  induction n generalizing i with
  | zero => rfl
  | succ n ih =>
    rw [mallocLoop, mallocLoop, ih]
    by_cases hfree : (s.blinkArray i).location = 0
    · rw [if_pos hfree, if_pos ((h i).mpr hfree)]
    · rw [if_neg hfree, if_neg (mt (h i).mp hfree)]

theorem Reused.withBlinkers (h : s.Reused i) {g : ℕ → Blinker}
    (hlocation : ∀ i, (g i).location = (s.blinker i).location) (vmem : ℕ → UInt8) :
    (s.withBlinkers g vmem).Reused i := by
  refine ⟨h.head, (mallocLoop_congr (fun j => ?_) _ _).trans h.malloc⟩
  change (g j).location = 0 ↔ _
  rw [hlocation]
  rfl

/-- A blinker at location zero leaves its cell to be given out again. -/
theorem Represents.add_zero (h : s.Represents l B) (hroom : l.length < BLINK_CELLS)
    (hb : b.location = 0) : ∃ i B', s.mp1IoctlAdd b = (0, s.added i b) ∧ (s.added i b).Reused i ∧
      (s.added i b).Lists (i :: l) B' := by
  have hin : b.location.toNat < BLINK_CELLS := by
    rw [hb]
    decide
  rcases h.malloc with ⟨hfull, -⟩ | ⟨-, i, hlt, hil, hmalloc⟩
  · exact absurd hfull hroom.ne
  refine ⟨i, _, mp1IoctlAdd_eq hin hmalloc, ⟨rfl, ?_⟩, h.toLists.added hlt hil b⟩
  refine (mallocLoop_congr (fun j => ?_) _ _).trans hmalloc
  rcases eq_or_ne j i with rfl | hne
  · rw [s.added_self]
    exact iff_of_true hb (mallocLoop_eq_some hmalloc).2
  · rw [s.added_other b hne]

theorem Reused.calls (h : s.Reused i) (hl : s.Lists l B) (hfuel : BLINK_CELLS < fuel)
    {cs : List BlinkCall} (hcs : ∀ c ∈ cs, c.Looks) :
    ∃ rs s', s.calls fuel cs = some (rs, s') ∧ s'.Reused i := by
  induction cs generalizing s B with
  | nil => exact ⟨[], s, rfl, h⟩
  | cons c cs ih =>
    obtain ⟨g, vmem, hg, hcall, -⟩ := hl.looks hfuel (hcs c List.mem_cons_self)
    obtain ⟨rs, s', hrest, h'⟩ := ih (h.withBlinkers hg vmem) (hl.withBlinkers g vmem)
      fun d hd => hcs d (List.mem_cons_of_mem c hd)
    refine ⟨(B.call c).1 :: rs, s', ?_, h'⟩
    rw [Fish.calls, hcall]
    simp only [Option.bind_eq_bind, Option.bind_some, hrest]

/-- The head of the list is its own successor. -/
structure Loops (s : Fish) (i : ℕ) : Prop where
  head : s.mp1ListHead = some i
  next : (s.blinkArray i).next = some i

theorem Reused.add (h : s.Reused i) (hin : b.location.toNat < BLINK_CELLS) :
    s.mp1IoctlAdd b = (0, s.added i b) ∧ (s.added i b).Loops i ∧
      ((s.added i b).blinkArray i).location = b.location := by
  refine ⟨mp1IoctlAdd_eq hin h.malloc, ⟨rfl, ?_⟩, ?_⟩
  · rw [s.added_self]
    exact h.head
  · rw [s.added_self]
    rfl

theorem Loops.tasklet (h : s.Loops i) (fuel : ℕ) : s.mp1RtcTasklet fuel = none := by
  rw [mp1RtcTasklet, h.head]
  exact walk_loop (fun i s => funext fun j => taskletRound_next i j s) h.next fuel

theorem Loops.find (h : s.Loops i) {location : BitVec 16}
    (hne : location ≠ (s.blinkArray i).location) (fuel : ℕ) :
    s.mp1IoctlFind fuel location = none := by
  have hsearch : s.mp1FindHelper fuel location = none := by
    have htest : decide ((s.blinkArray i).location = location) = false := decide_eq_false hne.symm
    have hnext : s.links.next i = some i := h.next
    rw [mp1FindHelper, h.head]
    exact search_loop hnext htest fuel
  rw [mp1IoctlFind, hsearch]
  rfl

theorem calls_append {cs cs' : List BlinkCall} {rs rs' : List BlinkReply}
    (h : s.calls fuel cs = some (rs, s')) (h' : s'.calls fuel cs' = some (rs', s'')) :
    s.calls fuel (cs ++ cs') = some (rs ++ rs', s'') := by
  induction cs generalizing s rs with
  | nil =>
    obtain ⟨rfl, rfl⟩ := Prod.mk.inj (Option.some.inj h)
    exact h'
  | cons c cs ih =>
    rw [Fish.calls] at h
    cases hcall : s.call fuel c with
    | none =>
      rw [hcall] at h
      cases h
    | some r =>
      rw [hcall] at h
      cases hrest : r.2.calls fuel cs with
      | none =>
        simp only [Option.bind_eq_bind, Option.bind_some, hrest, Option.bind_none] at h
        cases h
      | some q =>
        simp only [Option.bind_eq_bind, Option.bind_some, hrest] at h
        obtain ⟨rfl, rfl⟩ := Prod.mk.inj (Option.some.inj h)
        rw [List.cons_append, Fish.calls, hcall]
        simp only [Option.bind_eq_bind, Option.bind_some, ih hrest]
        rfl

end Zero

end Fish

end SnoopDos
