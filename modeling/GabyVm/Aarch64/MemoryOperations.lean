import GabyVm.Aarch64.TripletParts

/-!
# Memory copy and memory set

A whole copy triplet moves its bytes as if through a buffer, overlapping or
not: the prologue chose the direction in which no byte is written before it is
read.  A set triplet fills its block.
-/

namespace GabyVm.Aarch64

open GabyVm.Cache
open GabyVm.Foundation

/-! ## Blocks -/

/-- The block at `xs` is now at `xd` as well, and nothing else has changed. -/
structure MovedBlock (mem mem' : Memory) (xd xs : Addr) (n : Nat) : Prop where
  moved : ∀ i < n, mem' (blockCell xd i) = mem (blockCell xs i)
  kept : ∀ a, (∀ i < n, a ≠ blockCell xd i) → mem' a = mem a

/-- The block at `xd` is full of one byte, and nothing else has changed. -/
structure FilledBlock (mem mem' : Memory) (xd : Addr) (value : BitVec 8) (n : Nat) : Prop where
  filled : ∀ i < n, mem' (blockCell xd i) = value
  kept : ∀ a, (∀ i < n, a ≠ blockCell xd i) → mem' a = mem a

theorem blockCell_ne {x y : Addr} {n i j : Nat} (hx : BlockFits x n) (hy : BlockFits y n)
    (hi : i < n) (hj : j < n) (h : (addressUntag x).toNat + i ≠ (addressUntag y).toNat + j) :
    blockCell x i ≠ blockCell y j := by
  intro heq
  have hnat := congrArg BitVec.toNat heq
  rw [blockCell_toNat hx hi, blockCell_toNat hy hj] at hnat
  exact h hnat

theorem clearMoves_forwards {xd xs : Addr} {n : Nat} (hd : BlockFits xd n) (hs : BlockFits xs n)
    (h : (addressUntag xd).toNat ≤ (addressUntag xs).toNat ∨
      (addressUntag xs).toNat + n ≤ (addressUntag xd).toNat) :
    ClearMoves n (blockCell xd) (blockCell xs) where
  once i j hij hj := blockCell_ne hd hd (by omega) hj (by omega)
  unread i j hij hj := blockCell_ne hd hs (by omega) hj (by omega)

theorem clearMoves_backwards {xd xs : Addr} {n : Nat} (hd : BlockFits xd n) (hs : BlockFits xs n)
    (h : (addressUntag xs).toNat < (addressUntag xd).toNat) :
    ClearMoves n (fun i => blockCell xd (n - 1 - i)) fun i => blockCell xs (n - 1 - i) where
  once i j hij hj := blockCell_ne hd hd (by omega) (by omega) (by omega)
  unread i j hij hj := blockCell_ne hd hs (by omega) (by omega) (by omega)

theorem movedBlock_loop {xd xs xn : Addr} (hxn : xn.toNat < 2 ^ 55)
    (hd : BlockFits xd xn.toNat) (hs : BlockFits xs xn.toNat) (mem : Memory) :
    let back := copiesBackwards xd xs xn
    let step : Addr := if back then -1 else 1
    let first (x : Addr) : Addr := if back then x + xn - 1 else x
    MovedBlock mem (moves xn.toNat (fun i => addressUntag (loopAddress step (first xd) i))
      (fun i => addressUntag (loopAddress step (first xs) i)) mem) xd xs xn.toNat := by
  intro back step first
  cases hback : back with
  | false =>
      have hnot : ¬copiesBackwards xd xs xn = true := ne_true_of_eq_false hback
      rw [copiesBackwards_iff hxn] at hnot
      have hcell (x : Addr) (i : Nat) : addressUntag (loopAddress step (first x) i) =
          blockCell x i := by
        simp only [step, first, hback, Bool.false_eq_true, if_false]
        exact loopAddress_forwards x i
      have hclear := clearMoves_forwards hd hs (by omega)
      simp only [hcell]
      exact ⟨fun i hi => hclear.moves_apply mem hi, fun a ha => moves_of_ne ha⟩
  | true =>
      have hback' := (copiesBackwards_iff hxn).mp hback
      have hcell (x : Addr) (i : Nat) (hi : i < xn.toNat) :
          addressUntag (loopAddress step (first x) i) = blockCell x (xn.toNat - 1 - i) := by
        simp only [step, first, hback, if_true]
        rw [loopAddress_backwards x xn hi, loopAddress_forwards]
      have hclear := clearMoves_backwards hd hs hback'.1
      rw [moves_congr (hcell xd) (hcell xs)]
      refine ⟨fun i hi => ?_, fun a ha => moves_of_ne fun i hi => ha _ (by omega)⟩
      have hmoved := hclear.moves_apply mem (show xn.toNat - 1 - i < xn.toNat by omega)
      rwa [show xn.toNat - 1 - (xn.toNat - 1 - i) = i by omega] at hmoved

theorem filledBlock_loop (xd : Addr) (value : BitVec 8) (n : Nat) (mem : Memory) :
    FilledBlock mem (fills n (fun i => addressUntag (loopAddress 1 xd i)) value mem) xd value n := by
  simp only [loopAddress_forwards]
  exact ⟨fun i hi => fills_apply hi, fun a ha => fills_of_ne ha⟩

/-! ## Copies and sets -/

/-- What the interpreter does between two instructions that do not branch. -/
structure Proceeds (next : Core → Core) : Prop where
  registers : ∀ c, (next c).registers = c.registers
  nzcv : ∀ c, (next c).nzcv = c.nzcv
  memory : ∀ c, (next c).memory = c.memory
  mteTags : ∀ c, (next c).mteTags = c.mteTags
  pc : ∀ c, (next c).pc = c.pc + 4
  lastInstr : ∀ c, (next c).lastInstr = c.pc

/-- The three parts of a triplet, one after the other. -/
def runTriplet (prologue main epilogue : LeafM Unit) (next : Core → Core) (c : Core) :
    Except (String × Core) Core := do
  let c ← (prologue.run c).quiet
  let c ← (main.run (next c)).quiet
  (epilogue.run (next c)).quiet

/-- The code of a triplet is none of the cells of a block. -/
def CodeKept (pc xd : Addr) (n : Nat) : Prop :=
  ∀ k < 12, ∀ i < n, pc + BitVec.ofNat 64 k ≠ blockCell xd i

theorem TripletAt.congr {mem mem' : Memory} {pc : Addr} {w : Word} {lsb : Nat}
    (h : TripletAt mem pc w lsb)
    (hsame : ∀ k < 12, mem' (pc + BitVec.ofNat 64 k) = mem (pc + BitVec.ofNat 64 k)) :
    TripletAt mem' pc w lsb := by
  have hword (offset : Nat) (hoffset : offset ≤ 8) :
      readWord mem' (pc + BitVec.ofNat 64 offset) = readWord mem (pc + BitVec.ofNat 64 offset) := by
    apply readWord_congr
    intro k hk
    rw [BitVec.add_assoc, ← BitVec.ofNat_add]
    exact hsame (offset + k) (by omega)
  have hzero : pc + BitVec.ofNat 64 0 = pc := BitVec.add_zero pc
  exact
    { prologue := h.prologue
      first := by rw [← hzero, hword 0 (by omega), hzero, h.first]
      second := (hword 4 (by omega)).trans h.second
      third := (hword 8 (by omega)).trans h.third }

theorem readXRegister_congr {c c' : Core} (h : c'.registers = c.registers) (r : BitVec 5) :
    c'.readXRegister r = c.readXRegister r := by
  rw [Core.readXRegister, Core.readXRegister, h]

theorem readN_congr {c c' : Core} (h : c'.nzcv = c.nzcv) : c'.readN = c.readN := by
  rw [Core.readN, Core.readN, h]

/-- The registers of a triplet are different and none of them is register 31. -/
structure TripletRegisters (w : Word) : Prop where
  d_ne_n : w.getRd ≠ w.getRn
  d_ne_s : w.getRd ≠ w.getRs
  n_ne_s : w.getRn ≠ w.getRs
  d_ne : w.getRd ≠ 31
  n_ne : w.getRn ≠ 31

theorem tripletRegisters_of_ok {t : MopsType} {w : Word} (h : mopsRegistersOk t w = true) :
    TripletRegisters w := by
  simp only [mopsRegistersOk, Bool.and_eq_true, Bool.not_eq_true', Bool.or_eq_false_iff,
    beq_eq_false_iff_ne] at h
  obtain ⟨⟨⟨⟨⟨⟨hdn, hds⟩, hns⟩, hd⟩, hn⟩, -⟩, -⟩ := h
  exact ⟨hdn, hds, hns, hd, hn⟩

theorem source_ne_of_ok {w : Word} (h : mopsRegistersOk .cpy w = true) : w.getRs ≠ 31 := by
  intro hs
  simp [mopsRegistersOk, hs] at h

theorem withPart_registers (w : Word) {part : Word} (hpart : part.toNat < 4) {lsb : Nat}
    (hlsb : lsb = 14 ∨ lsb = 22) :
    (withPart w lsb part).getRd = w.getRd ∧ (withPart w lsb part).getRn = w.getRn ∧
      (withPart w lsb part).getRs = w.getRs := by
  refine ⟨?_, ?_, ?_⟩
  · exact extractLsb_withPart w hpart (by omega) (by omega) (by omega)
  · exact extractLsb_withPart w hpart (by omega) (by omega) (by omega)
  · exact extractLsb_withPart w hpart (by omega) (by omega) (by omega)

/-- How many bytes a copy moves. -/
def copyLength (w : Word) (c : Core) : Addr := mopsCount .cpy (c.readXRegister w.getRn)

def copyBack (w : Word) (c : Core) : Bool :=
  copiesBackwards (c.readXRegister w.getRd) (c.readXRegister w.getRs) (copyLength w c)

/-- What the main part of a copy finds. -/
structure Prepared (w : Word) (c c' : Core) : Prop where
  rest : SameMemory c c'
  backwards : c'.readN = copyBack w c
  count : c'.readXRegister w.getRn = copyLength w c
  destination : c'.readXRegister w.getRd =
    if copyBack w c then c.readXRegister w.getRd + copyLength w c else c.readXRegister w.getRd
  source : c'.readXRegister w.getRs =
    if copyBack w c then c.readXRegister w.getRs + copyLength w c else c.readXRegister w.getRs

theorem copyPrepared_prepared {w : Word} (h : mopsRegistersOk .cpy w = true) (c : Core) :
    Prepared w c (copyPrepared w c) := by
  have hregs := tripletRegisters_of_ok h
  have hs := source_ne_of_ok h
  have hread := fun r => mopsPrepared_register .cpy w c r hregs.n_ne
  have hcount := hread w.getRn
  have hdst := hread w.getRd
  have hsrc := hread w.getRs
  rw [if_pos rfl] at hcount
  rw [if_neg hregs.d_ne_n] at hdst
  rw [if_neg hregs.n_ne_s.symm] at hsrc
  have hsetN (d : Core) (b : Bool) (r : BitVec 5) : (d.setN b).readXRegister r =
      d.readXRegister r := rfl
  have hrest (d : Core) (b : Bool) : SameMemory d (d.setN b) := ⟨rfl, rfl, rfl⟩
  have hprepared := mopsPrepared_memory .cpy w c
  simp only [copyPrepared, hcount, hdst, hsrc]
  cases hback : copyBack w c with
  | true =>
      rw [copyBack, copyLength] at hback
      rw [hback]
      simp only [if_true]
      exact
        { rest := ((hprepared.trans (sameMemory_writeTransfer _ _ _)).trans
            (sameMemory_writeTransfer _ _ _)).trans (hrest _ _)
          backwards := by rw [readN_setN, copyBack, copyLength, hback]
          count := by
            rw [hsetN, readXRegister_writeTransfer, if_neg fun h => hregs.d_ne_n h.1.symm,
              readXRegister_writeTransfer, if_neg fun h => hregs.n_ne_s h.1, hcount]
            rfl
          destination := by
            rw [hsetN, readXRegister_writeTransfer, if_pos ⟨rfl, hregs.d_ne⟩, copyBack, copyLength,
              hback]
            rfl
          source := by
            rw [hsetN, readXRegister_writeTransfer, if_neg fun h => hregs.d_ne_s h.1.symm,
              readXRegister_writeTransfer, if_pos ⟨rfl, hs⟩, copyBack, copyLength, hback]
            rfl }
  | false =>
      rw [copyBack, copyLength] at hback
      rw [hback]
      simp only [Bool.false_eq_true, if_false]
      exact
        { rest := hprepared.trans (hrest _ _)
          backwards := by rw [readN_setN, copyBack, copyLength, hback]
          count := by
            rw [hsetN, hcount]
            rfl
          destination := by
            rw [hsetN, hdst, copyBack, copyLength, hback]
            rfl
          source := by
            rw [hsetN, hsrc, copyBack, copyLength, hback]
            rfl }

/-- The state in which the main part of a copy starts. -/
structure Ready (w : Word) (c c' : Core) : Prop where
  memory : c'.memory = c.memory
  mteTags : c'.mteTags = c.mteTags
  pc : c'.pc = c.pc + 4
  lastInstr : c'.lastInstr = c.pc
  backwards : copyBackwards c' = copyBack w c
  count : c'.readXRegister w.getRn = copyLength w c
  destination : c'.readXRegister w.getRd =
    if copyBack w c then c.readXRegister w.getRd + copyLength w c else c.readXRegister w.getRd
  source : c'.readXRegister w.getRs =
    if copyBack w c then c.readXRegister w.getRs + copyLength w c else c.readXRegister w.getRs

theorem Prepared.ready {w : Word} {c c' : Core} (h : Prepared w c c') {next : Core → Core}
    (hnext : Proceeds next) : Ready w c (next c') := by
  have hreg := readXRegister_congr (hnext.registers c')
  exact
    { memory := (hnext.memory c').trans h.rest.memory
      mteTags := (hnext.mteTags c').trans h.rest.mteTags
      pc := by rw [hnext.pc, h.rest.pc]
      lastInstr := by rw [hnext.lastInstr, h.rest.pc]
      backwards := by rw [copyBackwards, readN_congr (hnext.nzcv c'), h.backwards]
      count := by rw [hreg, h.count]
      destination := by rw [hreg, h.destination]
      source := by rw [hreg, h.source] }

namespace Ready

variable {w : Word} {c c' : Core}

theorem step (h : Ready w c c') : copyStep c' = if copyBack w c then -1 else 1 := by
  rw [copyStep, h.backwards]

theorem first (h : Ready w c c') (x : Addr) :
    copyFrom c' (if copyBack w c then x + copyLength w c else x) =
      if copyBack w c then x + copyLength w c - 1 else x := by
  rw [copyFrom, h.backwards]
  split_ifs <;> rfl

/-- Where a pointer ends: at the end of its block, or back at the beginning. -/
theorem last (h : Ready w c c') (x : Addr) :
    (if copyBack w c then x + copyLength w c else x) + copyStep c' * copyLength w c =
      if copyBack w c then x else x + copyLength w c := by
  have hone : (1 : Addr) * copyLength w c = copyLength w c := BitVec.one_mul _
  rw [h.step]
  split_ifs
  · rw [BitVec.neg_mul, hone, BitVec.add_neg_eq_sub, BitVec.add_sub_cancel]
  · rw [hone]

end Ready

theorem loopGranted_first {m : AccessChecks} {c c' : Core} {back : Bool} {x xn : Addr}
    (h : LoopGranted m c 1 x xn.toNat) (htags : c'.mteTags = c.mteTags) :
    LoopGranted m c' (if back then -1 else 1) (if back then x + xn - 1 else x) xn.toNat := by
  intro i hi
  cases back with
  | false =>
      rw [htags]
      exact h i hi
  | true =>
      simp only [if_true]
      rw [loopAddress_backwards x xn hi, htags]
      exact h _ (by omega)

/-- What a copy of `n` bytes leaves in the state. -/
structure Copied (w : Word) (c c' : Core) : Prop where
  block : MovedBlock c.memory c'.memory (c.readXRegister w.getRd) (c.readXRegister w.getRs)
    (copyLength w c).toNat
  count : c'.readXRegister w.getRn = 0
  destination : c'.readXRegister w.getRd =
    if copyBack w c then c.readXRegister w.getRd else c.readXRegister w.getRd + copyLength w c
  source : c'.readXRegister w.getRs =
    if copyBack w c then c.readXRegister w.getRs else c.readXRegister w.getRs + copyLength w c

theorem copied_copies {w w' : Word} {c c' : Core} (h : Ready w c c')
    (hregs : TripletRegisters w) (hs : w.getRs ≠ 31)
    (hw : w'.getRd = w.getRd ∧ w'.getRn = w.getRn ∧ w'.getRs = w.getRs)
    (hfd : BlockFits (c.readXRegister w.getRd) (copyLength w c).toNat)
    (hfs : BlockFits (c.readXRegister w.getRs) (copyLength w c).toNat) :
    Copied w c (copied w' c') := by
  obtain ⟨hRd, hRn, hRs⟩ := hw
  have hloop := movedBlock_loop (mopsCount_cpy_lt (c.readXRegister w.getRn)) hfd hfs c.memory
  have hread (d : Core) (mem : Memory) (r : BitVec 5) :
      (d.withMemory mem).readXRegister r = d.readXRegister r := rfl
  have hmem (d : Core) (r s t : BitVec 5) (x y z : BitVec 64) :
      (writeTransfer (writeTransfer (writeTransfer d r x) s y) t z).memory = d.memory :=
    (((sameMemory_writeTransfer d r x).trans (sameMemory_writeTransfer _ s y)).trans
      (sameMemory_writeTransfer _ t z)).memory
  simp only [copied, hRd, hRn, hRs, h.count, h.destination, h.source, h.first, h.last, h.memory]
  exact
    { block := by
        rw [hmem, Core.withMemory_memory, h.step]
        exact hloop
      count := by
        rw [readXRegister_writeTransfer, if_neg fun heq => hregs.n_ne_s heq.1,
          readXRegister_writeTransfer, if_pos ⟨rfl, hregs.n_ne⟩]
      destination := by
        rw [readXRegister_writeTransfer, if_neg fun heq => hregs.d_ne_s heq.1,
          readXRegister_writeTransfer, if_neg fun heq => hregs.d_ne_n heq.1,
          readXRegister_writeTransfer, if_pos ⟨rfl, hregs.d_ne⟩]
      source := by rw [readXRegister_writeTransfer, if_pos ⟨rfl, hs⟩] }

theorem copied_rest (w : Word) (c : Core) :
    (copied w c).pc = c.pc ∧ (copied w c).mteTags = c.mteTags := by
  have hrest (d : Core) (r s t : BitVec 5) (x y z : BitVec 64) :
      SameMemory d (writeTransfer (writeTransfer (writeTransfer d r x) s y) t z) :=
    ((sameMemory_writeTransfer d r x).trans (sameMemory_writeTransfer _ s y)).trans
      (sameMemory_writeTransfer _ t z)
  exact ⟨(hrest _ _ _ _ _ _ _).pc, (hrest _ _ _ _ _ _ _).mteTags⟩

theorem Copied.proceeds {w : Word} {c c' : Core} (h : Copied w c c') {next : Core → Core}
    (hnext : Proceeds next) : Copied w c (next c') := by
  have hreg := readXRegister_congr (hnext.registers c')
  exact
    { block := by rw [hnext.memory]; exact h.block
      count := by rw [hreg, h.count]
      destination := by rw [hreg, h.destination]
      source := by rw [hreg, h.source] }

/--
A copy triplet copies as if through a buffer, whether or not the blocks overlap.
The blocks must not wrap, every access must be granted, and the destination must
not meet the code of the triplet.
-/
theorem copyTriplet_copies {m : AccessChecks} {w : Word} {c : Core} {next : Core → Core}
    (hnext : Proceeds next) (hcode : TripletAt c.memory c.pc w 22)
    (hregisters : mopsRegistersOk .cpy w = true)
    (hd : BlockFits (c.readXRegister w.getRd) (copyLength w c).toNat)
    (hs : BlockFits (c.readXRegister w.getRs) (copyLength w c).toNat)
    (hkept : CodeKept c.pc (c.readXRegister w.getRd) (copyLength w c).toNat)
    (hread : LoopGranted m c 1 (c.readXRegister w.getRs) (copyLength w c).toNat)
    (hwrite : LoopGranted m c 1 (c.readXRegister w.getRd) (copyLength w c).toNat) :
    ∃ c', runTriplet (simulateCpyP m w) (simulateCpyM m (withPart w 22 1))
      (mopsEpilogue m .cpy (withPart w 22 2)) next c = .ok c' ∧ Copied w c c' := by
  have hregs := tripletRegisters_of_ok hregisters
  have hsne := source_ne_of_ok hregisters
  have hcode : TripletAt c.memory c.pc w MopsType.cpy.opLsb := hcode
  have hprologue : mopsPrologueOk m c .cpy w = true := hcode.prologueOk rfl rfl
  have hready := (copyPrepared_prepared hregisters c).ready hnext
  have hw := withPart_registers w (show (1 : Word).toNat < 4 by decide) (.inr rfl)
  have hmain : mopsMainOk m (next (copyPrepared w c)) (withPart w 22 1) 22 = true :=
    hcode.mainOk hready.memory hready.pc hready.lastInstr
  have hloops := quiet_simulateCpyM hmain
    (by rw [hw.2.2, hw.2.1, hready.source, hready.first, hready.step, hready.count]
        exact loopGranted_first hread hready.mteTags)
    (by rw [hw.1, hw.2.1, hready.destination, hready.first, hready.step, hready.count]
        exact loopGranted_first hwrite hready.mteTags)
  have hcopied := copied_copies hready hregs hsne hw hd hs
  have hdone := hcopied.proceeds hnext
  have hpc : (next (copied (withPart w 22 1) (next (copyPrepared w c)))).pc = c.pc + 8 := by
    rw [hnext.pc, (copied_rest _ _).1, hready.pc]
    exact BitVec.add_assoc c.pc 4 4
  -- The copy has not written over the epilogue.
  have hcode' := hcode.congr fun k hk => hdone.block.kept _ fun i hi => hkept k hk i hi
  have hlast : (next (copied (withPart w 22 1) (next (copyPrepared w c)))).lastInstr =
      c.pc + 4 := by
    rw [hnext.lastInstr, (copied_rest _ _).1, hready.pc]
  have hepilogue := hcode'.epilogueOk (m := m) rfl hpc hlast
  refine ⟨_, ?_, hdone⟩
  simp only [runTriplet, quiet_simulateCpyP hprologue hregisters]
  simp only [bind, Except.bind, hloops]
  exact quiet_mopsEpilogue hepilogue

/-- A prologue at 0x1000 with the other two parts behind it. -/
def tripletCode (w : Word) (lsb : Nat) : Memory :=
  let store (mem : Memory) (a : Addr) (w : Word) : Memory := storeBytes mem a (w.setWidth 128) 4
  store (store (store (fun _ => 0) 0x1000 w) 0x1004 (withPart w lsb 1)) 0x1008 (withPart w lsb 2)

/-- The state in front of the code, with three arguments in X0, X1 and X2. -/
def beforeTriplet (mem : Memory) (x0 x1 x2 : BitVec 64) : Core :=
  { (default : Core) with
    memory := mem
    pc := 0x1000
    registers := fun i => match i.val with
      | 0 => x0
      | 1 => x1
      | 2 => x2
      | _ => 0 }

/-- The program counter moves to the next instruction. -/
def advance (c : Core) : Core := { c with pc := c.pc + 4, lastInstr := c.pc }

theorem advance_proceeds : Proceeds advance :=
  ⟨fun _ => rfl, fun _ => rfl, fun _ => rfl, fun _ => rfl, fun _ => rfl, fun _ => rfl⟩

/-- `CPYP [x0]!, [x1]!, x2!` and its other parts move three bytes up by one. -/
theorem copyTriplet_copies_overlap :
    ∃ c', runTriplet (simulateCpyP .off 0x1d010440) (simulateCpyM .off (withPart 0x1d010440 22 1))
        (mopsEpilogue .off .cpy (withPart 0x1d010440 22 2)) advance
        (beforeTriplet (tripletCode 0x1d010440 22) 0x2001 0x2000 3) = .ok c' ∧
      Copied 0x1d010440 (beforeTriplet (tripletCode 0x1d010440 22) 0x2001 0x2000 3) c' :=
  copyTriplet_copies advance_proceeds
    ⟨by decide, by decide +kernel, by decide +kernel, by decide +kernel⟩ (by decide)
    (show _ ≤ _ by decide +kernel) (show _ ≤ _ by decide +kernel)
    (show ∀ k < 12, ∀ i < 3, _ by decide +kernel) (show ∀ i < 3, _ by decide +kernel)
    (show ∀ i < 3, _ by decide +kernel)

/-- How many bytes a set fills. -/
def setLength (w : Word) (c : Core) : Addr := mopsCount .set (c.readXRegister w.getRn)

/-- What a set of `n` bytes leaves in the state. -/
structure Filled (w : Word) (c c' : Core) : Prop where
  block : FilledBlock c.memory c'.memory (c.readXRegister w.getRd)
    ((c.readXRegister w.getRs).setWidth 8) (setLength w c).toNat
  count : c'.readXRegister w.getRn = 0
  destination : c'.readXRegister w.getRd = c.readXRegister w.getRd + setLength w c

theorem filled_rest (w : Word) (c : Core) :
    (filled w c).pc = c.pc ∧ (filled w c).mteTags = c.mteTags := by
  have hrest (d : Core) (r s : BitVec 5) (x y : BitVec 64) :
      SameMemory d (writeTransfer (writeTransfer d r x) s y) :=
    (sameMemory_writeTransfer d r x).trans (sameMemory_writeTransfer _ s y)
  exact ⟨(hrest _ _ _ _ _).pc, (hrest _ _ _ _ _).mteTags⟩

/-- A set triplet fills its block with the low byte of the source register. -/
theorem setTriplet_fills {m : AccessChecks} {w : Word} {c : Core} {next : Core → Core}
    (hnext : Proceeds next) (hcode : TripletAt c.memory c.pc w 14)
    (hregisters : mopsRegistersOk .set w = true)
    (hkept : CodeKept c.pc (c.readXRegister w.getRd) (setLength w c).toNat)
    (hwrite : LoopGranted m c 1 (c.readXRegister w.getRd) (setLength w c).toNat) :
    ∃ c', runTriplet (simulateSetP m w) (simulateSetM m (withPart w 14 1))
      (mopsEpilogue m .set (withPart w 14 2)) next c = .ok c' ∧ Filled w c c' := by
  have hregs := tripletRegisters_of_ok hregisters
  have hcode : TripletAt c.memory c.pc w MopsType.set.opLsb := hcode
  have hprologue : mopsPrologueOk m c .set w = true := hcode.prologueOk rfl rfl
  have hfirst : ((simulateSetP m w).run c).quiet = .ok (mopsPrepared .set w c) :=
    quiet_mopsPHelper hprologue hregisters fun _ c => .done c
  have hrest := mopsPrepared_memory .set w c
  have hread (r : BitVec 5) : (next (mopsPrepared .set w c)).readXRegister r =
      if r = w.getRn then setLength w c else c.readXRegister r := by
    rw [readXRegister_congr (hnext.registers _), mopsPrepared_register .set w c r hregs.n_ne]
    rfl
  have hd := hread w.getRd
  have hn := hread w.getRn
  have hs := hread w.getRs
  rw [if_neg hregs.d_ne_n] at hd
  rw [if_pos rfl] at hn
  rw [if_neg hregs.n_ne_s.symm] at hs
  obtain ⟨hRd, hRn, hRs⟩ :=
    withPart_registers w (show (1 : Word).toNat < 4 by decide) (.inl rfl)
  have hmem : (next (mopsPrepared .set w c)).memory = c.memory := by rw [hnext.memory, hrest.memory]
  have hpc : (next (mopsPrepared .set w c)).pc = c.pc + 4 := by rw [hnext.pc, hrest.pc]
  have hmain : mopsMainOk m (next (mopsPrepared .set w c)) (withPart w 14 1) 14 = true :=
    hcode.mainOk hmem hpc (by rw [hnext.lastInstr, hrest.pc])
  have hloop := quiet_simulateSetM hmain (by
    rw [hRd, hRn, hd, hn]
    intro i hi
    rw [hnext.mteTags, hrest.mteTags]
    exact hwrite i hi)
  have hblock := filledBlock_loop (c.readXRegister w.getRd) ((c.readXRegister w.getRs).setWidth 8)
    (setLength w c).toNat c.memory
  have hfilled : Filled w c (next (filled (withPart w 14 1) (next (mopsPrepared .set w c)))) := by
    have hreg := readXRegister_congr
      (hnext.registers (filled (withPart w 14 1) (next (mopsPrepared .set w c))))
    have hstored (d : Core) (r s : BitVec 5) (x y : BitVec 64) :
        (writeTransfer (writeTransfer d r x) s y).memory = d.memory :=
      ((sameMemory_writeTransfer d r x).trans (sameMemory_writeTransfer _ s y)).memory
    exact
      { block := by
          rw [hnext.memory]
          simp only [filled, hRd, hRn, hRs, hd, hn, hs, hmem, hstored, Core.withMemory_memory]
          exact hblock
        count := by
          rw [hreg]
          simp only [filled, hRn]
          rw [readXRegister_writeTransfer, if_pos ⟨rfl, hregs.n_ne⟩]
        destination := by
          rw [hreg]
          simp only [filled, hRd, hRn, hd, hn]
          rw [readXRegister_writeTransfer, if_neg fun heq => hregs.d_ne_n heq.1,
            readXRegister_writeTransfer, if_pos ⟨rfl, hregs.d_ne⟩] }
  have hpc' : (next (filled (withPart w 14 1) (next (mopsPrepared .set w c)))).pc = c.pc + 8 := by
    rw [hnext.pc, (filled_rest _ _).1, hpc]
    exact BitVec.add_assoc c.pc 4 4
  have hcode' := hcode.congr fun k hk => hfilled.block.kept _ fun i hi => hkept k hk i hi
  have hlast : (next (filled (withPart w 14 1) (next (mopsPrepared .set w c)))).lastInstr =
      c.pc + 4 := by
    rw [hnext.lastInstr, (filled_rest _ _).1, hpc]
  have hepilogue := hcode'.epilogueOk (m := m) rfl hpc' hlast
  refine ⟨_, ?_, hfilled⟩
  simp only [runTriplet, hfirst]
  simp only [bind, Except.bind, hloop]
  exact quiet_mopsEpilogue hepilogue

/-- `SETP [x0]!, x1!, x2` and its other parts fill three bytes. -/
theorem setTriplet_fills_three :
    ∃ c', runTriplet (simulateSetP .off 0x19c20420) (simulateSetM .off (withPart 0x19c20420 14 1))
        (mopsEpilogue .off .set (withPart 0x19c20420 14 2)) advance
        (beforeTriplet (tripletCode 0x19c20420 14) 0x2000 3 0xab) = .ok c' ∧
      Filled 0x19c20420 (beforeTriplet (tripletCode 0x19c20420 14) 0x2000 3 0xab) c' :=
  setTriplet_fills advance_proceeds
    ⟨by decide, by decide +kernel, by decide +kernel, by decide +kernel⟩ (by decide)
    (show ∀ k < 12, ∀ i < 3, _ by decide +kernel) (show ∀ i < 3, _ by decide +kernel)

end GabyVm.Aarch64
