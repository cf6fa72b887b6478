import GabyVm.Aarch64.RegisterLeaves
import GabyVm.Aarch64.VectorLanes
import GabyVm.Foundation.Limbs

/-!
# Arithmetic on numbers of several words

Guest code adds and subtracts numbers of several words with one instruction
that sets the carry and others that read it and set it again.  The carry after
the last one is that of the whole numbers, and the conditions that it and the
sign set order them.
-/

namespace GabyVm.Aarch64

open GabyVm.Foundation

/-! ## The visitors -/

def visitAddSubShifted (debug : Bool) : Leaf := fun w c =>
  if debug && w.getShiftDP == 3 then
    .abort "Assertion failed (instr->GetShiftDP() != ROR)" c
  else
    addSubHelper w (shiftOperand w.getSixtyFourBits
      (c.readReg w.getSixtyFourBits w.getRm .zeroRegister) w.getShiftDP w.getImmDPShift) c

def visitAddSubWithCarry : Leaf := fun w c =>
  let rm := c.readReg w.getSixtyFourBits w.getRm .zeroRegister
  let op2 := if w.getLsbD 30 then ~~~rm else rm
  let result := addWithCarry w.getSixtyFourBits
    (c.readReg w.getSixtyFourBits w.getRn .zeroRegister) op2 c.readC
  let c := if w.getFlagsUpdate then c.setFlags result.2 else c
  .done (c.writeReg w.getSixtyFourBits w.getRd result.1 .zeroRegister)

/-! ## Single words -/

def wordBase (s : Bool) : Nat := 2 ^ regSize s

def wordValue (s : Bool) (x : BitVec 64) : Nat := (sized s x).toNat

/-- A word of either size as a number with a sign. -/
def wordSigned (s : Bool) (x : BitVec 64) : Int :=
  if s then x.toInt else (x.setWidth 32).toInt

theorem wordValue_lt (s : Bool) (x : BitVec 64) : wordValue s x < wordBase s := by
  cases s with
  | true => exact x.isLt
  | false =>
      have h := (x.setWidth 32).isLt
      simp only [wordValue, wordBase, sized, regSize, Bool.false_eq_true, if_false,
        BitVec.toNat_setWidth] at h ⊢
      omega

theorem wordValue_not (s : Bool) (x : BitVec 64) :
    wordValue s (~~~x) + wordValue s x + 1 = wordBase s := by
  cases s <;>
    simp only [wordValue, wordBase, sized, regSize, Bool.false_eq_true, if_false, if_true,
      BitVec.toNat_setWidth, BitVec.toNat_not] <;>
    omega

theorem wordSigned_not (s : Bool) (x : BitVec 64) : wordSigned s (~~~x) = -1 - wordSigned s x := by
  cases s <;>
    simp only [wordSigned, Bool.false_eq_true, if_false, if_true, BitVec.toInt_eq_toNat_cond,
      BitVec.toNat_setWidth, BitVec.toNat_not] <;>
    omega

theorem sized_sized (s : Bool) (x : BitVec 64) : sized s (sized s x) = sized s x := by
  cases s with
  | true => rfl
  | false => exact sized_narrow (by omega) (x.setWidth 32)

theorem sign_getLsbD (s : Bool) (x : BitVec 64) :
    (sized s x).getLsbD (regSize s - 1) = decide (wordSigned s x < 0) := by
  have hx := x.isLt
  rw [BitVec.getLsbD, Nat.testBit_eq_decide_div_mod_eq, decide_eq_decide]
  cases s <;>
    simp only [wordSigned, sized, regSize, Bool.false_eq_true, if_false, if_true,
      BitVec.toInt_eq_toNat_cond, BitVec.toNat_setWidth] <;>
    omega

theorem and_signMask (s : Bool) (x : BitVec 64) :
    sized s x &&& signMask s = if wordSigned s x < 0 then signMask s else 0 := by
  have hmask : signMask s = BitVec.twoPow 64 (regSize s - 1) := by cases s <;> rfl
  rw [hmask, BitVec.and_twoPow, sign_getLsbD]
  by_cases hneg : wordSigned s x < 0 <;> simp [hneg]

theorem wordSigned_cases (s : Bool) (x : BitVec 64) :
    wordSigned s x = wordValue s x - (if wordSigned s x < 0 then (wordBase s : Int) else 0) ∧
      (wordSigned s x < 0 ↔ wordBase s ≤ 2 * wordValue s x) := by
  cases s <;>
    simp only [wordSigned, wordValue, wordBase, sized, regSize, Bool.false_eq_true, if_false,
      if_true, BitVec.toInt_eq_toNat_cond, BitVec.toNat_setWidth] <;>
    constructor <;> omega

/-! ## Addition of words -/

theorem sized_addWithCarry (s : Bool) (x y : BitVec 64) (c : Bool) :
    sized s (addWithCarry s x y c).1 = (addWithCarry s x y c).1 := by
  change sized s (_ &&& regMask s) = _ &&& regMask s
  rw [and_regMask, sized_sized]

theorem addWithCarry_value (s : Bool) (x y : BitVec 64) (c : Bool) :
    wordValue s (addWithCarry s x y c).1 =
      (wordValue s x + wordValue s y + c.toNat) % wordBase s := by
  rw [wordValue, sized_addWithCarry]
  simp only [addWithCarry, and_regMask, wordValue]
  cases s <;> cases c <;>
    simp only [sized, regSize, wordBase, Bool.false_eq_true, if_false, if_true, Bool.toNat_false,
      Bool.toNat_true, BitVec.toNat_setWidth, BitVec.toNat_add, BitVec.ofNat_eq_ofNat,
      BitVec.toNat_ofNat] <;>
    omega

theorem addWithCarry_carry (s : Bool) (x y : BitVec 64) (c : Bool) :
    (addWithCarry s x y c).2.c = decide (wordBase s ≤ wordValue s x + wordValue s y + c.toNat) := by
  have hx := wordValue_lt s x
  have hy := wordValue_lt s y
  simp only [addWithCarry, and_regMask]
  rw [← Bool.decide_or, decide_eq_decide, BitVec.lt_def, BitVec.lt_def,
    BitVec.toNat_sub (regMask s - if c then 1 else 0)]
  change _ < wordValue s x ∨ _ < wordValue s y ↔ _
  have hmask : (regMask s - if c then 1 else 0).toNat = wordBase s - 1 - c.toNat := by
    cases s <;> cases c <;> rfl
  rw [hmask]
  change wordBase s - 1 - c.toNat < wordValue s x ∨
    (2 ^ 64 - wordValue s x + (wordBase s - 1 - c.toNat)) % 2 ^ 64 < wordValue s y ↔ _
  generalize wordValue s x = left at hx ⊢
  generalize wordValue s y = right at hy ⊢
  cases s <;> cases c <;> simp only [wordBase, regSize, Bool.false_eq_true, if_false, if_true,
    Bool.toNat_false, Bool.toNat_true] at hx hy ⊢ <;> omega

theorem addsLimbs_addWithCarry (s : Bool) :
    AddsLimbs (addWithCarry s) Flags.c (wordBase s) (wordValue s) where
  sum x y c := by
    have hx := wordValue_lt s x
    have hy := wordValue_lt s y
    rw [addWithCarry_value, addWithCarry_carry]
    by_cases hcarry : wordBase s ≤ wordValue s x + wordValue s y + c.toNat
    · have hc := Bool.toNat_le c
      rw [decide_eq_true hcarry, Bool.toNat_true, Nat.mul_one, Nat.mod_eq_sub_mod hcarry,
        Nat.mod_eq_of_lt (by omega)]
      omega
    · rw [decide_eq_false hcarry, Bool.toNat_false, Nat.mul_zero, Nat.mod_eq_of_lt (by omega)]
      rfl
  lt := wordValue_lt s

theorem addWithCarry_overflow (s : Bool) (x y : BitVec 64) (c : Bool) :
    (addWithCarry s x y c).2.v =
      (decide (wordSigned s x < 0 ↔ wordSigned s y < 0) &&
        !decide (wordSigned s x < 0 ↔ wordSigned s (addWithCarry s x y c).1 < 0)) := by
  have hne : signMask s ≠ 0#64 := by cases s <;> decide
  have hne' : 0#64 ≠ signMask s := hne.symm
  change ((x &&& regMask s) &&& signMask s == (y &&& regMask s) &&& signMask s &&
    (x &&& regMask s) &&& signMask s != (addWithCarry s x y c).1 &&& signMask s) = _
  rw [and_regMask, and_regMask, ← sized_addWithCarry s x y c, and_signMask, and_signMask,
    and_signMask, sized_addWithCarry]
  by_cases hx : wordSigned s x < 0 <;> by_cases hy : wordSigned s y < 0 <;>
    by_cases hr : wordSigned s (addWithCarry s x y c).1 < 0 <;>
      simp [hx, hy, hr, hne, hne']

/-- The sum is negative when the sign and the overflow differ. -/
def Flags.less (f : Flags) : Bool := f.n != f.v

theorem tellsSign_addWithCarry (s : Bool) :
    TellsSign (addWithCarry s) Flags.less (wordSigned s) := by
  intro x y c
  have hresult := addWithCarry_value s x y c
  have hx := wordSigned_cases s x
  have hy := wordSigned_cases s y
  have hr := wordSigned_cases s (addWithCarry s x y c).1
  have hn : (addWithCarry s x y c).2.n = decide (wordSigned s (addWithCarry s x y c).1 < 0) := by
    rw [← sign_getLsbD, sized_addWithCarry]
    rfl
  rw [Flags.less, hn, addWithCarry_overflow]
  generalize (addWithCarry s x y c).1 = result at hresult hr
  by_cases hxneg : wordSigned s x < 0 <;> by_cases hyneg : wordSigned s y < 0 <;>
    by_cases hrneg : wordSigned s result < 0 <;>
      cases s <;> cases c <;>
        simp only [hxneg, hyneg, hrneg, wordBase, regSize, if_true, if_false, Bool.false_eq_true,
          Bool.toNat_true, Bool.toNat_false, true_iff, false_iff] at hx hy hr hresult ⊢ <;>
        simp <;> omega

/-! ## Instructions of a chain -/

/-- The registers of one instruction. -/
structure Limb where
  rd : BitVec 5
  rn : BitVec 5
  rm : BitVec 5

namespace Core

def word (c : Core) (s : Bool) (r : BitVec 5) : BitVec 64 := c.readReg s r .zeroRegister

def flags (c : Core) : Flags := ⟨c.readN, c.readZ, c.readC, c.readV⟩

theorem flags_setFlags (c : Core) (f : Flags) : (c.setFlags f).flags = f := by
  obtain ⟨hn, hz, hc, hv⟩ := setFlags_getLsbD c.nzcv f
  simp only [flags, readN, readZ, readC, readV, setFlags, hn, hz, hc, hv]

end Core

/-- Only the flags, the form hash and these registers may differ. -/
structure WritesRegisters (rds : List (BitVec 5)) (c c' : Core) : Prop where
  others : ∀ r : BitVec 5, r = 31 ∨ r ∉ rds → c'.registers r.toFin = c.registers r.toFin
  vregisters : c'.vregisters = c.vregisters
  memory : c'.memory = c.memory
  pc : c'.pc = c.pc

namespace WritesRegisters

variable {rds rds' : List (BitVec 5)} {c c' c'' : Core}

theorem refl (rds : List (BitVec 5)) (c : Core) : WritesRegisters rds c c :=
  ⟨fun _ _ => rfl, rfl, rfl, rfl⟩

theorem trans (h : WritesRegisters rds c c') (h' : WritesRegisters rds c' c'') :
    WritesRegisters rds c c'' :=
  ⟨fun r hr => (h'.others r hr).trans (h.others r hr), h'.vregisters.trans h.vregisters,
    h'.memory.trans h.memory, h'.pc.trans h.pc⟩

theorem mono (h : WritesRegisters rds c c') (hsub : rds ⊆ rds') : WritesRegisters rds' c c' :=
  ⟨fun r hr => h.others r (hr.imp_right fun hnot hmem => hnot (hsub hmem)), h.vregisters,
    h.memory, h.pc⟩

theorem word (h : WritesRegisters rds c c') (s : Bool) {r : BitVec 5} (hr : r = 31 ∨ r ∉ rds) :
    c'.word s r = c.word s r := by
  rw [Core.word, Core.word, Core.readReg, Core.readReg, h.others r hr]

theorem writeReg (c : Core) (s : Bool) (rd : BitVec 5) (value : BitVec 64) :
    WritesRegisters [rd] c (c.writeReg s rd value .zeroRegister) := by
  by_cases hzero : rd = 31
  · rw [Core.writeReg, if_pos ⟨hzero, rfl⟩]
    exact refl _ c
  · rw [Core.writeReg, if_neg fun h => hzero h.1]
    refine ⟨fun r hr => ?_, rfl, rfl, rfl⟩
    have hne : r.toFin ≠ rd.toFin := by
      intro heq
      rcases hr with hr | hr
      · exact hzero ((BitVec.toFin_inj.mp heq).symm.trans hr)
      · exact hr (by simp [BitVec.toFin_inj.mp heq])
    exact if_neg hne

end WritesRegisters

theorem Core.word_writeReg (c : Core) (s : Bool) {rd : BitVec 5} (hzero : rd ≠ 31)
    (value : BitVec 64) : (c.writeReg s rd value .zeroRegister).word s rd = sized s value := by
  rw [Core.word, Core.readReg, if_neg fun h => hzero h.1, Core.writeReg, if_neg fun h => hzero h.1]
  simp only [Core.writeRegister, if_true]
  rw [sized_sized]

namespace Limb

def operands (l : Limb) (s subtract : Bool) (c : Core) : BitVec 64 × BitVec 64 :=
  (c.word s l.rn, if subtract then ~~~c.word s l.rm else c.word s l.rm)

/-- The state after the instruction. -/
def apply (l : Limb) (s subtract carryIn : Bool) (c : Core) : Core :=
  let sum := addWithCarry s (l.operands s subtract c).1 (l.operands s subtract c).2 carryIn
  (c.setFlags sum.2).writeReg s l.rd sum.1 .zeroRegister

theorem flags_writeReg (c : Core) (s : Bool) (r : BitVec 5) (value : BitVec 64) :
    (c.writeReg s r value .zeroRegister).flags = c.flags := by
  unfold Core.writeReg
  split_ifs <;> rfl

theorem flags_apply (l : Limb) (s subtract carryIn : Bool) (c : Core) :
    (l.apply s subtract carryIn c).flags =
      (addWithCarry s (l.operands s subtract c).1 (l.operands s subtract c).2 carryIn).2 := by
  rw [apply, flags_writeReg, Core.flags_setFlags]

theorem writes_apply (l : Limb) (s subtract carryIn : Bool) (c : Core) :
    WritesRegisters [l.rd] c (l.apply s subtract carryIn c) := by
  have hwrite := WritesRegisters.writeReg (c.setFlags (addWithCarry s (l.operands s subtract c).1
    (l.operands s subtract c).2 carryIn).2) s l.rd
    (addWithCarry s (l.operands s subtract c).1 (l.operands s subtract c).2 carryIn).1
  exact ⟨hwrite.others, hwrite.vregisters, hwrite.memory, hwrite.pc⟩

theorem word_apply (l : Limb) (s subtract carryIn : Bool) (c : Core) (hzero : l.rd ≠ 31) :
    (l.apply s subtract carryIn c).word s l.rd =
      (addWithCarry s (l.operands s subtract c).1 (l.operands s subtract c).2 carryIn).1 := by
  rw [apply, Core.word_writeReg _ s hzero, sized_addWithCarry]

theorem operands_congr {rds : List (BitVec 5)} {c c' : Core} (h : WritesRegisters rds c c')
    (l : Limb) (s subtract : Bool) (hn : l.rn = 31 ∨ l.rn ∉ rds) (hm : l.rm = 31 ∨ l.rm ∉ rds) :
    l.operands s subtract c' = l.operands s subtract c := by
  rw [operands, operands, h.word s hn, h.word s hm]

end Limb

structure ChainFields (s subtract : Bool) (l : Limb) (w : Word) : Prop where
  size : w.getSixtyFourBits = s
  operation : w.getLsbD 30 = subtract
  flags : w.getFlagsUpdate = true
  rd : w.getRd = l.rd
  rn : w.getRn = l.rn
  rm : w.getRm = l.rm

/-- `ADDS` or `SUBS` of registers without a shift. -/
structure FirstVisit (debug s subtract : Bool) (l : Limb) (v : Visit) : Prop where
  fields : ChainFields s subtract l v.word
  leaf : v.leaf = visitAddSubShifted debug
  kind : v.word &&& 0x1f200000 = 0x0b000000
  shift : v.word.getShiftDP ≠ 3
  amount : v.word.getImmDPShift = 0

/-- `ADCS` or `SBCS`. -/
structure NextVisit (s subtract : Bool) (l : Limb) (v : Visit) : Prop where
  fields : ChainFields s subtract l v.word
  leaf : v.leaf = visitAddSubWithCarry

theorem shifted_modes {w : Word} (h : w &&& 0x1f200000 = 0x0b000000) :
    w.getRnMode = .zeroRegister ∧ w.getRdMode = .zeroRegister := by
  have hadd : w.isAddSubImmediate = false :=
    beq_eq_false_iff_ne.mpr (class_disjoint h (by decide))
  have hext : w.isAddSubExtended = false :=
    beq_eq_false_iff_ne.mpr (class_disjoint h (by decide))
  have hlog : w.isLogicalImmediate = false :=
    beq_eq_false_iff_ne.mpr (class_disjoint h (by decide))
  have hload : w.isLoadOrStore = false :=
    beq_eq_false_iff_ne.mpr (class_disjoint h (by decide))
  simp [Word.getRnMode, Word.getRdMode, hadd, hext, hlog, hload]

theorem FirstVisit.run {debug s subtract : Bool} {l : Limb} {v : Visit}
    (h : FirstVisit debug s subtract l v) (c : Core) :
    v.run c = .ok (l.apply s subtract subtract (c.writeFormHash (formHash v.form))) := by
  obtain ⟨hn, hd⟩ := shifted_modes h.kind
  have hshift : (v.word.getShiftDP == 3) = false := beq_eq_false_iff_ne.mpr h.shift
  rw [Visit.run, h.leaf]
  generalize c.writeFormHash (formHash v.form) = d
  simp only [visitAddSubShifted, hshift, Bool.and_false, Bool.false_eq_true, if_false, shiftOperand,
    h.amount, if_true, addSubHelper, addSubResult, h.fields.operation, h.fields.flags,
    h.fields.size, h.fields.rd, h.fields.rn, h.fields.rm, hn, hd]
  cases subtract <;> rfl

theorem NextVisit.run {s subtract : Bool} {l : Limb} {v : Visit} (h : NextVisit s subtract l v)
    (c : Core) :
    v.run c = .ok (l.apply s subtract c.readC (c.writeFormHash (formHash v.form))) := by
  have hcarry : (c.writeFormHash (formHash v.form)).readC = c.readC := rfl
  rw [Visit.run, h.leaf, ← hcarry]
  generalize c.writeFormHash (formHash v.form) = d
  simp only [visitAddSubWithCarry, h.fields.operation, h.fields.flags, h.fields.size, h.fields.rd,
    h.fields.rn, h.fields.rm, if_true]
  rfl

/-! ## Chains -/

/-- No instruction overwrites what a later one reads. -/
def SourcesKept (ls : List Limb) : Prop :=
  ls.Pairwise fun l l' => (l'.rn = 31 ∨ l'.rn ≠ l.rd) ∧ (l'.rm = 31 ∨ l'.rm ≠ l.rd)

/-- Every result is in a register of its own. -/
structure ResultsKept (ls : List Limb) : Prop where
  nonzero : ∀ l ∈ ls, l.rd ≠ 31
  distinct : ls.Pairwise fun l l' => l.rd ≠ l'.rd

/-- What a chain leaves: a ripple over the words that its instructions read. -/
structure Ripples (s subtract : Bool) (ls : List Limb) (start : Flags) (c c' : Core) : Prop where
  flags : c'.flags = (ripple (addWithCarry s) Flags.c (ls.map (·.operands s subtract c)) start).2
  results : ResultsKept ls → ls.map (fun l => c'.word s l.rd) =
    (ripple (addWithCarry s) Flags.c (ls.map (·.operands s subtract c)) start).1
  writes : WritesRegisters (ls.map Limb.rd) c c'

theorem Ripples.cons {s subtract : Bool} {l : Limb} {ls : List Limb} {start : Flags} {c c' : Core}
    {hash : FormHash} (hsources : SourcesKept (l :: ls))
    (h : Ripples s subtract ls (l.apply s subtract start.c (c.writeFormHash hash)).flags
      (l.apply s subtract start.c (c.writeFormHash hash)) c') :
    Ripples s subtract (l :: ls) start c c' := by
  obtain ⟨hhead, -⟩ := List.pairwise_cons.mp hsources
  have hfirst : WritesRegisters [l.rd] c (l.apply s subtract start.c (c.writeFormHash hash)) :=
    have hform : WritesRegisters [l.rd] c (c.writeFormHash hash) := ⟨fun _ _ => rfl, rfl, rfl, rfl⟩
    hform.trans (l.writes_apply s subtract start.c _)
  have hoperands : ls.map (·.operands s subtract (l.apply s subtract start.c
      (c.writeFormHash hash))) = ls.map (·.operands s subtract c) := by
    apply List.map_congr_left
    intro l' hl'
    exact l'.operands_congr hfirst s subtract (by simpa using (hhead l' hl').1)
      (by simpa using (hhead l' hl').2)
  have hflags := h.flags
  have hresults := h.results
  have happly := l.flags_apply s subtract start.c (c.writeFormHash hash)
  have hsame : l.operands s subtract (c.writeFormHash hash) = l.operands s subtract c := rfl
  rw [hsame] at happly
  rw [hoperands, happly] at hflags hresults
  refine ⟨hflags, fun hkept => ?_, ?_⟩
  · obtain ⟨hdistinct, hrest⟩ := List.pairwise_cons.mp hkept.distinct
    have hzero := hkept.nonzero l List.mem_cons_self
    have htail := hresults ⟨fun l' hl' => hkept.nonzero l' (List.mem_cons_of_mem l hl'), hrest⟩
    have hother : l.rd ∉ ls.map Limb.rd := by
      intro hmem
      obtain ⟨l', hl', heq⟩ := List.mem_map.mp hmem
      exact hdistinct l' hl' heq.symm
    simp only [List.map_cons, ripple]
    rw [htail, h.writes.word s (.inr hother), l.word_apply s subtract start.c _ hzero, hsame]
  · exact (hfirst.mono (by simp)).trans (h.writes.mono (by simp))

theorem chain_run {s subtract : Bool} {ls : List Limb} {vs : List Visit}
    (h : List.Forall₂ (NextVisit s subtract) ls vs) (hsources : SourcesKept ls) (c : Core) :
    ∃ c', runVisits vs c = .ok c' ∧ Ripples s subtract ls c.flags c c' := by
  induction h generalizing c with
  | nil => exact ⟨c, rfl, rfl, fun _ => rfl, WritesRegisters.refl _ c⟩
  | @cons l v ls vs hv _ ih =>
      obtain ⟨c', hrun, hc'⟩ := ih (List.pairwise_cons.mp hsources).2
        (l.apply s subtract c.readC (c.writeFormHash (formHash v.form)))
      exact ⟨c', by rw [runVisits_cons (hv.run c), hrun], .cons hsources hc'⟩

/-- `ADDS` and `ADCS`, or `SUBS` and `SBCS`, from the lowest words on. -/
inductive ChainProgram (debug s subtract : Bool) : List Limb → List Visit → Prop where
  | chain {l : Limb} {ls : List Limb} {v : Visit} {vs : List Visit}
      (hfirst : FirstVisit debug s subtract l v)
      (hrest : List.Forall₂ (NextVisit s subtract) ls vs) :
      ChainProgram debug s subtract (l :: ls) (v :: vs)

theorem ChainProgram.run {debug s subtract : Bool} {ls : List Limb} {vs : List Visit}
    (h : ChainProgram debug s subtract ls vs) (hsources : SourcesKept ls) (c : Core) :
    ∃ c', runVisits vs c = .ok c' ∧
      Ripples s subtract ls { c.flags with c := subtract } c c' := by
  cases h with
  | @chain l ls v vs hfirst hrest =>
      obtain ⟨c', hrun, hc'⟩ := chain_run hrest (List.pairwise_cons.mp hsources).2
        (l.apply s subtract subtract (c.writeFormHash (formHash v.form)))
      have hcons : Ripples s subtract (l :: ls) { c.flags with c := subtract } c c' :=
        .cons hsources hc'
      exact ⟨c', by rw [runVisits_cons (hfirst.run c), hrun], hcons⟩

/-! ## Whole numbers -/

/-- The number in some registers, the lowest word first. -/
def Core.number (c : Core) (s : Bool) (rs : List (BitVec 5)) : Nat :=
  Foundation.number (wordBase s) (wordValue s) (rs.map (c.word s))

def Core.signedNumber (c : Core) (s : Bool) (rs : List (BitVec 5)) : Int :=
  (c.number s rs : Int).bmod (wordBase s ^ rs.length)

theorem wordSigned_eq (s : Bool) (x : BitVec 64) :
    wordSigned s x = (wordValue s x : Int).bmod (wordBase s) := by
  cases s with
  | true => exact BitVec.toInt_eq_toNat_bmod x
  | false =>
      have hvalue : wordValue false x = (x.setWidth 32).toNat := by
        simp only [wordValue, sized, Bool.false_eq_true, if_false, BitVec.toNat_setWidth]
        omega
      rw [hvalue]
      exact BitVec.toInt_eq_toNat_bmod (x.setWidth 32)

theorem Core.signedNumber_append (c : Core) (s : Bool) (rs : List (BitVec 5)) (top : BitVec 5) :
    c.signedNumber s (rs ++ [top]) =
      Foundation.signedNumber (wordBase s) (wordValue s) (wordSigned s) (rs.map (c.word s))
        (c.word s top) := by
  have hlow := number_lt (wordValue_lt s) (rs.map (c.word s))
  rw [List.length_map] at hlow
  have hbase : wordBase s = 2 * 2 ^ (regSize s - 1) := by cases s <;> rfl
  rw [Core.signedNumber, Core.number, List.map_append, number_append, Foundation.signedNumber,
    wordSigned_eq, List.length_append, List.length_singleton, pow_succ, List.length_map]
  simp only [List.map_cons, List.map_nil, number_cons, number_nil, Nat.mul_zero, Nat.add_zero]
  push_cast
  have hsigned := bmod_limbs (Foundation.number (wordBase s) (wordValue s) (rs.map (c.word s)))
    (wordValue s (c.word s top)) (wordBase s ^ rs.length) (2 ^ (regSize s - 1))
    (Int.natCast_nonneg _) (by exact_mod_cast hlow)
  rw [← hbase] at hsigned
  push_cast at hsigned
  exact hsigned

/-! ## Sums and differences -/

theorem map_operands (s subtract : Bool) (ls : List Limb) (c : Core) :
    (ls.map (·.operands s subtract c)).map Prod.fst = (ls.map Limb.rn).map (c.word s) ∧
      (ls.map (·.operands s subtract c)).map Prod.snd =
        ((ls.map Limb.rm).map (c.word s)).map (fun x => if subtract then ~~~x else x) := by
  constructor <;> simp [Limb.operands, Function.comp_def]

theorem number_operands (s : Bool) (ls : List Limb) (c : Core) :
    Foundation.number (wordBase s) (wordValue s) ((ls.map (·.operands s true c)).map Prod.snd) +
      c.number s (ls.map Limb.rm) + 1 = wordBase s ^ ls.length := by
  have hnot := number_complement (wordValue_not s) ((ls.map Limb.rm).map (c.word s))
  rw [(map_operands s true ls c).2]
  simpa [Core.number] using hnot

theorem Ripples.value {s subtract : Bool} {ls : List Limb} {start : Flags} {c c' : Core}
    (h : Ripples s subtract ls start c c') (hkept : ResultsKept ls) :
    c'.number s (ls.map Limb.rd) + wordBase s ^ ls.length * c'.readC.toNat =
      c.number s (ls.map Limb.rn) + Foundation.number (wordBase s) (wordValue s)
        ((ls.map (·.operands s subtract c)).map Prod.snd) + start.c.toNat := by
  have hsum := (addsLimbs_addWithCarry s).ripple (ls.map (·.operands s subtract c)) start
  have hcarry : c'.flags.c = c'.readC := rfl
  rw [← h.results hkept, ← h.flags, hcarry, (map_operands s subtract ls c).1,
    List.length_map] at hsum
  simpa [Core.number, Function.comp_def] using hsum

theorem Ripples.sum {s : Bool} {ls : List Limb} {start : Flags} {c c' : Core}
    (h : Ripples s false ls start c c') (hstart : start.c = false) (hkept : ResultsKept ls) :
    c'.number s (ls.map Limb.rd) + 2 ^ (regSize s * ls.length) * c'.readC.toNat =
      c.number s (ls.map Limb.rn) + c.number s (ls.map Limb.rm) := by
  have hvalue := h.value hkept
  rw [(map_operands s false ls c).2, hstart] at hvalue
  rw [pow_mul]
  simpa [Core.number, wordBase, Function.comp_def] using hvalue

/--
A chain of `ADDS` and `ADCS` adds two numbers of any length: the results and
the carry after the last instruction are their sum.
-/
theorem addChain_sum {debug s : Bool} {ls : List Limb} {vs : List Visit}
    (h : ChainProgram debug s false ls vs) (hsources : SourcesKept ls) (hkept : ResultsKept ls)
    (c : Core) :
    ∃ c', runVisits vs c = .ok c' ∧
      c'.number s (ls.map Limb.rd) + 2 ^ (regSize s * ls.length) * c'.readC.toNat =
        c.number s (ls.map Limb.rn) + c.number s (ls.map Limb.rm) ∧
      WritesRegisters (ls.map Limb.rd) c c' := by
  obtain ⟨c', hrun, hc'⟩ := h.run hsources c
  exact ⟨c', hrun, hc'.sum rfl hkept, hc'.writes⟩

/-- The low words in `X0` and `X2`, the high ones in `X1` and `X3`. -/
def pairLimbs (low high : BitVec 5) : List Limb := [⟨low, 0, 2⟩, ⟨high, 1, 3⟩]

def addPair : List Visit :=
  [⟨"adds_64_addsub_shift", visitAddSubShifted false, 0xab020004⟩,
    ⟨"adcs_64_addsub_carry", visitAddSubWithCarry, 0xba030025⟩]

theorem addPair_chain : ChainProgram false true false (pairLimbs 4 5) addPair :=
  .chain ⟨⟨rfl, rfl, rfl, rfl, rfl, rfl⟩, rfl, by decide, by decide, by decide⟩
    (.cons ⟨⟨rfl, rfl, rfl, rfl, rfl, rfl⟩, rfl⟩ .nil)

/-- A state with 2^128 - 1 in `X0` and `X1` and 1 in `X2` and `X3`. -/
def pairCore : Core :=
  { (default : Core) with
    registers := fun r =>
      if r.val = 0 ∨ r.val = 1 then BitVec.allOnes 64 else if r.val = 2 then 1 else 0 }

theorem pairCore_numbers : pairCore.number true [0, 1] = 2 ^ 128 - 1 ∧
    pairCore.number true [2, 3] = 1 ∧ pairCore.signedNumber true [0, 1] = -1 ∧
      pairCore.signedNumber true [2, 3] = 1 := by
  decide

theorem pairLimbs_sourcesKept {low : BitVec 5} (h : 1 ≠ low ∧ 3 ≠ low) (high : BitVec 5) :
    SourcesKept (pairLimbs low high) := by
  simpa [SourcesKept, pairLimbs] using h

theorem pairLimbs_resultsKept : ResultsKept (pairLimbs 4 5) :=
  ⟨by simp [pairLimbs], by simp [pairLimbs]⟩

theorem addChain_sum_pair :
    ∃ c', runVisits addPair pairCore = .ok c' ∧
      c'.number true [4, 5] + 2 ^ 128 * c'.readC.toNat = 2 ^ 128 ∧
      WritesRegisters [4, 5] pairCore c' := by
  obtain ⟨hones, hone, -⟩ := pairCore_numbers
  obtain ⟨c', hrun, hsum, hwrites⟩ := addChain_sum addPair_chain
    (pairLimbs_sourcesKept (by decide) 5) pairLimbs_resultsKept pairCore
  change _ = pairCore.number true [0, 1] + pairCore.number true [2, 3] at hsum
  rw [hones, hone] at hsum
  exact ⟨c', hrun, hsum, hwrites⟩

/--
A chain of `SUBS` and `SBCS` subtracts two numbers of any length, and leaves
the carry clear exactly when it borrows.
-/
theorem subChain_difference {debug s : Bool} {ls : List Limb} {vs : List Visit}
    (h : ChainProgram debug s true ls vs) (hsources : SourcesKept ls) (hkept : ResultsKept ls)
    (c : Core) :
    ∃ c', runVisits vs c = .ok c' ∧
      c'.number s (ls.map Limb.rd) + c.number s (ls.map Limb.rm) =
        c.number s (ls.map Limb.rn) + 2 ^ (regSize s * ls.length) * (!c'.readC).toNat ∧
      WritesRegisters (ls.map Limb.rd) c c' := by
  obtain ⟨c', hrun, hc'⟩ := h.run hsources c
  refine ⟨c', hrun, ?_, hc'.writes⟩
  have hvalue := hc'.value hkept
  have hnot := number_operands s ls c
  rw [pow_mul]
  change _ = _ + wordBase s ^ ls.length * _
  rw [Bool.toNat_true] at hvalue
  cases hcarry : c'.readC <;>
    simp only [hcarry, Bool.toNat_true, Bool.toNat_false, Bool.not_true, Bool.not_false]
      at hvalue ⊢ <;>
    omega

def subPair : List Visit :=
  [⟨"subs_64_addsub_shift", visitAddSubShifted false, 0xeb020004⟩,
    ⟨"sbcs_64_addsub_carry", visitAddSubWithCarry, 0xfa030025⟩]

theorem subPair_chain : ChainProgram false true true (pairLimbs 4 5) subPair :=
  .chain ⟨⟨rfl, rfl, rfl, rfl, rfl, rfl⟩, rfl, by decide, by decide, by decide⟩
    (.cons ⟨⟨rfl, rfl, rfl, rfl, rfl, rfl⟩, rfl⟩ .nil)

theorem subChain_difference_pair :
    ∃ c', runVisits subPair pairCore = .ok c' ∧
      c'.number true [4, 5] + 1 = 2 ^ 128 - 1 + 2 ^ 128 * (!c'.readC).toNat ∧
      WritesRegisters [4, 5] pairCore c' := by
  obtain ⟨hones, hone, -⟩ := pairCore_numbers
  obtain ⟨c', hrun, hdifference, hwrites⟩ := subChain_difference subPair_chain
    (pairLimbs_sourcesKept (by decide) 5) pairLimbs_resultsKept pairCore
  change _ + pairCore.number true [2, 3] = pairCore.number true [0, 1] + _ at hdifference
  rw [hones, hone] at hdifference
  exact ⟨c', hrun, hdifference, hwrites⟩

/-- The carry after a chain of subtractions, also one that keeps no result. -/
theorem Ripples.carry_orders {s : Bool} {ls : List Limb} {start : Flags} {c c' : Core}
    (h : Ripples s true ls start c c') (hstart : start.c = true) :
    c'.readC = true ↔ c.number s (ls.map Limb.rm) ≤ c.number s (ls.map Limb.rn) := by
  have hcarry : c'.readC = c'.flags.c := rfl
  have hsum := (addsLimbs_addWithCarry s).ripple (ls.map (·.operands s true c)) start
  have hnot := number_operands s ls c
  have hlt := number_lt (wordValue_lt s)
    (ripple (addWithCarry s) Flags.c (ls.map (·.operands s true c)) start).1
  rw [ripple_length, List.length_map] at hlt
  rw [← h.flags, ← hcarry, (map_operands s true ls c).1, List.length_map, hstart,
    Bool.toNat_true] at hsum
  change _ = c.number s (ls.map Limb.rn) + _ + 1 at hsum
  generalize Foundation.number (wordBase s) (wordValue s)
    (ripple (addWithCarry s) Flags.c (ls.map (·.operands s true c)) start).1 = low at hsum hlt
  cases hout : c'.readC <;>
    simp only [hout, Bool.toNat_true, Bool.toNat_false, Bool.false_eq_true, true_iff,
      false_iff] at hsum ⊢ <;>
    omega

theorem signedNumber_operands (s : Bool) (ls : List Limb) (top : Limb) (c : Core) :
    Foundation.signedNumber (wordBase s) (wordValue s) (wordSigned s)
        ((ls.map (·.operands s true c)).map Prod.snd) (top.operands s true c).2 =
      -1 - c.signedNumber s (ls.map Limb.rm ++ [top.rm]) := by
  have hnot := number_operands s ls c
  have hcast : (Foundation.number (wordBase s) (wordValue s)
      ((ls.map (·.operands s true c)).map Prod.snd) : Int) +
        c.number s (ls.map Limb.rm) + 1 = (wordBase s : Int) ^ ls.length := by
    exact_mod_cast hnot
  have htop : (top.operands s true c).2 = ~~~c.word s top.rm := rfl
  rw [c.signedNumber_append, Foundation.signedNumber, Foundation.signedNumber, htop,
    wordSigned_not, List.length_map, List.length_map, List.length_map, List.length_map]
  change _ = -1 - ((c.number s (ls.map Limb.rm) : Int) + _)
  linear_combination hcast

theorem Ripples.less_orders {s : Bool} {ls : List Limb} {start : Flags} {c c' : Core}
    (h : Ripples s true ls start c c') (hstart : start.c = true) (hne : ls ≠ []) :
    c'.flags.less = true ↔
      c.signedNumber s (ls.map Limb.rn) < c.signedNumber s (ls.map Limb.rm) := by
  obtain ⟨init, top, rfl⟩ : ∃ init top, ls = init ++ [top] :=
    ⟨ls.dropLast, ls.getLast hne, (List.dropLast_append_getLast hne).symm⟩
  have hnegative := (addsLimbs_addWithCarry s).ripple_negative (Nat.two_pow_pos _)
    (tellsSign_addWithCarry s) (init.map (·.operands s true c)) (top.operands s true c) start
  have hflags := h.flags
  rw [List.map_append, List.map_singleton] at hflags
  have hfirst : Foundation.signedNumber (wordBase s) (wordValue s) (wordSigned s)
      ((init.map Limb.rn).map (c.word s)) (top.operands s true c).1 =
        c.signedNumber s (init.map Limb.rn ++ [top.rn]) := (c.signedNumber_append s _ _).symm
  rw [← hflags, hstart, signedNumber_operands, (map_operands s true init c).1, hfirst,
    Bool.toNat_true] at hnegative
  rw [hnegative, decide_eq_true_iff, List.map_append, List.map_append, List.map_singleton,
    List.map_singleton]
  push_cast
  constructor <;> intro hlt <;> omega

/--
After a chain of `SUBS` and `SBCS` the conditions HS and LO order the numbers
that it subtracts, and the conditions GE and LT order them as signed ones.
-/
theorem subChain_orders {debug s : Bool} {ls : List Limb} {vs : List Visit}
    (h : ChainProgram debug s true ls vs) (hsources : SourcesKept ls) (c : Core) :
    ∃ c', runVisits vs c = .ok c' ∧
      (c'.conditionPassed 2 = decide (c.number s (ls.map Limb.rm) ≤ c.number s (ls.map Limb.rn)) ∧
        c'.conditionPassed 3 =
          decide (c.number s (ls.map Limb.rn) < c.number s (ls.map Limb.rm))) ∧
      (c'.conditionPassed 10 =
          decide (c.signedNumber s (ls.map Limb.rm) ≤ c.signedNumber s (ls.map Limb.rn)) ∧
        c'.conditionPassed 11 =
          decide (c.signedNumber s (ls.map Limb.rn) < c.signedNumber s (ls.map Limb.rm))) := by
  have hne : ls ≠ [] := by
    cases h
    exact List.cons_ne_nil _ _
  obtain ⟨c', hrun, hc'⟩ := h.run hsources c
  have hcarry := hc'.carry_orders rfl
  have hless := hc'.less_orders rfl hne
  refine ⟨c', hrun, ⟨?_, ?_⟩, ?_, ?_⟩
  · rw [Bool.eq_iff_iff, decide_eq_true_iff]
    exact hcarry
  · change (!c'.readC) = _
    rw [Bool.eq_iff_iff, decide_eq_true_iff, Bool.not_eq_true', ← Bool.not_eq_true, hcarry,
      Nat.not_le]
  · have hge : (c'.readN == c'.readV) = !c'.flags.less := by
      change _ = !(c'.readN != c'.readV)
      rw [bne, Bool.not_not]
    change (c'.readN == c'.readV) = _
    rw [hge, Bool.eq_iff_iff, decide_eq_true_iff, Bool.not_eq_true', ← Bool.not_eq_true, hless,
      Int.not_lt]
  · rw [Bool.eq_iff_iff, decide_eq_true_iff]
    exact hless

def comparePair : List Visit :=
  [⟨"subs_64_addsub_shift", visitAddSubShifted false, 0xeb02001f⟩,
    ⟨"sbcs_64_addsub_carry", visitAddSubWithCarry, 0xfa03003f⟩]

theorem comparePair_chain : ChainProgram false true true (pairLimbs 31 31) comparePair :=
  .chain ⟨⟨rfl, rfl, rfl, rfl, rfl, rfl⟩, rfl, by decide, by decide, by decide⟩
    (.cons ⟨⟨rfl, rfl, rfl, rfl, rfl, rfl⟩, rfl⟩ .nil)

/-- All ones are the greatest number and, with a sign, below one. -/
theorem subChain_orders_pair :
    ∃ c', runVisits comparePair pairCore = .ok c' ∧
      (c'.conditionPassed 2 = true ∧ c'.conditionPassed 3 = false) ∧
      (c'.conditionPassed 10 = false ∧ c'.conditionPassed 11 = true) := by
  obtain ⟨c', hrun, hunsigned, hsigned⟩ := subChain_orders comparePair_chain
    (pairLimbs_sourcesKept (by decide) 31) pairCore
  obtain ⟨hones, hone, hminus, hplus⟩ := pairCore_numbers
  change _ = decide (pairCore.number true [2, 3] ≤ pairCore.number true [0, 1]) ∧
    _ = decide (pairCore.number true [0, 1] < pairCore.number true [2, 3]) at hunsigned
  change _ = decide (pairCore.signedNumber true [2, 3] ≤ pairCore.signedNumber true [0, 1]) ∧
    _ = decide (pairCore.signedNumber true [0, 1] < pairCore.signedNumber true [2, 3]) at hsigned
  rw [hones, hone] at hunsigned
  rw [hminus, hplus] at hsigned
  exact ⟨c', hrun, hunsigned, hsigned⟩

end GabyVm.Aarch64
