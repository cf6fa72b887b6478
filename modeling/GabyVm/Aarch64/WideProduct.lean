import GabyVm.Aarch64.TakenBranch
import GabyVm.Aarch64.WideArithmetic

/-!
# Products of numbers of several words

The high word of a product is put together from products of half words.  With
it guest code multiplies a number of several words by a word: a product of two
words for each word of the number, and one chain of additions over all of them.
-/

namespace GabyVm.Aarch64

open GabyVm.Foundation

/-! ## The high word of a product -/

def getUintMask (bits : Nat) : BitVec 64 := (if 64 ≤ bits then 0 else 1#64 <<< bits) - 1

def multiplyHigh (n : Nat) (isSigned : Bool) (u v : BitVec 64) : BitVec 64 :=
  let signMask := 1#64 <<< (n - 1)
  let halfBits := n / 2
  let halfMask := getUintMask halfBits
  let signExt := if isSigned then BitVec.allOnes 64 <<< halfBits else 0
  let extend (x shifted : BitVec 64) : BitVec 64 :=
    shifted ||| (if x &&& signMask != 0 then signExt else 0)
  -- A signed operand is shifted as one.
  let high (x : BitVec 64) : BitVec 64 :=
    extend x (if isSigned then x.sshiftRight halfBits else x >>> halfBits)
  let u0 := u &&& halfMask
  let u1 := high u
  let v0 := v &&& halfMask
  let v1 := high v
  let w0 := u0 * v0
  let t := u1 * v0 + w0 >>> halfBits
  let w1 := t &&& halfMask
  let w2 := extend t (t >>> halfBits)
  let w1 := u0 * v1 + w1
  let w1 := extend w1 (w1 >>> halfBits)
  u1 * v1 + w2 + w1

theorem and_halfMask (x : BitVec 64) : (x &&& getUintMask 32).toNat = x.toNat % 2 ^ 32 := by
  have hmask : (getUintMask 32).toNat = 2 ^ 32 - 1 := by decide
  rw [BitVec.toNat_and, hmask, Nat.and_two_pow_sub_one_eq_mod]

theorem shift_half (x : BitVec 64) : (x >>> 32).toNat = x.toNat / 2 ^ 32 := by
  rw [BitVec.toNat_ushiftRight, Nat.shiftRight_eq_div_pow]

theorem high_of_halves (u0 u1 v0 v1 : Nat) (hu0 : u0 < 2 ^ 32) (hu1 : u1 < 2 ^ 32)
    (hv0 : v0 < 2 ^ 32) (hv1 : v1 < 2 ^ 32) :
    u1 * v0 + u0 * v0 / 2 ^ 32 < 2 ^ 64 ∧
      u0 * v1 + (u1 * v0 + u0 * v0 / 2 ^ 32) % 2 ^ 32 < 2 ^ 64 ∧
      u1 * v1 + (u1 * v0 + u0 * v0 / 2 ^ 32) / 2 ^ 32 +
          (u0 * v1 + (u1 * v0 + u0 * v0 / 2 ^ 32) % 2 ^ 32) / 2 ^ 32 =
        (u1 * 2 ^ 32 + u0) * (v1 * 2 ^ 32 + v0) / 2 ^ 64 := by
  have hle {x y : Nat} (hx : x < 2 ^ 32) (hy : y < 2 ^ 32) :
      x * y ≤ (2 ^ 32 - 1) * (2 ^ 32 - 1) := Nat.mul_le_mul (by omega) (by omega)
  have h00 := hle hu0 hv0
  have h10 := hle hu1 hv0
  have h01 := hle hu0 hv1
  have hproduct : (u1 * 2 ^ 32 + u0) * (v1 * 2 ^ 32 + v0) =
      u1 * v1 * 2 ^ 64 + (u1 * v0 + u0 * v1) * 2 ^ 32 + u0 * v0 := by ring
  rw [hproduct]
  generalize u0 * v0 = a at h00 ⊢
  generalize u1 * v0 = b at h10 ⊢
  generalize u0 * v1 = c at h01 ⊢
  generalize u1 * v1 = d
  refine ⟨by omega, by omega, ?_⟩
  omega

theorem multiplyHigh_halves (u v : BitVec 64) :
    multiplyHigh 64 false u v =
      (u >>> 32) * (v >>> 32) +
        ((u >>> 32) * (v &&& getUintMask 32) +
          ((u &&& getUintMask 32) * (v &&& getUintMask 32)) >>> 32) >>> 32 +
        ((u &&& getUintMask 32) * (v >>> 32) +
          (((u >>> 32) * (v &&& getUintMask 32) +
            ((u &&& getUintMask 32) * (v &&& getUintMask 32)) >>> 32) &&&
              getUintMask 32)) >>> 32 := by
  simp [multiplyHigh]

/-- The unsigned product: `UMULH` is the high word. -/
theorem multiplyHigh_unsigned (u v : BitVec 64) :
    (multiplyHigh 64 false u v).toNat = u.toNat * v.toNat / 2 ^ 64 := by
  have hu := u.isLt
  have hv := v.isLt
  obtain ⟨ht, hw, hhigh⟩ := high_of_halves (u.toNat % 2 ^ 32) (u.toNat / 2 ^ 32)
    (v.toNat % 2 ^ 32) (v.toNat / 2 ^ 32) (by omega) (by omega) (by omega) (by omega)
  have hle {x y : Nat} (hx : x < 2 ^ 32) (hy : y < 2 ^ 32) : x * y < 2 ^ 64 := by
    have h := Nat.mul_le_mul (show x ≤ 2 ^ 32 - 1 by omega) (show y ≤ 2 ^ 32 - 1 by omega)
    omega
  have h00 := hle (x := u.toNat % 2 ^ 32) (y := v.toNat % 2 ^ 32) (by omega) (by omega)
  have h10 := hle (x := u.toNat / 2 ^ 32) (y := v.toNat % 2 ^ 32) (by omega) (by omega)
  have h01 := hle (x := u.toNat % 2 ^ 32) (y := v.toNat / 2 ^ 32) (by omega) (by omega)
  have h11 := hle (x := u.toNat / 2 ^ 32) (y := v.toNat / 2 ^ 32) (by omega) (by omega)
  have hproduct : u.toNat * v.toNat < 2 ^ 64 * 2 ^ 64 := Nat.mul_lt_mul'' hu hv
  have hdiv : u.toNat * v.toNat / 2 ^ 64 < 2 ^ 64 := Nat.div_lt_of_lt_mul hproduct
  have hsplit (x : Nat) : x / 2 ^ 32 * 2 ^ 32 + x % 2 ^ 32 = x := by omega
  rw [hsplit, hsplit] at hhigh
  rw [multiplyHigh_halves]
  simp only [BitVec.toNat_add, BitVec.toNat_mul, shift_half, and_halfMask, Nat.mod_eq_of_lt h00,
    Nat.mod_eq_of_lt h10, Nat.mod_eq_of_lt h01, Nat.mod_eq_of_lt h11, Nat.mod_eq_of_lt ht,
    Nat.mod_eq_of_lt hw]
  omega

/-- Extending the sign after a shift is an arithmetic shift. -/
theorem extend_shifted (x : BitVec 64) :
    x >>> 32 ||| (if x &&& 1#64 <<< 63 != 0 then BitVec.allOnes 64 <<< 32 else 0) =
        x.sshiftRight 32 ∧
      x.sshiftRight 32 ||| (if x &&& 1#64 <<< 63 != 0 then BitVec.allOnes 64 <<< 32 else 0) =
        x.sshiftRight 32 := by
  have hsign : (x &&& 1#64 <<< 63 != 0) = x.msb := by
    have htwo : 1#64 <<< 63 = BitVec.twoPow 64 63 := by decide
    have hmsb : x.msb = x.getLsbD 63 := rfl
    rw [htwo, BitVec.and_twoPow, hmsb]
    cases x.getLsbD 63 <;> decide
  rw [hsign]
  cases hmsb : x.msb with
  | false => simp [BitVec.sshiftRight_eq_of_msb_false hmsb]
  | true =>
      have hones (i : Nat) (hi : i < 64) :
          (BitVec.allOnes 64 <<< 32).getLsbD i = decide (32 ≤ i) := by
        rw [BitVec.getLsbD_shiftLeft, BitVec.getLsbD_allOnes]
        by_cases hlow : i < 32 <;> simp [hlow, hi]
        omega
      constructor <;> apply BitVec.eq_of_getLsbD_eq <;> intro i hi <;>
        rw [if_pos rfl, BitVec.getLsbD_or, hones i hi, BitVec.getLsbD_sshiftRight, hmsb]
      · rw [BitVec.getLsbD_ushiftRight]
        by_cases hlow : 32 + i < 64
        · simp [hlow, show ¬64 ≤ i by omega, show ¬32 ≤ i by omega]
        · simp [hlow, show ¬64 ≤ i by omega, show 32 ≤ i by omega]
      · by_cases hlow : 32 + i < 64
        · simp [hlow, show ¬64 ≤ i by omega, show ¬32 ≤ i by omega]
        · simp [hlow, show ¬64 ≤ i by omega]

theorem toInt_sshiftRight_half (x : BitVec 64) : (x.sshiftRight 32).toInt = x.toInt / 2 ^ 32 := by
  rw [BitVec.toInt_sshiftRight, Int.shiftRight_eq_div_pow]
  rfl

theorem toInt_halfMask (x : BitVec 64) : (x &&& getUintMask 32).toInt = x.toInt % 2 ^ 32 := by
  have h := and_halfMask x
  rw [BitVec.toInt_eq_toNat_cond, BitVec.toInt_eq_toNat_cond, h]
  omega

theorem toInt_add_exact {x y : BitVec 64} (hlow : -2 ^ 63 ≤ x.toInt + y.toInt)
    (hhigh : x.toInt + y.toInt < 2 ^ 63) : (x + y).toInt = x.toInt + y.toInt := by
  rw [BitVec.toInt_add]
  exact Int.bmod_eq_of_le (by omega) (by omega)

theorem toInt_mul_exact {x y : BitVec 64} (hlow : -2 ^ 63 ≤ x.toInt * y.toInt)
    (hhigh : x.toInt * y.toInt < 2 ^ 63) : (x * y).toInt = x.toInt * y.toInt := by
  rw [BitVec.toInt_mul]
  exact Int.bmod_eq_of_le (by omega) (by omega)

theorem half_mul_bounds {x y : Int} (hx : -2 ^ 31 ≤ x) (hx' : x < 2 ^ 31) (hy : 0 ≤ y)
    (hy' : y < 2 ^ 32) :
    -2 ^ 31 * (2 ^ 32 - 1) ≤ x * y ∧ x * y ≤ (2 ^ 31 - 1) * (2 ^ 32 - 1) := by
  have hlow := mul_le_mul_of_nonneg_right hx hy
  have hhigh := mul_le_mul_of_nonneg_right (show x ≤ 2 ^ 31 - 1 by omega) hy
  constructor <;> omega

theorem toInt_low_product (u v : BitVec 64) :
    0 ≤ (u &&& getUintMask 32).toInt * (v &&& getUintMask 32).toInt ∧
      (u &&& getUintMask 32).toInt * (v &&& getUintMask 32).toInt ≤ (2 ^ 32 - 1) * (2 ^ 32 - 1) ∧
        (((u &&& getUintMask 32) * (v &&& getUintMask 32)) >>> 32).toInt =
          (u &&& getUintMask 32).toInt * (v &&& getUintMask 32).toInt / 2 ^ 32 := by
  have hnat (x : BitVec 64) : ((x &&& getUintMask 32).toInt = (x &&& getUintMask 32).toNat) ∧
      (x &&& getUintMask 32).toNat ≤ 2 ^ 32 - 1 := by
    have h := and_halfMask x
    rw [BitVec.toInt_eq_toNat_cond]
    omega
  obtain ⟨hu, hule⟩ := hnat u
  obtain ⟨hv, hvle⟩ := hnat v
  have hle := Nat.mul_le_mul hule hvle
  have hshift := shift_half ((u &&& getUintMask 32) * (v &&& getUintMask 32))
  rw [BitVec.toNat_mul] at hshift
  rw [BitVec.toInt_eq_toNat_cond (((u &&& getUintMask 32) * (v &&& getUintMask 32)) >>> 32), hshift,
    hu, hv, ← Nat.cast_mul]
  generalize (u &&& getUintMask 32).toNat * (v &&& getUintMask 32).toNat = a at hle ⊢
  omega

theorem multiplyHigh_signedHalves (u v : BitVec 64) :
    multiplyHigh 64 true u v =
      u.sshiftRight 32 * v.sshiftRight 32 +
        (u.sshiftRight 32 * (v &&& getUintMask 32) +
          ((u &&& getUintMask 32) * (v &&& getUintMask 32)) >>> 32).sshiftRight 32 +
        ((u &&& getUintMask 32) * v.sshiftRight 32 +
          ((u.sshiftRight 32 * (v &&& getUintMask 32) +
            ((u &&& getUintMask 32) * (v &&& getUintMask 32)) >>> 32) &&&
              getUintMask 32)).sshiftRight 32 := by
  simp only [multiplyHigh, if_true, (extend_shifted _).1, (extend_shifted _).2]

theorem toInt_split (x : BitVec 64) :
    x.toInt = (x.sshiftRight 32).toInt * 2 ^ 32 + (x &&& getUintMask 32).toInt := by
  have hhigh := toInt_sshiftRight_half x
  have hlow := toInt_halfMask x
  omega

theorem toInt_mul_bounds (u v : BitVec 64) :
    -(2 ^ 63 * 2 ^ 63) ≤ u.toInt * v.toInt ∧ u.toInt * v.toInt ≤ 2 ^ 63 * 2 ^ 63 := by
  have hu : |u.toInt| ≤ 2 ^ 63 := abs_le.mpr ⟨BitVec.le_toInt u, BitVec.toInt_lt.le⟩
  have hv : |v.toInt| ≤ 2 ^ 63 := abs_le.mpr ⟨BitVec.le_toInt v, BitVec.toInt_lt.le⟩
  have hmul := mul_le_mul hu hv (abs_nonneg _) (by omega)
  rw [← abs_mul] at hmul
  exact abs_le.mp hmul

/-- The signed product: `SMULH` is the high word. -/
theorem multiplyHigh_signed (u v : BitVec 64) :
    (multiplyHigh 64 true u v).toInt = u.toInt * v.toInt / 2 ^ 64 := by
  have hu := BitVec.toInt_lt (x := u)
  have hu' := BitVec.le_toInt (x := u)
  have hv := BitVec.toInt_lt (x := v)
  have hv' := BitVec.le_toInt (x := v)
  have hu1 := toInt_sshiftRight_half u
  have hv1 := toInt_sshiftRight_half v
  have hu0 := toInt_halfMask u
  have hv0 := toInt_halfMask v
  have hsquare : u.toInt * v.toInt =
      (u.sshiftRight 32).toInt * (v.sshiftRight 32).toInt * 2 ^ 64 +
        ((u.sshiftRight 32).toInt * (v &&& getUintMask 32).toInt +
          (u &&& getUintMask 32).toInt * (v.sshiftRight 32).toInt) * 2 ^ 32 +
            (u &&& getUintMask 32).toInt * (v &&& getUintMask 32).toInt := by
    rw [toInt_split u, toInt_split v]
    ring
  obtain ⟨hproduct', hproduct⟩ := toInt_mul_bounds u v
  have hlow := toInt_low_product u v
  rw [multiplyHigh_signedHalves]
  generalize u.sshiftRight 32 = u1 at hu1 hsquare ⊢
  generalize v.sshiftRight 32 = v1 at hv1 hsquare ⊢
  generalize u &&& getUintMask 32 = u0 at hu0 hsquare hlow ⊢
  generalize v &&& getUintMask 32 = v0 at hv0 hsquare hlow ⊢
  generalize (u0 * v0) >>> 32 = w at hlow ⊢
  obtain ⟨hb', hb⟩ := half_mul_bounds (x := u1.toInt) (y := v0.toInt) (by omega) (by omega)
    (by omega) (by omega)
  obtain ⟨hc', hc⟩ := half_mul_bounds (x := v1.toInt) (y := u0.toInt) (by omega) (by omega)
    (by omega) (by omega)
  rw [mul_comm v1.toInt] at hc' hc
  have hcross := toInt_mul_exact (x := u1) (y := v0) (by omega) (by omega)
  have hcross' := toInt_mul_exact (x := u0) (y := v1) (by omega) (by omega)
  have ht := toInt_add_exact (x := u1 * v0) (y := w) (by omega) (by omega)
  have hmask := toInt_halfMask (u1 * v0 + w)
  have hw := toInt_add_exact (x := u0 * v1) (y := (u1 * v0 + w) &&& getUintMask 32) (by omega)
    (by omega)
  rw [BitVec.toInt_add, BitVec.toInt_add, BitVec.toInt_mul, toInt_sshiftRight_half,
    toInt_sshiftRight_half, Int.bmod_add_bmod, add_assoc, Int.bmod_add_bmod, hw, hmask, ht]
  generalize u1.toInt * v1.toInt = d at hsquare ⊢
  generalize u1.toInt * v0.toInt = b at *
  generalize u0.toInt * v1.toInt = c' at *
  rw [Int.bmod_eq_of_le (by omega) (by omega)]
  omega

/-! ## The visitor -/

def Word.getRa (w : Word) : BitVec 5 := w.extractLsb 14 10

/-- The result of a multiplication; nothing for another encoding. -/
def dataProcessing3SourceResult (w : Word) (rn rm ra : BitVec 64) : Option (BitVec 64) :=
  let rnU32 := (rn.setWidth 32).setWidth 64
  let rmU32 := (rm.setWidth 32).setWidth 64
  let rnS32 := (rn.setWidth 32).signExtend 64
  let rmS32 := (rm.setWidth 32).signExtend 64
  let operation := w &&& 0xffe08000
  if operation = 0x1b000000 ∨ operation = 0x9b000000 then some (ra + rn * rm)
  else if operation = 0x1b008000 ∨ operation = 0x9b008000 then some (ra - rn * rm)
  else if operation = 0x9b200000 then some (ra + rnS32 * rmS32)
  else if operation = 0x9b208000 then some (ra - rnS32 * rmS32)
  else if operation = 0x9ba00000 then some (ra + rnU32 * rmU32)
  else if operation = 0x9ba08000 then some (ra - rnU32 * rmU32)
  else if operation = 0x9bc00000 then some (multiplyHigh 64 false rn rm)
  else if operation = 0x9b400000 then some (multiplyHigh 64 true rn rm)
  else none

def visitDataProcessing3Source (debug : Bool) : Leaf := fun w c =>
  let write (value : BitVec 64) : LeafProg :=
    .done (c.writeReg w.getSixtyFourBits w.getRd value .zeroRegister)
  match dataProcessing3SourceResult w (c.readXRegister w.getRn) (c.readXRegister w.getRm)
      (c.readXRegister w.getRa) with
  | some value => write value
  | none => unimplemented debug c (write 0)

theorem visitDataProcessing3Source_some {debug : Bool} {w : Word} {c : Core} {value : BitVec 64}
    (h : dataProcessing3SourceResult w (c.readXRegister w.getRn) (c.readXRegister w.getRm)
      (c.readXRegister w.getRa) = some value) :
    visitDataProcessing3Source debug w c =
      .done (c.writeReg w.getSixtyFourBits w.getRd value .zeroRegister) := by
  rw [visitDataProcessing3Source, h]

theorem readXRegister_word (c : Core) (r : BitVec 5) : c.readXRegister r = c.word true r := by
  simp [Core.readXRegister, Core.word, Core.readReg, sized]

theorem word_zero (c : Core) (s : Bool) : c.word s 31 = 0 := by
  cases s <;> rfl

structure MultiplyVisit (debug : Bool) (operation : Word) (rd rn rm : BitVec 5) (v : Visit) :
    Prop where
  leaf : v.leaf = visitDataProcessing3Source debug
  kind : v.word &&& 0xffe08000 = operation
  rd : v.word.getRd = rd
  rn : v.word.getRn = rn
  rm : v.word.getRm = rm
  ra : v.word.getRa = 31

theorem MultiplyVisit.run {debug : Bool} {operation : Word} {rd rn rm : BitVec 5} {v : Visit}
    (h : MultiplyVisit debug operation rd rn rm v) {result : BitVec 64} {c : Core}
    (hresult : dataProcessing3SourceResult v.word (c.word true rn) (c.word true rm) 0 =
      some result) :
    v.run c = .ok ((c.writeFormHash (formHash v.form)).writeReg v.word.getSixtyFourBits rd result
      .zeroRegister) := by
  rw [Visit.run, h.leaf]
  generalize formHash v.form = hash
  have hform (r : BitVec 5) : (c.writeFormHash hash).readXRegister r = c.word true r :=
    readXRegister_word c r
  have hsome : dataProcessing3SourceResult v.word
      ((c.writeFormHash hash).readXRegister v.word.getRn)
      ((c.writeFormHash hash).readXRegister v.word.getRm)
      ((c.writeFormHash hash).readXRegister v.word.getRa) = some result := by
    rw [hform, hform, hform, h.rn, h.rm, h.ra, word_zero, hresult]
  rw [visitDataProcessing3Source_some hsome, h.rd]
  rfl

/-- What `MUL`, `UMULH` and `SMULH` put into their destination. -/
theorem MultiplyVisit.sets {debug : Bool} {operation : Word} {rd rn rm : BitVec 5} {v : Visit}
    (h : MultiplyVisit debug operation rd rn rm v) (hsize : operation.getLsbD 31 = true)
    (hrd : rd ≠ 31) {f : BitVec 64 → BitVec 64 → BitVec 64}
    (hf : ∀ x y, dataProcessing3SourceResult v.word x y 0 = some (f x y)) (c : Core) :
    ∃ c', v.run c = .ok c' ∧ c'.word true rd = f (c.word true rn) (c.word true rm) ∧
      WritesRegisters [rd] c c' := by
  have hsixtyFour : v.word.getSixtyFourBits = true := by
    rw [Word.getSixtyFourBits, getLsbD_of_mask h.kind 31 (by decide), hsize]
  have hrun := h.run (hf (c.word true rn) (c.word true rm))
  rw [hsixtyFour] at hrun
  generalize f (c.word true rn) (c.word true rm) = value at hrun ⊢
  generalize formHash v.form = hash at hrun
  have hwrite := WritesRegisters.writeReg (c.writeFormHash hash) true rd value
  have hword := (c.writeFormHash hash).word_writeReg true hrd value
  exact ⟨_, hrun, hword, ⟨hwrite.others, hwrite.vregisters, hwrite.memory, hwrite.pc⟩⟩

def MUL_x : Word := 0x9b000000

def UMULH_x : Word := 0x9bc00000

def SMULH_x : Word := 0x9b400000

theorem result_mul {w : Word} (h : w &&& 0xffe08000 = MUL_x) (x y : BitVec 64) :
    dataProcessing3SourceResult w x y 0 = some (x * y) := by
  unfold dataProcessing3SourceResult
  generalize w &&& 0xffe08000 = operation at h ⊢
  subst h
  simp [MUL_x]

theorem result_high {w : Word} {isSigned : Bool}
    (h : w &&& 0xffe08000 = if isSigned then SMULH_x else UMULH_x) (x y : BitVec 64) :
    dataProcessing3SourceResult w x y 0 = some (multiplyHigh 64 isSigned x y) := by
  unfold dataProcessing3SourceResult
  generalize w &&& 0xffe08000 = operation at h ⊢
  subst h
  cases isSigned <;> simp [UMULH_x, SMULH_x]

/-! ## Products of two words -/

/-- The instructions for the low and the high word of a product. -/
structure ProductVisits (debug isSigned : Bool) (low high rn rm : BitVec 5) (mul mulh : Visit) :
    Prop where
  mul : MultiplyVisit debug MUL_x low rn rm mul
  mulh : MultiplyVisit debug (if isSigned then SMULH_x else UMULH_x) high rn rm mulh

/-- The low word, which is made first, does not overwrite what the high one is made from. -/
def ProductRegisters (low high rn rm : BitVec 5) : Prop :=
  (low ≠ 31 ∧ high ≠ 31 ∧ low ≠ high) ∧ rn ≠ low ∧ rm ≠ low

theorem ProductVisits.run {debug isSigned : Bool} {low high rn rm : BitVec 5} {mul mulh : Visit}
    (h : ProductVisits debug isSigned low high rn rm mul mulh)
    (hregs : ProductRegisters low high rn rm) (c : Core) :
    ∃ c', runVisits [mul, mulh] c = .ok c' ∧
      c'.word true low = c.word true rn * c.word true rm ∧
      c'.word true high = multiplyHigh 64 isSigned (c.word true rn) (c.word true rm) ∧
        WritesRegisters [low, high] c c' := by
  obtain ⟨⟨hlow, hhigh, hne⟩, hrn, hrm⟩ := hregs
  obtain ⟨d, hd, hdlow, hdwrites⟩ := h.mul.sets (by decide) hlow (result_mul h.mul.kind) c
  obtain ⟨c', hc', hchigh, hcwrites⟩ := h.mulh.sets (by cases isSigned <;> decide) hhigh
    (result_high h.mulh.kind) d
  rw [hdwrites.word true (.inr (by simpa using hrn)),
    hdwrites.word true (.inr (by simpa using hrm))] at hchigh
  refine ⟨c', by rw [runVisits_cons hd, runVisits_cons hc', runVisits], ?_, hchigh,
    (hdwrites.mono (by simp)).trans (hcwrites.mono (by simp))⟩
  rw [hcwrites.word true (.inr (by simpa using hne)), hdlow]

theorem toNat_words (high low : BitVec 64) :
    (high ++ low).toNat = high.toNat * 2 ^ 64 + low.toNat := by
  rw [BitVec.toNat_append, ← Nat.shiftLeft_add_eq_or_of_lt low.isLt, Nat.shiftLeft_eq]

theorem toInt_words (high low : BitVec 64) :
    (high ++ low).toInt = high.toInt * 2 ^ 64 + low.toNat := by
  have hlow := low.isLt
  rw [BitVec.toInt_eq_toNat_cond, BitVec.toInt_eq_toNat_cond, toNat_words]
  split_ifs <;> push_cast <;> omega

/--
`MUL` with `UMULH` or `SMULH` makes the exact product of two words, of 128
bits, without or with a sign.
-/
theorem wideProduct_exact {debug isSigned : Bool} {low high rn rm : BitVec 5} {mul mulh : Visit}
    (h : ProductVisits debug isSigned low high rn rm mul mulh)
    (hregs : ProductRegisters low high rn rm) (c : Core) :
    ∃ c', runVisits [mul, mulh] c = .ok c' ∧
      (if isSigned then
        (c'.word true high ++ c'.word true low).toInt =
          (c.word true rn).toInt * (c.word true rm).toInt
      else
        (c'.word true high ++ c'.word true low).toNat =
          (c.word true rn).toNat * (c.word true rm).toNat) ∧ WritesRegisters [low, high] c c' := by
  obtain ⟨c', hrun, hlow, hhigh, hwrites⟩ := h.run hregs c
  refine ⟨c', hrun, ?_, hwrites⟩
  rw [hlow, hhigh]
  generalize c.word true rn = x
  generalize c.word true rm = y
  cases isSigned with
  | false =>
      have hmul := BitVec.toNat_mul x y
      rw [if_neg (by decide), toNat_words, multiplyHigh_unsigned, hmul]
      omega
  | true =>
      have hmod : ((x * y).toNat : Int) = x.toInt * y.toInt % 2 ^ 64 := by
        have hmul := BitVec.toInt_mul x y
        have hemod : ((x * y).toInt) % 2 ^ 64 = x.toInt * y.toInt % 2 ^ 64 := by
          rw [hmul]
          exact Int.bmod_emod
        rw [BitVec.toInt_eq_toNat_cond] at hemod
        have hlt := (x * y).isLt
        omega
      rw [if_pos rfl, toInt_words, multiplyHigh_signed, hmod]
      omega

/-- The greatest words. -/
theorem wideProduct_exact_ones :
    ∃ c', runVisits [⟨"madd_64a_dp_3src", visitDataProcessing3Source false, 0x9b017c03⟩,
        ⟨"umulh_64_dp_3src", visitDataProcessing3Source false, 0x9bc17c04⟩] pairCore = .ok c' ∧
      (c'.word true 4 ++ c'.word true 3).toNat = (2 ^ 64 - 1) * (2 ^ 64 - 1) ∧
      WritesRegisters [3, 4] pairCore c' :=
  have hvisits : ProductVisits false false 3 4 0 1
      ⟨"madd_64a_dp_3src", visitDataProcessing3Source false, 0x9b017c03⟩
      ⟨"umulh_64_dp_3src", visitDataProcessing3Source false, 0x9bc17c04⟩ :=
    ⟨⟨rfl, by decide, rfl, rfl, rfl, rfl⟩, ⟨rfl, by decide, rfl, rfl, rfl, rfl⟩⟩
  wideProduct_exact hvisits ⟨⟨by decide, by decide, by decide⟩, by decide, by decide⟩ pairCore

/-! ## Products of a number and a word -/

/-- A word of the number, and the registers of its product's words. -/
structure Part where
  source : BitVec 5
  low : BitVec 5
  high : BitVec 5

/-- `MUL` and `UMULH` by a word, for each word of the number. -/
inductive ProductProgram (debug : Bool) (rm : BitVec 5) : List Part → List Visit → Prop where
  | nil : ProductProgram debug rm [] []
  | cons {p : Part} {ps : List Part} {mul mulh : Visit} {vs : List Visit}
      (hfirst : ProductVisits debug false p.low p.high p.source rm mul mulh)
      (hrest : ProductProgram debug rm ps vs) :
      ProductProgram debug rm (p :: ps) (mul :: mulh :: vs)

/-- No instruction overwrites a product or what a later one reads. -/
structure PartsKept (rm : BitVec 5) (ps : List Part) : Prop where
  each : ∀ p ∈ ps, ProductRegisters p.low p.high p.source rm ∧ rm ≠ p.high
  distinct : ps.Pairwise fun p q => ∀ r ∈ [q.source, q.low, q.high], r ∉ [p.low, p.high]

theorem ProductProgram.run {debug : Bool} {rm : BitVec 5} {ps : List Part} {vs : List Visit}
    (h : ProductProgram debug rm ps vs) (hkept : PartsKept rm ps) (c : Core) :
    ∃ c', runVisits vs c = .ok c' ∧
      (∀ p ∈ ps, c'.word true p.low = c.word true p.source * c.word true rm ∧
        c'.word true p.high = multiplyHigh 64 false (c.word true p.source) (c.word true rm)) ∧
      WritesRegisters (ps.flatMap fun p => [p.low, p.high]) c c' := by
  induction h generalizing c with
  | nil => exact ⟨c, rfl, by simp, WritesRegisters.refl _ c⟩
  | @cons p ps mul mulh vs hfirst hrest ih =>
      obtain ⟨hregs, hhigh⟩ := hkept.each p List.mem_cons_self
      obtain ⟨hnext, hdistinct⟩ := List.pairwise_cons.mp hkept.distinct
      obtain ⟨d, hd, hdlow, hdhigh, hdwrites⟩ := hfirst.run hregs c
      obtain ⟨c', hrun, hwords, hwrites⟩ :=
        ih ⟨fun q hq => hkept.each q (List.mem_cons_of_mem p hq), hdistinct⟩ d
      have hrm : d.word true rm = c.word true rm :=
        hdwrites.word true (.inr (by simp [hregs.2.2, hhigh]))
      have hlater (r : BitVec 5) (hr : r ∈ [p.low, p.high]) :
          r ∉ ps.flatMap fun q => [q.low, q.high] := by
        intro hmem
        obtain ⟨q, hq, hin⟩ := List.mem_flatMap.mp hmem
        exact hnext q hq r (List.mem_cons_of_mem _ hin) hr
      refine ⟨c', ?_, ?_, (hdwrites.mono ?_).trans (hwrites.mono ?_)⟩
      · rw [← hrun, ← runVisits_append hd]
        rfl
      · intro q hq
        rcases List.mem_cons.mp hq with rfl | hq
        · rw [hwrites.word true (.inr (hlater q.low (by simp))),
            hwrites.word true (.inr (hlater q.high (by simp)))]
          exact ⟨hdlow, hdhigh⟩
        · have hsource : d.word true q.source = c.word true q.source :=
            hdwrites.word true (.inr (hnext q hq q.source (by simp)))
          rw [← hsource, ← hrm]
          exact hwords q hq
      · simp
      · simp

/-- The words of the products are added, the high ones one place further up. -/
structure AddsProducts (ps : List Part) (ls : List Limb) : Prop where
  lows : ls.map Limb.rn = ps.map Part.low ++ [31]
  highs : ls.map Limb.rm = 31 :: ps.map Part.high

theorem product_words (x y : BitVec 64) :
    wordValue true (x * y) + wordBase true * wordValue true (multiplyHigh 64 false x y) =
      wordValue true x * y.toNat := by
  have hmul := BitVec.toNat_mul x y
  change (x * y).toNat + 2 ^ 64 * (multiplyHigh 64 false x y).toNat = x.toNat * y.toNat
  rw [multiplyHigh_unsigned, hmul]
  omega

theorem AddsProducts.numbers {ps : List Part} {ls : List Limb} (h : AddsProducts ps ls)
    (c : Core) :
    c.number true (ls.map Limb.rn) + c.number true (ls.map Limb.rm) =
      c.number true (ps.map Part.low) + wordBase true * c.number true (ps.map Part.high) := by
  have hzero : wordValue true (c.word true 31) = 0 := by
    rw [word_zero]
    rfl
  rw [h.lows, h.highs]
  simp only [Core.number, List.map_append, List.map_cons, List.map_nil, number_append, number_cons,
    number_nil, hzero, Nat.mul_zero, Nat.add_zero, Nat.zero_add]

theorem number_products {rm : BitVec 5} {ps : List Part} {c d : Core}
    (h : ∀ p ∈ ps, d.word true p.low = c.word true p.source * c.word true rm ∧
      d.word true p.high = multiplyHigh 64 false (c.word true p.source) (c.word true rm)) :
    d.number true (ps.map Part.low) + wordBase true * d.number true (ps.map Part.high) =
      c.number true (ps.map Part.source) * (c.word true rm).toNat := by
  rw [Core.number, Core.number, Core.number, List.map_map, List.map_map, List.map_map]
  apply number_mul
  intro p hp
  obtain ⟨hlow, hhigh⟩ := h p hp
  rw [Function.comp_apply, Function.comp_apply, Function.comp_apply, hlow, hhigh]
  exact product_words _ _

/--
A number of any length times a word: `MUL` and `UMULH` for each word, and one
chain of additions over all of them, make the exact product.
-/
theorem numberProduct_exact {debug : Bool} {rm : BitVec 5} {ps : List Part} {ls : List Limb}
    {vs us : List Visit} (h : ProductProgram debug rm ps vs) (hparts : PartsKept rm ps)
    (hchain : ChainProgram debug true false ls us) (hsources : SourcesKept ls)
    (hresults : ResultsKept ls) (hadds : AddsProducts ps ls) (c : Core) :
    ∃ c', runVisits (vs ++ us) c = .ok c' ∧
      c'.number true (ls.map Limb.rd) =
        c.number true (ps.map Part.source) * (c.word true rm).toNat ∧ c'.readC = false := by
  obtain ⟨d, hd, hwords, -⟩ := h.run hparts c
  obtain ⟨c', hrun, hc'⟩ := hchain.run hsources d
  have hsum := hc'.sum rfl hresults
  have hlength : ls.length = ps.length + 1 := by
    have hlows := congrArg List.length hadds.lows
    simpa using hlows
  rw [hadds.numbers, number_products hwords] at hsum
  -- The product fits into one word more, so that nothing is carried out of it.
  have hbound : c.number true (ps.map Part.source) * (c.word true rm).toNat <
      2 ^ (regSize true * ls.length) := by
    have hnumber := number_lt (wordValue_lt true) ((ps.map Part.source).map (c.word true))
    rw [List.length_map, List.length_map] at hnumber
    rw [hlength, Nat.mul_succ, pow_add, pow_mul]
    exact Nat.mul_lt_mul'' hnumber (c.word true rm).isLt
  have hcarry : c'.readC = false := by
    cases hout : c'.readC with
    | false => rfl
    | true =>
        rw [hout, Bool.toNat_true] at hsum
        omega
  refine ⟨c', by rw [runVisits_append hd, hrun], ?_, hcarry⟩
  rw [hcarry] at hsum
  simpa using hsum

/-- The number in `X0` and `X1`. -/
def pairParts : List Part := [⟨0, 3, 4⟩, ⟨1, 5, 6⟩]

def productPair : List Visit :=
  [⟨"madd_64a_dp_3src", visitDataProcessing3Source false, 0x9b017c03⟩,
    ⟨"umulh_64_dp_3src", visitDataProcessing3Source false, 0x9bc17c04⟩,
    ⟨"madd_64a_dp_3src", visitDataProcessing3Source false, 0x9b017c25⟩,
    ⟨"umulh_64_dp_3src", visitDataProcessing3Source false, 0x9bc17c26⟩]

theorem productPair_program : ProductProgram false 1 pairParts productPair :=
  .cons ⟨⟨rfl, by decide, rfl, rfl, rfl, rfl⟩, ⟨rfl, by decide, rfl, rfl, rfl, rfl⟩⟩
    (.cons ⟨⟨rfl, by decide, rfl, rfl, rfl, rfl⟩, ⟨rfl, by decide, rfl, rfl, rfl, rfl⟩⟩ .nil)

def sumLimbs : List Limb := [⟨3, 3, 31⟩, ⟨5, 5, 4⟩, ⟨7, 31, 6⟩]

def sumPair : List Visit :=
  [⟨"adds_64_addsub_shift", visitAddSubShifted false, 0xab1f0063⟩,
    ⟨"adcs_64_addsub_carry", visitAddSubWithCarry, 0xba0400a5⟩,
    ⟨"adcs_64_addsub_carry", visitAddSubWithCarry, 0xba0603e7⟩]

theorem sumPair_chain : ChainProgram false true false sumLimbs sumPair :=
  .chain ⟨⟨rfl, rfl, rfl, rfl, rfl, rfl⟩, rfl, by decide, by decide, by decide⟩
    (.cons ⟨⟨rfl, rfl, rfl, rfl, rfl, rfl⟩, rfl⟩
      (.cons ⟨⟨rfl, rfl, rfl, rfl, rfl, rfl⟩, rfl⟩ .nil))

theorem numberProduct_exact_pair :
    ∃ c', runVisits (productPair ++ sumPair) pairCore = .ok c' ∧
      c'.number true [3, 5, 7] = (2 ^ 128 - 1) * (2 ^ 64 - 1) ∧ c'.readC = false := by
  have hparts : PartsKept 1 pairParts :=
    ⟨by simp [pairParts, ProductRegisters], by simp [pairParts]⟩
  have hsources : SourcesKept sumLimbs := by simp [SourcesKept, sumLimbs]
  have hresults : ResultsKept sumLimbs := ⟨by simp [sumLimbs], by simp [sumLimbs]⟩
  obtain ⟨c', hrun, hproduct, hcarry⟩ := numberProduct_exact productPair_program hparts
    sumPair_chain hsources hresults ⟨rfl, rfl⟩ pairCore
  change _ = pairCore.number true [0, 1] * (2 ^ 64 - 1) at hproduct
  rw [pairCore_numbers.1] at hproduct
  exact ⟨c', hrun, hproduct, hcarry⟩

end GabyVm.Aarch64
