import GabyVm.Aarch64.BulkStores
import GabyVm.Aarch64.Footprint
import GabyVm.Aarch64.QuietLeaves
import GabyVm.Aarch64.RegisterLeaves
import GabyVm.Cache.Untagged
import GabyVm.Foundation.Moves

/-!
# Parts of a memory operation

Memory copy and memory set are triplets of instructions.  The prologue checks
its registers, saturates the count and chooses the direction of a copy; the
main part moves all the bytes, and the epilogue is left with nothing to do.
Here is what each of them does when its accesses are granted, and how a build
with assertions recognises the parts of one triplet.
-/

namespace GabyVm.Aarch64

open GabyVm.Cache
open GabyVm.Foundation

/-! ## Prologues and epilogues -/

inductive MopsType where
  | set
  | setg
  | cpy
  deriving DecidableEq, Repr

namespace MopsType

/-- Where the field is that tells the parts of a triplet apart. -/
def opLsb : MopsType → Nat
  | cpy => 22
  | _ => 14

def saturationBits : MopsType → Nat
  | cpy => 55
  | _ => 63

theorem opLsb_le (t : MopsType) : t.opLsb ≤ 30 := by
  cases t <;> simp [opLsb]

end MopsType

/-- The registers of the triplet are allowed, and bits 31 and 30 are zero. -/
def mopsRegistersOk (t : MopsType) (w : Word) : Bool :=
  let d := w.getRd
  let n := w.getRn
  let s := w.getRs
  !(d == n || d == s || n == s || d == 31 || n == 31) && !(t == .cpy && s == 31) &&
    w.extractLsb 31 30 == 0

def mopsSaturates (t : MopsType) (xn : BitVec 64) : Bool := xn >>> t.saturationBits != 0

def mopsCount (t : MopsType) (xn : BitVec 64) : BitVec 64 :=
  if mopsSaturates t xn then
    let saturated := 1#64 <<< t.saturationBits - 1
    if t = .setg then saturated &&& ~~~(mteTagGranuleInBytes - 1) else saturated
  else xn

def mopsPrologueOk (m : AccessChecks) (c : Core) (t : MopsType) (w : Word) : Bool :=
  !m.vixlDebug || isConsistentMOPSTriplet c w t.opLsb == some true

def mopsPrologueMessage (c : Core) (t : MopsType) (w : Word) : String :=
  match isConsistentMOPSTriplet c w t.opLsb with
  | none => "Undefined MOPS operation\n"
  | some _ => "Assertion failed (instr->IsConsistentMOPSTriplet<mops_type>())"

def mopsPHelper (m : AccessChecks) (t : MopsType) (w : Word) : LeafM Unit := do
  let c ← LeafM.get
  LeafM.check (mopsPrologueOk m c t w) (mopsPrologueMessage c t w)
  LeafM.check (mopsRegistersOk t w) Abort.unallocated.message
  let xn := c.readXRegister w.getRn
  LeafM.onlyIf (mopsSaturates t xn)
    (LeafM.modify fun c' => writeTransfer c' w.getRn (mopsCount t xn))
  LeafM.modify fun c' => c'.setFlags ⟨false, false, true, false⟩

def mopsEpilogueOk (m : AccessChecks) (c : Core) (t : MopsType) (w : Word) : Bool :=
  !m.vixlDebug || (isConsistentMOPSTriplet c w t.opLsb == some true &&
    isMOPSEpilogueOf w (readWord c.memory c.lastInstr) t.opLsb)

def mopsEpilogueMessage (c : Core) (t : MopsType) (w : Word) : String :=
  match isConsistentMOPSTriplet c w t.opLsb with
  | none => "Undefined MOPS operation\n"
  | some false => "Assertion failed (instr->IsConsistentMOPSTriplet())"
  | some true => "Assertion failed (instr->IsMOPSEpilogueOf(GetLastExecutedInstruction()))"

/-- `SimulateCpyE` and `SimulateSetE`; the main part has done everything. -/
def mopsEpilogue (m : AccessChecks) (t : MopsType) (w : Word) : LeafM Unit := do
  let c ← LeafM.get
  LeafM.check (mopsEpilogueOk m c t w) (mopsEpilogueMessage c t w)

def extractUnsignedBitfield64 (msb lsb : Nat) (x : BitVec 64) : BitVec 64 :=
  (x.extractLsb msb lsb).setWidth 64

/-- The destination starts inside the source, behind its first byte. -/
def copiesBackwards (xd xs xn : BitVec 64) : Bool :=
  let xsTbi := extractUnsignedBitfield64 55 0 xs
  let xdTbi := extractUnsignedBitfield64 55 0 xd
  xsTbi < xdTbi && xdTbi < xsTbi + xn

def Core.setN (c : Core) (n : Bool) : Core :=
  { c with nzcv := c.nzcv.setBits 31 31 (flagBit n) }

def simulateCpyP (m : AccessChecks) (w : Word) : LeafM Unit := do
  mopsPHelper m .cpy w
  let c ← LeafM.get
  let xs := c.readXRegister w.getRs
  let xd := c.readXRegister w.getRd
  let xn := c.readXRegister w.getRn
  LeafM.vixlAssert m (extractUnsignedBitfield64 63 55 xn == 0)
    "ExtractUnsignedBitfield64(63, 55, xn) == 0"
  let isBackwards := copiesBackwards xd xs xn
  LeafM.onlyIf isBackwards do
    LeafM.modify fun c' => writeTransfer c' w.getRs (xs + xn)
    LeafM.modify fun c' => writeTransfer c' w.getRd (xd + xn)
  LeafM.modify fun c' => c'.setN isBackwards

def simulateSetP (m : AccessChecks) (w : Word) : LeafM Unit := mopsPHelper m .set w

/-! ## What a part leaves alone -/

/-- The memory, its tags and the position are the same. -/
structure SameMemory (c c' : Core) : Prop where
  memory : c'.memory = c.memory
  mteTags : c'.mteTags = c.mteTags
  pc : c'.pc = c.pc

theorem SameMemory.refl (c : Core) : SameMemory c c := ⟨rfl, rfl, rfl⟩

theorem SameMemory.trans {c c' c'' : Core} (h : SameMemory c c') (h' : SameMemory c' c'') :
    SameMemory c c'' :=
  ⟨h'.memory.trans h.memory, h'.mteTags.trans h.mteTags, h'.pc.trans h.pc⟩

theorem sameMemory_writeTransfer (c : Core) (r : BitVec 5) (value : BitVec 64) :
    SameMemory c (writeTransfer c r value) := by
  unfold writeTransfer
  split_ifs
  · exact .refl c
  · exact ⟨rfl, rfl, rfl⟩

theorem readN_setN (c : Core) (n : Bool) : (c.setN n).readN = n := by
  rw [Core.readN, Core.setN, setBits_getLsbD c.nzcv n (by omega) (by omega), if_pos rfl]

/-! ## Parts that run through -/

section Parts

variable {m : AccessChecks} {w : Word} {c : Core}

theorem quiet_onlyIf (b : Bool) (f : Core → Core) (k : Unit → Core → LeafProg) :
    (LeafM.onlyIf b (LeafM.modify f) c k).quiet = (k () (if b then f c else c)).quiet := by
  cases b <;> rfl

/-- The state that `MOPSPHelper` leaves. -/
def mopsPrepared (t : MopsType) (w : Word) (c : Core) : Core :=
  let xn := c.readXRegister w.getRn
  (if mopsSaturates t xn then writeTransfer c w.getRn (mopsCount t xn) else c).setFlags
    ⟨false, false, true, false⟩

theorem quiet_mopsPHelper {t : MopsType} (hok : mopsPrologueOk m c t w = true)
    (hregisters : mopsRegistersOk t w = true) (k : Unit → Core → LeafProg) :
    (mopsPHelper m t w c k).quiet = (k () (mopsPrepared t w c)).quiet := by
  simp only [mopsPHelper, LeafM.bind_apply, LeafM.get_apply]
  rw [LeafM.quiet_check hok, LeafM.quiet_check hregisters, quiet_onlyIf]
  rfl

theorem mopsPrepared_memory (t : MopsType) (w : Word) (c : Core) :
    SameMemory c (mopsPrepared t w c) := by
  have hcount := sameMemory_writeTransfer c w.getRn (mopsCount t (c.readXRegister w.getRn))
  cases hsaturates : mopsSaturates t (c.readXRegister w.getRn) with
  | true =>
      simp only [mopsPrepared, hsaturates, if_true]
      exact ⟨hcount.memory, hcount.mteTags, hcount.pc⟩
  | false =>
      simp only [mopsPrepared, hsaturates, Bool.false_eq_true, if_false]
      exact ⟨rfl, rfl, rfl⟩

theorem mopsPrepared_register (t : MopsType) (w : Word) (c : Core) (r : BitVec 5)
    (hn : w.getRn ≠ 31) :
    (mopsPrepared t w c).readXRegister r =
      if r = w.getRn then mopsCount t (c.readXRegister w.getRn) else c.readXRegister r := by
  have hflags (d : Core) (flags : Flags) : (d.setFlags flags).readXRegister r =
      d.readXRegister r := rfl
  rw [mopsPrepared, hflags]
  cases hsaturates : mopsSaturates t (c.readXRegister w.getRn) with
  | true =>
      rw [if_pos rfl, readXRegister_writeTransfer]
      simp only [ne_eq, hn, not_false_eq_true, and_true]
  | false =>
      have hcount : mopsCount t (c.readXRegister w.getRn) = c.readXRegister w.getRn := by
        rw [mopsCount, hsaturates]
        rfl
      rw [if_neg (by simp), hcount]
      split_ifs with hr
      · rw [hr]
      · rfl

/-- The state that the prologue of a copy leaves. -/
def copyPrepared (w : Word) (c : Core) : Core :=
  let c := mopsPrepared .cpy w c
  let xs := c.readXRegister w.getRs
  let xd := c.readXRegister w.getRd
  let xn := c.readXRegister w.getRn
  let isBackwards := copiesBackwards xd xs xn
  let c := if isBackwards then writeTransfer (writeTransfer c w.getRs (xs + xn)) w.getRd (xd + xn)
    else c
  c.setN isBackwards

theorem mopsCount_cpy_lt (xn : BitVec 64) : (mopsCount .cpy xn).toNat < 2 ^ 55 := by
  rw [mopsCount, mopsSaturates, MopsType.saturationBits]
  by_cases hhigh : xn >>> 55 = 0
  · have hdiv := congrArg BitVec.toNat hhigh
    rw [BitVec.toNat_ushiftRight, Nat.shiftRight_eq_div_pow] at hdiv
    have hlt : xn.toNat / 2 ^ 55 = 0 := hdiv
    simp only [hhigh, bne_self_eq_false, Bool.false_eq_true, if_false]
    omega
  · rw [if_pos (bne_iff_ne.mpr hhigh), if_neg (by decide)]
    decide

theorem quiet_simulateCpyP (hok : mopsPrologueOk m c .cpy w = true)
    (hregisters : mopsRegistersOk .cpy w = true) :
    ((simulateCpyP m w).run c).quiet = .ok (copyPrepared w c) := by
  have hn : w.getRn ≠ 31 := by
    intro hn
    simp [mopsRegistersOk, hn] at hregisters
  have hcount := mopsPrepared_register .cpy w c w.getRn hn
  rw [if_pos rfl] at hcount
  have hfield : extractUnsignedBitfield64 63 55
      ((mopsPrepared .cpy w c).readXRegister w.getRn) = 0 := by
    have hlt := mopsCount_cpy_lt (c.readXRegister w.getRn)
    rw [hcount, extractUnsignedBitfield64]
    apply BitVec.eq_of_toNat_eq
    simp only [BitVec.toNat_setWidth, BitVec.extractLsb_toNat, Nat.shiftRight_eq_div_pow]
    rw [Nat.div_eq_of_lt hlt]
    rfl
  simp only [LeafM.run, simulateCpyP, LeafM.bind_apply, LeafM.get_apply]
  rw [quiet_mopsPHelper hok hregisters, LeafM.vixlAssert, LeafM.quiet_check (by simp [hfield])]
  cases hback : copiesBackwards ((mopsPrepared .cpy w c).readXRegister w.getRd)
    ((mopsPrepared .cpy w c).readXRegister w.getRs)
    ((mopsPrepared .cpy w c).readXRegister w.getRn) <;>
    simp [LeafM.onlyIf, LeafProg.quiet, copyPrepared, hback]

/-- The address of a loop after `i` steps. -/
def loopAddress (step x : Addr) (i : Nat) : Addr := x + step * BitVec.ofNat 64 i

theorem loopAddress_zero (step x : Addr) : loopAddress step x 0 = x := by
  simp [loopAddress]

theorem loopAddress_succ (step x : Addr) (i : Nat) :
    loopAddress step (x + step) i = loopAddress step x (i + 1) := by
  have hone : BitVec.ofNat 64 (i + 1) = BitVec.ofNat 64 i + 1 := BitVec.ofNat_add i 1
  have hstep : step * 1 = step := BitVec.mul_one step
  rw [loopAddress, loopAddress, hone, BitVec.mul_add, hstep, BitVec.add_assoc,
    BitVec.add_comm step]

def LoopGranted (m : AccessChecks) (c : Core) (step x : Addr) (n : Nat) : Prop :=
  ∀ i < n, m.grants c.mteTags (loopAddress step x i) 1 = true

theorem LoopGranted.tail {step x : Addr} {n : Nat} (h : LoopGranted m c step x (n + 1)) :
    LoopGranted m c step (x + step) n := by
  intro i hi
  rw [loopAddress_succ]
  exact h (i + 1) (by omega)

theorem quiet_copyBytes {step xd xs : Addr} {n : Nat} (hs : LoopGranted m c step xs n)
    (hd : LoopGranted m c step xd n) (k : Unit → Core → LeafProg) :
    (copyBytes m step n xd xs c k).quiet =
      (k () (c.withMemory (moves n (fun i => addressUntag (loopAddress step xd i))
        (fun i => addressUntag (loopAddress step xs i)) c.memory))).quiet := by
  induction n generalizing xd xs c with
  | zero => rfl
  | succ n ih =>
      have hread := hs 0 (by omega)
      have hwrite := hd 0 (by omega)
      rw [loopAddress_zero] at hread hwrite
      have hbyte := storeBytes_one c.memory (addressUntag xd) (c.memory (addressUntag xs))
      simp only [copyBytes, LeafM.bind_apply]
      rw [LeafM.quiet_memRead hread, LeafM.quiet_memWrite hwrite, readBytes_one]
      rw [ih (c := c.writeMemory _ _ 1) hs.tail hd.tail]
      simp only [Core.writeMemory, hbyte, Core.withMemory, moves, loopAddress_succ,
        loopAddress_zero]

theorem quiet_setBytes {value : BitVec 8} {xd : Addr} {n : Nat} (hd : LoopGranted m c 1 xd n)
    (k : Unit → Core → LeafProg) :
    (setBytes m value n xd c k).quiet =
      (k () (c.withMemory (fills n (fun i => addressUntag (loopAddress 1 xd i)) value
        c.memory))).quiet := by
  induction n generalizing xd c with
  | zero => rfl
  | succ n ih =>
      have hwrite := hd 0 (by omega)
      rw [loopAddress_zero] at hwrite
      have hbyte := storeBytes_one c.memory (addressUntag xd) value
      simp only [setBytes, LeafM.bind_apply]
      rw [LeafM.quiet_memWrite hwrite, ih (c := c.writeMemory _ _ 1) hd.tail]
      simp only [Core.writeMemory, hbyte, Core.withMemory, fills, loopAddress_succ,
        loopAddress_zero]

/-- The state that the main part of a copy leaves. -/
def copied (w : Word) (c : Core) : Core :=
  let xd := c.readXRegister w.getRd
  let xn := c.readXRegister w.getRn
  let xs := c.readXRegister w.getRs
  let step := copyStep c
  let c := c.withMemory (moves xn.toNat
    (fun i => addressUntag (loopAddress step (copyFrom c xd) i))
    (fun i => addressUntag (loopAddress step (copyFrom c xs) i)) c.memory)
  writeTransfer (writeTransfer (writeTransfer c w.getRd (xd + step * xn)) w.getRn 0) w.getRs
    (xs + step * xn)

theorem quiet_simulateCpyM (hok : mopsMainOk m c w 22 = true)
    (hs : LoopGranted m c (copyStep c) (copyFrom c (c.readXRegister w.getRs))
      (c.readXRegister w.getRn).toNat)
    (hd : LoopGranted m c (copyStep c) (copyFrom c (c.readXRegister w.getRd))
      (c.readXRegister w.getRn).toNat) :
    ((simulateCpyM m w).run c).quiet = .ok (copied w c) := by
  simp only [LeafM.run, simulateCpyM, LeafM.bind_apply, LeafM.get_apply]
  rw [LeafM.quiet_check hok, quiet_copyBytes hs hd]
  rfl

/-- The state that the main part of a set leaves. -/
def filled (w : Word) (c : Core) : Core :=
  let xd := c.readXRegister w.getRd
  let xn := c.readXRegister w.getRn
  let c := c.withMemory (fills xn.toNat (fun i => addressUntag (loopAddress 1 xd i))
    ((c.readXRegister w.getRs).setWidth 8) c.memory)
  writeTransfer (writeTransfer c w.getRd (xd + xn)) w.getRn 0

theorem quiet_simulateSetM (hok : mopsMainOk m c w 14 = true)
    (hd : LoopGranted m c 1 (c.readXRegister w.getRd) (c.readXRegister w.getRn).toNat) :
    ((simulateSetM m w).run c).quiet = .ok (filled w c) := by
  simp only [LeafM.run, simulateSetM, LeafM.bind_apply, LeafM.get_apply]
  rw [LeafM.quiet_check hok, quiet_setBytes hd]
  rfl

theorem quiet_mopsEpilogue {t : MopsType} (hok : mopsEpilogueOk m c t w = true) :
    ((mopsEpilogue m t w).run c).quiet = .ok c := by
  simp only [LeafM.run, mopsEpilogue, LeafM.bind_apply, LeafM.get_apply]
  rw [LeafM.quiet_check hok]
  rfl

end Parts

/-! ## Addresses of a block -/

/-- The memory cell of a byte of the block at `x`. -/
def blockCell (x : Addr) (i : Nat) : Addr := addressUntag (x + BitVec.ofNat 64 i)

/-- The block does not run past the last address that a tag leaves. -/
def BlockFits (x : Addr) (n : Nat) : Prop := (addressUntag x).toNat + n ≤ 2 ^ 56

theorem blockCell_toNat {x : Addr} {n i : Nat} (h : BlockFits x n) (hi : i < n) :
    (blockCell x i).toNat = (addressUntag x).toNat + i := by
  rw [BlockFits, addressUntag_toNat] at h
  rw [blockCell, addressUntag_toNat, addressUntag_toNat, BitVec.toNat_add, BitVec.toNat_ofNat]
  omega

theorem loopAddress_forwards (x : Addr) (i : Nat) :
    addressUntag (loopAddress 1 x i) = blockCell x i := by
  have hone : (1 : Addr) * BitVec.ofNat 64 i = BitVec.ofNat 64 i := BitVec.one_mul _
  rw [loopAddress, hone, blockCell]

/-- Going backwards, a loop meets the bytes of the block from its end. -/
theorem loopAddress_backwards (x xn : Addr) {i : Nat} (hi : i < xn.toNat) :
    loopAddress (-1) (x + xn - 1) i = loopAddress 1 x (xn.toNat - 1 - i) := by
  have hneg (y : Addr) : (-1 : Addr) * y = -y := by
    rw [BitVec.neg_mul]
    exact congrArg _ (BitVec.one_mul y)
  have hpos (y : Addr) : (1 : Addr) * y = y := BitVec.one_mul y
  have hone : (1 : Addr).toNat = 1 := rfl
  have hxn := xn.isLt
  rw [loopAddress, loopAddress, hneg, hpos]
  apply BitVec.eq_of_toNat_eq
  simp only [BitVec.toNat_add, BitVec.toNat_sub, BitVec.toNat_neg, BitVec.toNat_ofNat, hone]
  omega

theorem extractUnsignedBitfield64_tbi (x : BitVec 64) :
    extractUnsignedBitfield64 55 0 x = addressUntag x := by
  apply BitVec.eq_of_toNat_eq
  have hx := x.isLt
  rw [addressUntag_toNat, extractUnsignedBitfield64]
  simp only [BitVec.toNat_setWidth, BitVec.extractLsb_toNat, Nat.shiftRight_zero]
  omega

theorem copiesBackwards_iff {xd xs xn : BitVec 64} (hxn : xn.toNat < 2 ^ 55) :
    copiesBackwards xd xs xn = true ↔ (addressUntag xs).toNat < (addressUntag xd).toNat ∧
      (addressUntag xd).toNat < (addressUntag xs).toNat + xn.toNat := by
  have hs := addressUntag_toNat xs
  have hsum : (addressUntag xs + xn).toNat = (addressUntag xs).toNat + xn.toNat := by
    rw [BitVec.toNat_add]
    omega
  simp only [copiesBackwards, extractUnsignedBitfield64_tbi, Bool.and_eq_true, decide_eq_true_eq,
    BitVec.lt_def, hsum]

/-! ## Triplets -/

theorem withPart_getLsbD (w : Word) {part : Word} (hpart : part.toNat < 4) (lsb : Nat) {k : Nat}
    (hk : k < 32) :
    (withPart w lsb part).getLsbD k =
      if lsb ≤ k ∧ k < lsb + 2 then part.getLsbD (k - lsb) else w.getLsbD k := by
  have hthree : (3#32).toNat = 3 := rfl
  simp only [withPart, BitVec.getLsbD_or, BitVec.getLsbD_and, BitVec.getLsbD_not,
    BitVec.getLsbD_shiftLeft, hk, decide_true, Bool.true_and]
  by_cases hlow : k < lsb
  · simp [hlow, show ¬lsb ≤ k by omega]
  · by_cases hin : k < lsb + 2
    · have hmask : ∀ j < 2, (3#32).getLsbD j = true := by decide
      simp [hlow, show lsb ≤ k by omega, hin, hmask (k - lsb) (by omega)]
    · have hfour : 2 ^ 2 ≤ 2 ^ (k - lsb) := Nat.pow_le_pow_right (by omega) (by omega)
      have hmask : (3#32).getLsbD (k - lsb) = false :=
        Nat.testBit_lt_two_pow (by rw [hthree]; omega)
      have hzero : part.getLsbD (k - lsb) = false := Nat.testBit_lt_two_pow (by omega)
      simp [hlow, hin, hmask, hzero]

theorem withPart_withPart (w : Word) {part part' : Word} (hpart : part.toNat < 4)
    (hpart' : part'.toNat < 4) (lsb : Nat) :
    withPart (withPart w lsb part) lsb part' = withPart w lsb part' := by
  apply BitVec.eq_of_getLsbD_eq
  intro k hk
  rw [withPart_getLsbD _ hpart' lsb hk, withPart_getLsbD _ hpart' lsb hk,
    withPart_getLsbD _ hpart lsb hk]
  split_ifs <;> rfl

theorem withPart_field (w : Word) {part : Word} (hpart : part.toNat < 4) {lsb : Nat}
    (hlsb : lsb ≤ 30) : (withPart w lsb part >>> lsb) &&& 3 = part := by
  apply BitVec.eq_of_getLsbD_eq
  intro k hk
  have hthree : (3 : Word).toNat = 3 := rfl
  rw [BitVec.getLsbD_and, BitVec.getLsbD_ushiftRight]
  by_cases hin : k < 2
  · have hmask : ∀ j < 2, (3 : Word).getLsbD j = true := by decide
    rw [withPart_getLsbD w hpart lsb (by omega), if_pos ⟨by omega, by omega⟩, hmask k hin,
      Nat.add_sub_cancel_left, Bool.and_true]
  · have hfour : 2 ^ 2 ≤ 2 ^ k := Nat.pow_le_pow_right (by omega) (by omega)
    have hmask : (3 : Word).getLsbD k = false := Nat.testBit_lt_two_pow (by rw [hthree]; omega)
    have hzero : part.getLsbD k = false := Nat.testBit_lt_two_pow (by omega)
    rw [hmask, hzero, Bool.and_false]

theorem extractLsb_withPart (w : Word) {part : Word} (hpart : part.toNat < 4) {lsb hi lo : Nat}
    (h : hi < lsb ∨ lsb + 2 ≤ lo) (hlo : lo ≤ hi) (hhi : hi < 32) :
    (withPart w lsb part).extractLsb hi lo = w.extractLsb hi lo := by
  apply BitVec.eq_of_getLsbD_eq
  intro i hi'
  simp only [BitVec.extractLsb, BitVec.getLsbD_extractLsb']
  rw [withPart_getLsbD w hpart lsb (by omega), if_neg (by omega)]

/-- The words at `pc` are the three parts of a triplet. -/
structure TripletAt (mem : Memory) (pc : Addr) (w : Word) (lsb : Nat) : Prop where
  prologue : withPart w lsb 0 = w
  first : readWord mem pc = w
  second : readWord mem (pc + 4) = withPart w lsb 1
  third : readWord mem (pc + 8) = withPart w lsb 2

namespace TripletAt

variable {mem : Memory} {pc : Addr} {w : Word} {lsb : Nat} {c : Core}

theorem field (h : TripletAt mem pc w lsb) (hlsb : lsb ≤ 30) : (w >>> lsb) &&& 3 = 0 := by
  have hfield : (withPart w lsb 0 >>> lsb) &&& 3 = 0 := withPart_field w (by decide) hlsb
  rwa [h.prologue] at hfield

theorem consistent_prologue (h : TripletAt mem pc w lsb) (hlsb : lsb ≤ 30)
    (hmem : c.memory = mem) (hpc : c.pc = pc) : isConsistentMOPSTriplet c w lsb = some true := by
  rw [isConsistentMOPSTriplet, h.field hlsb, hmem, hpc]
  simp only [h.second, h.third]
  simp [isMOPSMainOf, isMOPSEpilogueOf]

theorem consistent_main (h : TripletAt mem pc w lsb) (hlsb : lsb ≤ 30) (hmem : c.memory = mem)
    (hpc : c.pc = pc + 4) : isConsistentMOPSTriplet c (withPart w lsb 1) lsb = some true := by
  have hback : pc + 4 + (-4) = pc := BitVec.add_neg_eq_sub ▸ BitVec.add_sub_cancel pc 4
  have hnext : pc + 4 + 4 = pc + 8 := BitVec.add_assoc pc 4 4
  rw [isConsistentMOPSTriplet, withPart_field w (by decide) hlsb, hmem, hpc]
  simp only [hback, hnext, h.first, h.third]
  simp [isMOPSPrologueOf, isMOPSEpilogueOf, withPart_withPart]
  exact h.prologue.symm

theorem consistent_epilogue (h : TripletAt mem pc w lsb) (hlsb : lsb ≤ 30) (hmem : c.memory = mem)
    (hpc : c.pc = pc + 8) : isConsistentMOPSTriplet c (withPart w lsb 2) lsb = some true := by
  have hback : pc + 8 + (-8) = pc := BitVec.add_neg_eq_sub ▸ BitVec.add_sub_cancel pc 8
  have hmain : pc + 8 + (-4) = pc + 4 := BitVec.add_assoc pc 8 (-4)
  rw [isConsistentMOPSTriplet, withPart_field w (by decide) hlsb, hmem, hpc]
  simp only [hback, hmain, h.first, h.second]
  simp [isMOPSPrologueOf, isMOPSMainOf, withPart_withPart]
  exact h.prologue.symm

/-! ### The assertions of the parts -/

variable {m : AccessChecks} {t : MopsType}

theorem prologueOk (h : TripletAt mem pc w t.opLsb) (hmem : c.memory = mem) (hpc : c.pc = pc) :
    mopsPrologueOk m c t w = true := by
  rw [mopsPrologueOk, h.consistent_prologue t.opLsb_le hmem hpc]
  simp

theorem mainOk (h : TripletAt mem pc w t.opLsb) (hmem : c.memory = mem) (hpc : c.pc = pc + 4)
    (hlast : c.lastInstr = pc) : mopsMainOk m c (withPart w t.opLsb 1) t.opLsb = true := by
  rw [mopsMainOk, h.consistent_main t.opLsb_le hmem hpc, hmem, hlast, h.first]
  simp [isMOPSMainOf]

theorem epilogueOk (h : TripletAt mem pc w t.opLsb) (hmem : c.memory = mem) (hpc : c.pc = pc + 8)
    (hlast : c.lastInstr = pc + 4) :
    mopsEpilogueOk m c t (withPart w t.opLsb 2) = true := by
  rw [mopsEpilogueOk, h.consistent_epilogue t.opLsb_le hmem hpc, hmem, hlast, h.second]
  simp [isMOPSEpilogueOf, withPart_withPart]

end TripletAt

end GabyVm.Aarch64
