import GabyVm.Aarch64.ScalarStores
import Mathlib.Tactic.SplitIfs

/-!
# Leaves that move registers

Instructions that read and write registers only: logical operations on shifted
registers, additions of an immediate, conditional selection, the moves between
general and system registers, and the bitwise moves between vector registers
and between these and general ones.
-/

namespace GabyVm.Aarch64

/-! ## Fields -/

inductive Reg31Mode where
  | zeroRegister
  | stackPointer
  deriving DecidableEq, Repr

namespace Word

def getSixtyFourBits (w : Word) : Bool := w.getLsbD 31

def getFlagsUpdate (w : Word) : Bool := w.getLsbD 29

def getShiftDP (w : Word) : BitVec 2 := w.extractLsb 23 22

def getImmDPShift (w : Word) : Nat := (w.extractLsb 15 10).toNat

def getImmAddSub (w : Word) : BitVec 64 := (w.extractLsb 21 10).setWidth 64

def getImmAddSubShift (w : Word) : Bool := w.getLsbD 22

def getCondition (w : Word) : BitVec 4 := w.extractLsb 15 12

def getImmSystemRegister (w : Word) : BitVec 16 := w.extractLsb 20 5

def getNEONQ (w : Word) : Bool := w.getLsbD 30

def isAddSubImmediate (w : Word) : Bool := w &&& 0x1f800000 == 0x11000000

def isAddSubExtended (w : Word) : Bool := w &&& 0x1f200000 == 0x0b200000

def isLogicalImmediate (w : Word) : Bool := w &&& 0x1f800000 == 0x12000000

def isLoadOrStore (w : Word) : Bool := w &&& 0x0a000000 == 0x08000000

/-- Whether the destination can be the stack pointer. -/
def getRdMode (w : Word) : Reg31Mode :=
  if w.isAddSubImmediate || w.isAddSubExtended then
    if w.getFlagsUpdate then .zeroRegister else .stackPointer
  else if w.isLogicalImmediate then
    if w &&& 0x60000000 == 0x60000000 then .zeroRegister else .stackPointer
  else .zeroRegister

def getRnMode (w : Word) : Reg31Mode :=
  if w.isLoadOrStore || w.isAddSubImmediate || w.isAddSubExtended then .stackPointer
  else .zeroRegister

end Word

/-! ## Registers -/

/-- The 32-bit forms read and write the low word, and clear the high one. -/
def sized (sixtyFour : Bool) (value : BitVec 64) : BitVec 64 :=
  if sixtyFour then value else (value.setWidth 32).setWidth 64

namespace Core

def readReg (c : Core) (sixtyFour : Bool) (code : BitVec 5) (mode : Reg31Mode) : BitVec 64 :=
  sized sixtyFour (if code = 31 ∧ mode = .zeroRegister then 0 else c.registers code.toFin)

def writeReg (c : Core) (sixtyFour : Bool) (code : BitVec 5) (value : BitVec 64)
    (mode : Reg31Mode) : Core :=
  if code = 31 ∧ mode = .zeroRegister then c
  else c.writeRegister code.toFin (sized sixtyFour value)

end Core

theorem sized_narrow {n : Nat} (hn : n ≤ 32) (x : BitVec n) :
    sized false (x.setWidth 64) = x.setWidth 64 := by
  apply BitVec.eq_of_getLsbD_eq
  intro k hk
  simp only [sized, Bool.false_eq_true, if_false, BitVec.getLsbD_setWidth]
  by_cases hlow : k < 32
  · simp [hlow, hk]
  · rw [BitVec.getLsbD_of_ge x k (by omega)]
    simp

/-! ## Flags -/

def SimSystemRegister.setBits (r : SimSystemRegister) (msb lsb : Nat) (bits : BitVec 32) :
    SimSystemRegister :=
  let mask := (1#32 <<< (msb - lsb + 1) - 1) <<< lsb
  { r with value := (r.value &&& ~~~mask) ||| (bits <<< lsb &&& mask) }

structure Flags where
  n : Bool
  z : Bool
  c : Bool
  v : Bool
  deriving DecidableEq, Repr

def flagBit (b : Bool) : BitVec 32 := if b then 1 else 0

def SimSystemRegister.setFlags (r : SimSystemRegister) (flags : Flags) : SimSystemRegister :=
  (((r.setBits 31 31 (flagBit flags.n)).setBits 30 30 (flagBit flags.z)).setBits 29 29
    (flagBit flags.c)).setBits 28 28 (flagBit flags.v)

def Core.setFlags (c : Core) (flags : Flags) : Core := { c with nzcv := c.nzcv.setFlags flags }

def regSize (sixtyFour : Bool) : Nat := if sixtyFour then 64 else 32

def calcNFlag (result : BitVec 64) (sixtyFour : Bool) : Bool :=
  result.getLsbD (regSize sixtyFour - 1)

def calcZFlag (result : BitVec 64) : Bool := result == 0

/-! ## Arithmetic -/

def regMask (sixtyFour : Bool) : BitVec 64 := if sixtyFour then 0xffffffffffffffff else 0xffffffff

def signMask (sixtyFour : Bool) : BitVec 64 := if sixtyFour then 1 <<< 63 else 1 <<< 31

/-- `AddWithCarry`: the result and the flags. -/
def addWithCarry (sixtyFour : Bool) (left right : BitVec 64) (carryIn : Bool) :
    BitVec 64 × Flags :=
  let carry : BitVec 64 := if carryIn then 1 else 0
  let left := left &&& regMask sixtyFour
  let right := right &&& regMask sixtyFour
  let result := (left + right + carry) &&& regMask sixtyFour
  let maxUint2op := regMask sixtyFour - carry
  let c := maxUint2op < left || maxUint2op - left < right
  let leftSign := left &&& signMask sixtyFour
  let rightSign := right &&& signMask sixtyFour
  let resultSign := result &&& signMask sixtyFour
  let v := leftSign == rightSign && leftSign != resultSign
  (result, ⟨calcNFlag result sixtyFour, calcZFlag result, c, v⟩)

def rotateRight (value : BitVec 64) (rotate width : Nat) : BitVec 64 :=
  let value := value &&& (BitVec.allOnes 64 >>> (64 - width))
  if 0 < rotate % 64 then value <<< (width - rotate % 64) ||| value >>> (rotate % 64) else value

def shiftOperand (sixtyFour : Bool) (value : BitVec 64) (shift : BitVec 2) (amount : Nat) :
    BitVec 64 :=
  let size := regSize sixtyFour
  let negative := value &&& signMask sixtyFour != 0
  if amount = 0 then value
  else if shift = 0 then
    if size ≤ amount then 0 else (value <<< amount) &&& regMask sixtyFour
  else if shift = 1 then
    if size ≤ amount then 0 else (value >>> amount) &&& regMask sixtyFour
  else if shift = 2 then
    if size ≤ amount then (if negative then BitVec.allOnes 64 else 0)
    else
      ((value >>> amount) ||| (if negative then BitVec.allOnes 64 <<< (size - amount) else 0)) &&&
        regMask sixtyFour
  else rotateRight value amount size &&& regMask sixtyFour

/-! ## Logical operations -/

/-- The result of a logical operation, and the flags that ANDS sets. -/
def logicalResult (w : Word) (op1 op2 : BitVec 64) : BitVec 64 × Option Flags :=
  if w &&& 0x60000000 = 0x60000000 then
    let result := op1 &&& op2
    (result, some ⟨calcNFlag result w.getSixtyFourBits, calcZFlag result, false, false⟩)
  else if w &&& 0x60000000 = 0 then (op1 &&& op2, none)
  else if w &&& 0x60000000 = 0x20000000 then (op1 ||| op2, none)
  else (op1 ^^^ op2, none)

def logicalHelper (w : Word) (op2 : BitVec 64) (c : Core) : LeafProg :=
  let op1 := c.readReg w.getSixtyFourBits w.getRn .zeroRegister
  let result := logicalResult w op1 op2
  let c := match result.2 with
    | some flags => c.setFlags flags
    | none => c
  .done (c.writeReg w.getSixtyFourBits w.getRd result.1 w.getRdMode)

/-- The second operand, from the register that is shifted. -/
def logicalOperand (w : Word) (rm : BitVec 64) : BitVec 64 :=
  let op2 := shiftOperand w.getSixtyFourBits rm w.getShiftDP w.getImmDPShift
  if w &&& 0x00200000 = 0x00200000 then ~~~op2 else op2

def visitLogicalShifted : Leaf := fun w c =>
  logicalHelper w (logicalOperand w (c.readReg w.getSixtyFourBits w.getRm .zeroRegister)) c

/-! ## Additions -/

def addSubResult (w : Word) (op1 op2 : BitVec 64) : BitVec 64 × Flags :=
  if w.getLsbD 30 then addWithCarry w.getSixtyFourBits op1 (~~~op2) true
  else addWithCarry w.getSixtyFourBits op1 op2 false

def addSubHelper (w : Word) (op2 : BitVec 64) (c : Core) : LeafProg :=
  let result := addSubResult w (c.readReg w.getSixtyFourBits w.getRn w.getRnMode) op2
  let c := if w.getFlagsUpdate then c.setFlags result.2 else c
  .done (c.writeReg w.getSixtyFourBits w.getRd result.1 w.getRdMode)

def addSubOperand (w : Word) : BitVec 64 :=
  w.getImmAddSub <<< (if w.getImmAddSubShift then 12 else 0)

def visitAddSubImmediate : Leaf := fun w c => addSubHelper w (addSubOperand w) c

/-! ## Conditional selection -/

def unimplemented (debug : Bool) (c : Core) (next : LeafProg) : LeafProg :=
  if debug then .abort Abort.unimplemented.message c else next

/-- What is selected when the condition fails; nothing for another encoding. -/
def selectFailed (w : Word) (rm : BitVec 64) : Option (BitVec 64) :=
  let operation := w &&& 0x7fe00c00
  if operation = 0x1a800000 then some rm
  else if operation = 0x1a800400 then some (rm + 1)
  else if operation = 0x5a800000 then some (~~~rm)
  else if operation = 0x5a800400 then some (-rm)
  else none

def visitConditionalSelect (debug : Bool) : Leaf := fun w c =>
  let write (value : BitVec 64) : LeafProg :=
    .done (c.writeReg w.getSixtyFourBits w.getRd value .zeroRegister)
  if c.conditionPassed w.getCondition then write (c.readXRegister w.getRn)
  else
    match selectFailed w (c.readXRegister w.getRm) with
    | some value => write value
    | none => unimplemented debug c (write (c.readXRegister w.getRm))

/-! ## System registers -/

def systemNZCV : BitVec 16 := 0xda10

def systemFPCR : BitVec 16 := 0xda20

def systemRNDR : BitVec 16 := 0xd920

def systemRNDRRS : BitVec 16 := 0xd921

def systemDCZID : BitVec 16 := 0xd807

/--
The moves of `VisitSystem` between general and system registers; `other` is
what it does for its other forms, for random numbers and for DCZID.
-/
def visitSystem (debug : Bool) (other : Leaf) : Leaf := fun w c =>
  if c.formHash = formHash "msr_sr_systemmove" then
    let value := c.readWRegister w.getRt
    if w.getImmSystemRegister = systemNZCV then
      .done { c with nzcv := c.nzcv.setRawValue value }
    else if w.getImmSystemRegister = systemFPCR then
      .done { c with fpcr := c.fpcr.setRawValue value }
    else unimplemented debug c (.done c)
  else if c.formHash = formHash "mrs_rs_systemmove" then
    if w.getImmSystemRegister = systemNZCV then
      .done (c.writeReg true w.getRt (c.nzcv.value.setWidth 64) .zeroRegister)
    else if w.getImmSystemRegister = systemFPCR then
      .done (c.writeReg true w.getRt (c.fpcr.value.setWidth 64) .zeroRegister)
    else if w.getImmSystemRegister = systemRNDR ∨ w.getImmSystemRegister = systemRNDRRS ∨
        w.getImmSystemRegister = systemDCZID then
      other w c
    else unimplemented debug c (.done c)
  else other w c

/-! ## Vector registers -/

namespace SimVRegister

/-- Write the low bytes; a longer register is cleared first. -/
def writeLow (r : SimVRegister) (bytes : Nat) (low : BitVec 64) : SimVRegister :=
  if bytes < r.sizeInBytes then { r with value := low.setWidth 2048 }
  else { r with value := (r.value >>> (8 * bytes) <<< (8 * bytes)) ||| low.setWidth 2048 }

/-- The bytes from `start` up to the size of the register become zero. -/
def clearTail (r : SimVRegister) (start : Nat) : SimVRegister :=
  if start < r.sizeInBytes then
    { r with value := r.value &&& ~~~(BitVec.allOnes 2048 <<< (8 * start) &&&
      ~~~(BitVec.allOnes 2048 <<< (8 * r.sizeInBytes))) }
  else r

def uint (r : SimVRegister) (lane : Nat) : BitVec 8 := r.value.extractLsb' (8 * lane) 8

def insert (r : SimVRegister) (offset : Nat) {width : Nat} (bits : BitVec width) :
    SimVRegister :=
  { r with value := (r.value &&& ~~~((BitVec.allOnes width).setWidth 2048 <<< offset)) |||
      bits.setWidth 2048 <<< offset }

end SimVRegister

namespace Core

def setVRegister (c : Core) (code : BitVec 5) (r : SimVRegister) : Core :=
  { c with vregisters := fun i => if i = code.toFin then r else c.vregisters i }

def vregister (c : Core) (code : BitVec 5) : SimVRegister := c.vregisters code.toFin

end Core

/-- Byte by byte over the lanes; the destination can be one of the sources. -/
def lanes (op : BitVec 8 → BitVec 8 → BitVec 8) (rd rn rm : BitVec 5) : Nat → Core → Core
  | 0, c => c
  | n + 1, c =>
      let c := lanes op rd rn rm n c
      c.setVRegister rd ((c.vregister rd).insert (8 * n) (op ((c.vregister rn).uint n)
        ((c.vregister rm).uint n)))

/-- A bitwise operation on a format of `bytes` bytes. -/
def bitwise (op : BitVec 8 → BitVec 8 → BitVec 8) (bytes : Nat) (rd rn rm : BitVec 5)
    (c : Core) : Core :=
  lanes op rd rn rm bytes (c.setVRegister rd ((c.vregister rd).clearTail bytes))

def logicalFormatBytes (w : Word) : Nat := if w.getNEONQ then 16 else 8

/-- The cases AND, ORR, ORN, EOR and BIC of `VisitNEON3Same`; the rest is `other`. -/
def visitNEON3Same (other : Leaf) : Leaf := fun w c =>
  let bytes := logicalFormatBytes w
  let apply (op : BitVec 8 → BitVec 8 → BitVec 8) : LeafProg :=
    .done (bitwise op bytes w.getRd w.getRn w.getRm c)
  let operation := w &&& 0xbfe0fc00
  if operation = 0x0e201c00 then apply fun a b => a &&& b
  else if operation = 0x0ea01c00 then apply fun a b => a ||| b
  else if operation = 0x0ee01c00 then apply fun a b => a ||| ~~~b
  else if operation = 0x2e201c00 then apply fun a b => a ^^^ b
  else if operation = 0x0e601c00 then apply fun a b => a &&& ~~~b
  else other w c

/-! ## Moves between vector and general registers -/

inductive FMov where
  | hw
  | wh
  | xh
  | hx
  | ws
  | sw
  | xd
  | dx
  | d1x
  | xd1
  deriving DecidableEq, Repr

def fmov? (w : Word) : Option FMov :=
  let operation := w &&& 0xfffffc00
  if operation = 0x1ee70000 then some .hw
  else if operation = 0x1ee60000 then some .wh
  else if operation = 0x9ee60000 then some .xh
  else if operation = 0x9ee70000 then some .hx
  else if operation = 0x1e260000 then some .ws
  else if operation = 0x1e270000 then some .sw
  else if operation = 0x9e660000 then some .xd
  else if operation = 0x9e670000 then some .dx
  else if operation = 0x9eaf0000 then some .d1x
  else if operation = 0x9eae0000 then some .xd1
  else none

/-- `AssertSupportedFPCR`: the condition that fails first. -/
def unsupportedFpcr (c : Core) : Option String :=
  if c.fpcr.value.getLsbD 24 then some "ReadFpcr().GetFZ() == 0"
  else if c.fpcr.value.extractLsb 23 22 ≠ 0 then some "ReadFpcr().GetRMode() == FPTieEven"
  else if c.fpcr.value.getLsbD 26 then some "ReadFpcr().GetAHP() == 0"
  else none

def runFMov (dst src : BitVec 5) (c : Core) : FMov → Core
  | .hw => c.setVRegister dst ((c.vregister dst).writeLow 2
      ((c.readXRegister src).setWidth 16 |>.setWidth 64))
  | .wh => c.writeReg false dst ((c.readVRegister 2 src).setWidth 64) .zeroRegister
  | .xh => c.writeReg true dst ((c.readVRegister 2 src).setWidth 64) .zeroRegister
  | .hx => c.setVRegister dst ((c.vregister dst).writeLow 2
      ((c.readXRegister src).setWidth 16 |>.setWidth 64))
  | .ws => c.writeReg false dst ((c.readVRegister 4 src).setWidth 64) .zeroRegister
  | .sw => c.setVRegister dst ((c.vregister dst).writeLow 4 ((c.readWRegister src).setWidth 64))
  | .xd => c.writeReg true dst ((c.readVRegister 8 src).setWidth 64) .zeroRegister
  | .dx => c.setVRegister dst ((c.vregister dst).writeLow 8 (c.readXRegister src))
  | .d1x =>
      let c := bitwise (fun a _ => a) 16 dst dst dst c
      c.setVRegister dst ((c.vregister dst).insert 64 (c.readXRegister src))
  | .xd1 => c.writeReg true dst ((c.vregister src).value.extractLsb' 64 64) .zeroRegister

/-- The bitwise moves of `VisitFPIntegerConvert`; `convert` makes the conversions. -/
def visitFPIntegerConvert (debug : Bool) (convert : Leaf) : Leaf := fun w c =>
  match debug, unsupportedFpcr c with
  | true, some condition => .abort (Abort.check condition).message c
  | _, _ =>
      match fmov? w with
      | some move => .done (runFMov w.getRd w.getRn c move)
      | none => convert w c

/-! ## Words of either size -/

theorem and_regMask (s : Bool) (x : BitVec 64) : x &&& regMask s = sized s x := by
  cases s with
  | true => exact BitVec.and_allOnes
  | false =>
      apply BitVec.eq_of_getLsbD_eq
      intro i hi
      have hmask : (0xffffffff : BitVec 64) = (BitVec.allOnes 32).setWidth 64 := rfl
      simp only [regMask, sized, Bool.false_eq_true, if_false, hmask, BitVec.getLsbD_and,
        BitVec.getLsbD_setWidth, BitVec.getLsbD_allOnes, hi, decide_true, Bool.true_and]
      rw [Bool.and_comm]

/-! ## What the fields say -/

theorem class_disjoint {w mask value mask' value' : Word} (h : w &&& mask = value)
    (hne : value &&& mask' ≠ value' &&& mask) :
    ¬w &&& mask' = value' := by
  intro h'
  apply hne
  rw [← h, ← h', BitVec.and_assoc, BitVec.and_assoc, BitVec.and_comm mask]

theorem flagBit_getLsbD (b : Bool) : (flagBit b).getLsbD 0 = b := by
  cases b <;> rfl

theorem setBits_getLsbD (r : SimSystemRegister) (b : Bool) {k j : Nat} (hk : k < 32)
    (hj : j < 32) :
    (r.setBits k k (flagBit b)).value.getLsbD j = if k = j then b else r.value.getLsbD j := by
  have hmask (h : k - k = 0) : (1#32 <<< (k - k + 1) - 1) <<< k = BitVec.twoPow 32 k := by
    rw [h]
    rfl
  rw [SimSystemRegister.setBits, hmask (Nat.sub_self k)]
  simp only [BitVec.getLsbD_or, BitVec.getLsbD_and, BitVec.getLsbD_not, BitVec.getLsbD_twoPow,
    BitVec.getLsbD_shiftLeft, hk, hj, decide_true, Bool.true_and]
  by_cases hkj : k = j
  · subst hkj
    simp only [Nat.sub_self, Nat.lt_irrefl, decide_true, decide_false, flagBit_getLsbD,
      Bool.not_true, Bool.not_false, Bool.and_false, Bool.false_or, Bool.true_and,
      Bool.and_true, if_true]
  · simp [hkj]

theorem setFlags_getLsbD (r : SimSystemRegister) (flags : Flags) :
    (r.setFlags flags).value.getLsbD 31 = flags.n ∧
      (r.setFlags flags).value.getLsbD 30 = flags.z ∧
      (r.setFlags flags).value.getLsbD 29 = flags.c ∧
      (r.setFlags flags).value.getLsbD 28 = flags.v := by
  have h (r : SimSystemRegister) (b : Bool) (k j : Fin 32) :=
    setBits_getLsbD r b k.isLt j.isLt
  refine ⟨?_, ?_, ?_, ?_⟩
  · exact (h _ _ 28 31).trans ((h _ _ 29 31).trans ((h _ _ 30 31).trans (h _ _ 31 31)))
  · exact (h _ _ 28 30).trans ((h _ _ 29 30).trans (h _ _ 30 30))
  · exact (h _ _ 28 29).trans (h _ _ 29 29)
  · exact h _ _ 28 28

theorem insert_getLsbD (r : SimVRegister) {offset width : Nat} (bits : BitVec width) {j : Nat}
    (hj : j < 2048) :
    (r.insert offset bits).value.getLsbD j =
      if offset ≤ j ∧ j < offset + width then bits.getLsbD (j - offset)
      else r.value.getLsbD j := by
  simp only [SimVRegister.insert, BitVec.getLsbD_or, BitVec.getLsbD_and, BitVec.getLsbD_not,
    BitVec.getLsbD_shiftLeft, BitVec.getLsbD_setWidth, BitVec.getLsbD_allOnes, hj, decide_true,
    Bool.true_and]
  by_cases hlow : j < offset
  · have hout : ¬(offset ≤ j ∧ j < offset + width) := by omega
    simp [hlow, hout]
  · have hsub : j - offset < 2048 := by omega
    by_cases hin : j < offset + width
    · have hlt : j - offset < width := by omega
      have hle : offset ≤ j := by omega
      simp [hlow, hsub, hlt, hle, hin]
    · have hge : ¬j - offset < width := by omega
      have hbits : bits.getLsbD (j - offset) = false :=
        BitVec.getLsbD_of_ge bits _ (by omega)
      simp [hlow, hge, hin, hbits]

theorem clearTail_getLsbD (r : SimVRegister) {start : Nat} {j : Nat} (hj : j < 2048) :
    (r.clearTail start).value.getLsbD j =
      if 8 * start ≤ j ∧ j < 8 * r.sizeInBytes then false else r.value.getLsbD j := by
  unfold SimVRegister.clearTail
  split_ifs with hstart htail htail
  · simp only [BitVec.getLsbD_and, BitVec.getLsbD_not, BitVec.getLsbD_shiftLeft,
      BitVec.getLsbD_allOnes, hj, decide_true, Bool.true_and]
    have hlow : ¬j < 8 * start := by omega
    have hsub : j - 8 * start < 2048 := by omega
    simp [hlow, hsub, htail.2]
  · simp only [BitVec.getLsbD_and, BitVec.getLsbD_not, BitVec.getLsbD_shiftLeft,
      BitVec.getLsbD_allOnes, hj, decide_true, Bool.true_and]
    by_cases hlow : j < 8 * start
    · simp [hlow]
    · have hge : ¬j < 8 * r.sizeInBytes := by omega
      have hsub : j - 8 * r.sizeInBytes < 2048 := by omega
      simp [hge, hsub]
  · omega
  · rfl

theorem setVRegister_self (c : Core) (code : BitVec 5) :
    c.setVRegister code (c.vregister code) = c := by
  have hregisters : (fun i => if i = code.toFin then c.vregister code else c.vregisters i) =
      c.vregisters := by
    funext i
    split_ifs with hi
    · rw [hi]
      rfl
    · rfl
  rw [Core.setVRegister, hregisters]

theorem setVRegister_setVRegister (c : Core) (code : BitVec 5) (r r' : SimVRegister) :
    (c.setVRegister code r).setVRegister code r' = c.setVRegister code r' := by
  simp only [Core.setVRegister]
  congr 1
  funext i
  split_ifs <;> rfl

theorem vregister_setVRegister (c : Core) (code code' : BitVec 5) (r : SimVRegister) :
    (c.setVRegister code r).vregister code' = if code' = code then r else c.vregister code' := by
  have hiff : code'.toFin = code.toFin ↔ code' = code := BitVec.toFin_inj
  simp only [Core.vregister, Core.setVRegister, hiff]

theorem lanes_eq (op : BitVec 8 → BitVec 8 → BitVec 8) (rd rn rm : BitVec 5) (n : Nat)
    (c : Core) :
    lanes op rd rn rm n c = c.setVRegister rd ((lanes op rd rn rm n c).vregister rd) := by
  induction n with
  | zero => exact (setVRegister_self c rd).symm
  | succ n ih =>
      rw [lanes, vregister_setVRegister, if_pos rfl]
      generalize (SimVRegister.insert _ _ _) = r
      rw [ih, setVRegister_setVRegister]

theorem lanes_getLsbD (op : BitVec 8 → BitVec 8 → BitVec 8) (rd rn rm : BitVec 5) {n : Nat}
    (hn : 8 * n ≤ 2048) (c : Core) {j : Nat} (hj : j < 2048) :
    ((lanes op rd rn rm n c).vregister rd).value.getLsbD j =
      if j < 8 * n then
        (op ((c.vregister rn).uint (j / 8)) ((c.vregister rm).uint (j / 8))).getLsbD (j % 8)
      else (c.vregister rd).value.getLsbD j := by
  induction n generalizing j with
  | zero => simp [lanes]
  | succ n ih =>
      -- A lane that is still to be written is read as it was, also of the destination.
      have huint (code : BitVec 5) :
          ((lanes op rd rn rm n c).vregister code).uint n = (c.vregister code).uint n := by
        apply BitVec.eq_of_getLsbD_eq
        intro k hk
        simp only [SimVRegister.uint, BitVec.getLsbD_extractLsb', hk, decide_true, Bool.true_and]
        by_cases hcode : code = rd
        · subst hcode
          rw [ih (by omega) (by omega), if_neg (by omega)]
        · rw [lanes_eq, vregister_setVRegister, if_neg hcode]
      rw [lanes, vregister_setVRegister, if_pos rfl, huint, huint,
        insert_getLsbD _ _ hj, ih (by omega) hj]
      by_cases hlow : j < 8 * n
      · rw [if_neg (by omega), if_pos hlow, if_pos (by omega)]
      · by_cases hin : j < 8 * n + 8
        · have hdiv : j / 8 = n := by omega
          have hmod : j % 8 = j - 8 * n := by omega
          rw [if_pos (by omega), if_pos (by omega), hdiv, hmod]
        · rw [if_neg (by omega), if_neg hlow, if_neg (by omega)]

/-- An operation on bytes and the one on words that it makes. -/
structure Bitwise (op : BitVec 8 → BitVec 8 → BitVec 8) (wide : BitVec 64 → BitVec 64 → BitVec 64)
    (bit : Bool → Bool → Bool) : Prop where
  narrow : ∀ a b k, k < 8 → (op a b).getLsbD k = bit (a.getLsbD k) (b.getLsbD k)
  wide : ∀ a b k, k < 64 → (wide a b).getLsbD k = bit (a.getLsbD k) (b.getLsbD k)

theorem bitwise_or : Bitwise (fun a b => a ||| b) (fun a b => a ||| b) (fun p q => p || q) :=
  ⟨fun _ _ _ _ => BitVec.getLsbD_or, fun _ _ _ _ => BitVec.getLsbD_or⟩

theorem bitwise_xor : Bitwise (fun a b => a ^^^ b) (fun a b => a ^^^ b) (fun p q => p ^^ q) :=
  ⟨fun _ _ _ _ => BitVec.getLsbD_xor, fun _ _ _ _ => BitVec.getLsbD_xor⟩

theorem bitwise_getLsbD {op : BitVec 8 → BitVec 8 → BitVec 8}
    {wide : BitVec 64 → BitVec 64 → BitVec 64} {bit : Bool → Bool → Bool}
    (hop : Bitwise op wide bit) {bytes : Nat} (hbytes : bytes ≤ 16) (rd rn rm : BitVec 5)
    (c : Core) {j : Nat} (hj : j < 2048) :
    ((bitwise op bytes rd rn rm c).vregister rd).value.getLsbD j =
      if j < 8 * bytes then
        bit ((c.vregister rn).value.getLsbD j) ((c.vregister rm).value.getLsbD j)
      else ((c.vregister rd).clearTail bytes).value.getLsbD j := by
  rw [bitwise, lanes_getLsbD op rd rn rm (by omega) _ hj, vregister_setVRegister c rd rd,
    if_pos rfl]
  split_ifs with hlow
  · -- The tail that is cleared lies above the lanes.
    have hsource (code : BitVec 5) :
        (((c.setVRegister rd ((c.vregister rd).clearTail bytes)).vregister code).uint
          (j / 8)).getLsbD (j % 8) = (c.vregister code).value.getLsbD j := by
      have hmod : j % 8 < 8 := by omega
      have hadd : 8 * (j / 8) + j % 8 = j := by omega
      simp only [SimVRegister.uint, BitVec.getLsbD_extractLsb', hmod, decide_true, Bool.true_and,
        hadd, vregister_setVRegister]
      split_ifs with hcode
      · subst hcode
        rw [clearTail_getLsbD _ hj, if_neg (by omega)]
      · rfl
    rw [hop.narrow _ _ _ (by omega), hsource, hsource]
  · rfl

theorem bitwise_eq (op : BitVec 8 → BitVec 8 → BitVec 8) (bytes : Nat) (rd rn rm : BitVec 5)
    (c : Core) :
    bitwise op bytes rd rn rm c =
      c.setVRegister rd ((bitwise op bytes rd rn rm c).vregister rd) := by
  rw [bitwise, lanes_eq, setVRegister_setVRegister, vregister_setVRegister c rd rd, if_pos rfl]

end GabyVm.Aarch64
