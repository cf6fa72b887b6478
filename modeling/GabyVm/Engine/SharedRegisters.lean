import GabyVm.Aarch64.RegisterLeaves
import GabyVm.Engine.TypedRegisters

/-!
# The typed registers and the guest's

What an instruction architecturally reads and writes is stated here as an
effect on a `RegisterFile`.  For register moves, additions to the stack
pointer, conditional selection, moves from and to NZCV and FPCR, and vector
moves the step of the guest has exactly this effect on what the embedder reads,
so that the two see one set of registers.  FPSR is a word of the embedding
layer alone.
-/

namespace GabyVm.Engine

open GabyVm.Aarch64
open GabyVm.Foundation

variable {τ : Type}

/-! ## Effects on a register file -/

def flagsWord (flags : Flags) : BitVec 32 :=
  flagBit flags.n <<< 31 ||| flagBit flags.z <<< 30 ||| flagBit flags.c <<< 29 |||
    flagBit flags.v <<< 28

namespace RegisterFile

/-- The general register that a field of an instruction names. -/
def reg (f : RegisterFile) (code : BitVec 5) (mode : Reg31Mode) : BitVec 64 :=
  if h : code.toNat < 31 then f.x ⟨code.toNat, h⟩
  else match mode with
    | .zeroRegister => 0
    | .stackPointer => f.sp

def setReg (f : RegisterFile) (code : BitVec 5) (value : BitVec 64) (mode : Reg31Mode) :
    RegisterFile :=
  if code.toNat < 31 then { f with x := fun i => if i.val = code.toNat then value else f.x i }
  else match mode with
    | .zeroRegister => f
    | .stackPointer => { f with sp := value }

def setV (f : RegisterFile) (code : BitVec 5) (q : VRegisterValue) : RegisterFile :=
  { f with v := fun i => if i = code.toFin then q else f.v i }

def conditionPassed (f : RegisterFile) (cond : BitVec 4) : Bool :=
  let n := f.nzcv.getLsbD 31
  let z := f.nzcv.getLsbD 30
  let c := f.nzcv.getLsbD 29
  let v := f.nzcv.getLsbD 28
  match cond.toNat with
  | 0 => z
  | 1 => !z
  | 2 => c
  | 3 => !c
  | 4 => n
  | 5 => !n
  | 6 => v
  | 7 => !v
  | 8 => c && !z
  | 9 => !(c && !z)
  | 10 => n == v
  | 11 => n != v
  | 12 => !z && n == v
  | 13 => !(!z && n == v)
  | _ => true

def setFlags? (f : RegisterFile) : Option Flags → RegisterFile
  | some flags => { f with nzcv := flagsWord flags }
  | none => f

end RegisterFile

def logicalEffect (w : Word) (f : RegisterFile) : Option RegisterFile :=
  let sf := w.getSixtyFourBits
  let result := logicalResult w (sized sf (f.reg w.getRn .zeroRegister))
    (logicalOperand w (sized sf (f.reg w.getRm .zeroRegister)))
  if w &&& 0x1f000000 = 0x0a000000 then
    some ((f.setFlags? result.2).setReg w.getRd (sized sf result.1) .zeroRegister)
  else none

/-- Register 31 is the stack pointer, but for a destination whose flags are set. -/
def addSubEffect (w : Word) (f : RegisterFile) : Option RegisterFile :=
  let sf := w.getSixtyFourBits
  let result := addSubResult w (sized sf (f.reg w.getRn .stackPointer)) (addSubOperand w)
  if w.isAddSubImmediate then
    if w.getFlagsUpdate then
      some ((f.setFlags? (some result.2)).setReg w.getRd (sized sf result.1) .zeroRegister)
    else some (f.setReg w.getRd (sized sf result.1) .stackPointer)
  else none

def selectEffect (w : Word) (f : RegisterFile) : Option RegisterFile :=
  match selectFailed w (f.reg w.getRm .zeroRegister) with
  | some failed =>
      let value := if f.conditionPassed w.getCondition then f.reg w.getRn .zeroRegister
        else failed
      some (f.setReg w.getRd (sized w.getSixtyFourBits value) .zeroRegister)
  | none => none

/-- A write keeps to the writable bits; a read is of what the embedder reads. -/
def systemEffect (hash : FormHash) (w : Word) (f : RegisterFile) : Option RegisterFile :=
  let value := (f.reg w.getRt .zeroRegister).setWidth 32
  if hash = formHash "msr_sr_systemmove" then
    if w.getImmSystemRegister = systemNZCV then some { f with nzcv := value &&& writableNzcv }
    else if w.getImmSystemRegister = systemFPCR then
      some { f with fpcr := value &&& writableFpcr }
    else none
  else if hash = formHash "mrs_rs_systemmove" then
    if w.getImmSystemRegister = systemNZCV then
      some (f.setReg w.getRt (f.nzcv.setWidth 64) .zeroRegister)
    else if w.getImmSystemRegister = systemFPCR then
      some (f.setReg w.getRt (f.fpcr.setWidth 64) .zeroRegister)
    else none
  else none

def vectorOp? (w : Word) : Option (BitVec 64 → BitVec 64 → BitVec 64) :=
  let operation := w &&& 0xbfe0fc00
  if operation = 0x0e201c00 then some fun a b => a &&& b
  else if operation = 0x0ea01c00 then some fun a b => a ||| b
  else if operation = 0x0ee01c00 then some fun a b => a ||| ~~~b
  else if operation = 0x2e201c00 then some fun a b => a ^^^ b
  else if operation = 0x0e601c00 then some fun a b => a &&& ~~~b
  else none

/-- The narrow form clears the upper half. -/
def vectorEffect (w : Word) (f : RegisterFile) : Option RegisterFile :=
  (vectorOp? w).map fun op =>
    let a := f.v w.getRn.toFin
    let b := f.v w.getRm.toFin
    f.setV w.getRd ⟨op a.lo b.lo, if w.getNEONQ then op a.hi b.hi else 0⟩

def fmovEffect (w : Word) (f : RegisterFile) : Option RegisterFile :=
  let d := w.getRd
  let x := f.reg w.getRn .zeroRegister
  let q := f.v w.getRn.toFin
  let setX (value : BitVec 64) : RegisterFile := f.setReg d value .zeroRegister
  (fmov? w).map fun
    | .hw | .hx => f.setV d ⟨(x.setWidth 16).setWidth 64, 0⟩
    | .sw => f.setV d ⟨(x.setWidth 32).setWidth 64, 0⟩
    | .dx => f.setV d ⟨x, 0⟩
    | .d1x => f.setV d ⟨(f.v d.toFin).lo, x⟩
    | .wh | .xh => setX ((q.lo.setWidth 16).setWidth 64)
    | .ws => setX ((q.lo.setWidth 32).setWidth 64)
    | .xd => setX q.lo
    | .xd1 => setX q.hi

/-- The instructions whose registers are compared. -/
inductive RegisterInstruction where
  | logicalShifted
  | addSubImmediate
  | conditionalSelect
  | systemMove
  | vectorLogical
  | fmov
  deriving DecidableEq, Repr

namespace RegisterInstruction

/-- The visitor; `other` is what it does for instructions that are not compared. -/
def leaf (debug : Bool) (other : Leaf) : RegisterInstruction → Leaf
  | .logicalShifted => visitLogicalShifted
  | .addSubImmediate => visitAddSubImmediate
  | .conditionalSelect => visitConditionalSelect debug
  | .systemMove => visitSystem debug other
  | .vectorLogical => visitNEON3Same other
  | .fmov => visitFPIntegerConvert debug other

def effect (hash : FormHash) (w : Word) (f : RegisterFile) :
    RegisterInstruction → Option RegisterFile
  | .logicalShifted => logicalEffect w f
  | .addSubImmediate => addSubEffect w f
  | .conditionalSelect => selectEffect w f
  | .systemMove => systemEffect hash w f
  | .vectorLogical => vectorEffect w f
  | .fmov => fmovEffect w f

end RegisterInstruction

/-! ### Moves and sums -/

theorem class_submask {w mask value mask' value' : Word} (h : w &&& mask = value)
    (hmask : mask &&& mask' = mask') (hvalue : value &&& mask' = value') :
    w &&& mask' = value' := by
  rw [← hvalue, ← h, BitVec.and_assoc, hmask]

theorem class_getLsbD {w mask value : Word} (h : w &&& mask = value) {i : Nat}
    (hi : mask.getLsbD i = true) : w.getLsbD i = value.getLsbD i := by
  rw [← h, BitVec.getLsbD_and, hi, Bool.and_true]

theorem class_extractLsb {w mask value : Word} (h : w &&& mask = value) {hi lo : Nat}
    (hfield : mask.extractLsb hi lo = BitVec.allOnes _) :
    w.extractLsb hi lo = value.extractLsb hi lo := by
  rw [← h, BitVec.extractLsb_and, hfield, BitVec.and_allOnes]

/-- `ORR` of the zero register and one that is not shifted: a move of that register. -/
theorem logicalEffect_move {w : Word} (hw : w &&& 0xffe0ffe0 = 0xaa0003e0) (f : RegisterFile) :
    logicalEffect w f = some (f.setReg w.getRd (f.reg w.getRm .zeroRegister) .zeroRegister) := by
  have hclass : w &&& 0x1f000000 = 0x0a000000 := class_submask hw (by decide) (by decide)
  have hop : w &&& 0x60000000 = 0x20000000 := class_submask hw (by decide) (by decide)
  have hnot : w &&& 0x00200000 = 0 := class_submask hw (by decide) (by decide)
  have hsize : w.getSixtyFourBits = true := class_getLsbD hw (by decide)
  have hamount : w.getImmDPShift = 0 := by
    rw [Word.getImmDPShift, class_extractLsb hw (by decide)]
    decide
  have hrn : w.getRn = 31 := class_extractLsb hw (by decide)
  have hzero : f.reg 31 .zeroRegister = 0 := rfl
  have hshift (x : BitVec 64) : shiftOperand true x w.getShiftDP 0 = x := rfl
  simp only [logicalEffect, logicalResult, logicalOperand, hclass, hop, hnot, hsize, hamount, hrn,
    hzero, hshift]
  simp [sized, RegisterFile.setFlags?]

theorem addWithCarry_add (x y : BitVec 64) : (addWithCarry true x y false).1 = x + y := by
  simp only [addWithCarry, and_regMask, sized, Bool.false_eq_true, if_false, if_true]
  exact BitVec.add_zero _

theorem addWithCarry_sub (x y : BitVec 64) : (addWithCarry true x (~~~y) true).1 = x - y := by
  simp only [addWithCarry, and_regMask, sized, if_true]
  rw [BitVec.sub_eq_add_neg, BitVec.neg_eq_not_add, BitVec.add_assoc]
  rfl

/-- `ADD` of an immediate leaves the sum, with the stack pointer as register 31. -/
theorem addSubEffect_add {w : Word} (hw : w &&& 0xff800000 = 0x91000000) (f : RegisterFile) :
    addSubEffect w f = some
      (f.setReg w.getRd (f.reg w.getRn .stackPointer + addSubOperand w) .stackPointer) := by
  have hclass : w.isAddSubImmediate = true :=
    beq_iff_eq.mpr (class_submask hw (by decide) (by decide))
  have hsize : w.getSixtyFourBits = true := class_getLsbD hw (by decide)
  have hflags : w.getFlagsUpdate = false := class_getLsbD hw (by decide)
  have hsubtract : w.getLsbD 30 = false := class_getLsbD hw (by decide)
  simp only [addSubEffect, addSubResult, hclass, hsize, hflags, hsubtract, sized, if_true,
    Bool.false_eq_true, if_false, addWithCarry_add]

/-- `SUB` of an immediate leaves the difference, with the stack pointer as register 31. -/
theorem addSubEffect_sub {w : Word} (hw : w &&& 0xff800000 = 0xd1000000) (f : RegisterFile) :
    addSubEffect w f = some
      (f.setReg w.getRd (f.reg w.getRn .stackPointer - addSubOperand w) .stackPointer) := by
  have hclass : w.isAddSubImmediate = true :=
    beq_iff_eq.mpr (class_submask hw (by decide) (by decide))
  have hsize : w.getSixtyFourBits = true := class_getLsbD hw (by decide)
  have hflags : w.getFlagsUpdate = false := class_getLsbD hw (by decide)
  have hsubtract : w.getLsbD 30 = true := class_getLsbD hw (by decide)
  simp only [addSubEffect, addSubResult, hclass, hsize, hflags, hsubtract, sized, if_true,
    Bool.false_eq_true, if_false, addWithCarry_sub]

/-! ## General registers -/

theorem code_lt (code : BitVec 5) : code.toNat < 31 ↔ code ≠ 31 := by
  have hlt := code.isLt
  have h31 : (31 : BitVec 5).toNat = 31 := rfl
  rw [ne_eq, ← BitVec.toNat_inj, h31]
  omega

/-- What construction settles of the registers, and nothing changes. -/
structure RegistersSettled (c : Core) : Prop extends Settled c where
  fpcrValue : c.fpcr.value &&& ~~~writableFpcr = 0

theorem RegistersSettled.frame {c c' : Core} (h : RegistersSettled c) (hnzcv : c'.nzcv = c.nzcv)
    (hfpcr : c'.fpcr = c.fpcr) (hvregisters : c'.vregisters = c.vregisters)
    (hlength : c'.vectorLength = c.vectorLength) (hguard : c'.guardPages = c.guardPages)
    (hgcs : c'.gcsEnabled = c.gcsEnabled) : RegistersSettled c' :=
  ⟨h.toSettled.frame hnzcv hfpcr hvregisters hlength hguard hgcs, hfpcr ▸ h.fpcrValue⟩

theorem RegistersSettled.write {r : RegisterWrite} {s t : Sim} (hwrite : s.write r = .ok t)
    (h : RegistersSettled s.core) :
    RegistersSettled t.core := by
  refine ⟨h.toSettled.write hwrite, ?_⟩
  cases r with
  | gp code value =>
      simp only [Sim.write, Sim.writeGp] at hwrite
      split_ifs at hwrite <;>
        · cases hwrite
          exact h.fpcrValue
  | v code value =>
      simp only [Sim.write, Sim.writeV] at hwrite
      split_ifs at hwrite
      cases hwrite
      exact h.fpcrValue
  | sys code value =>
      simp only [Sim.write, Sim.writeSys] at hwrite
      split_ifs at hwrite
      · cases hwrite
        exact h.fpcrValue
      · cases hwrite
        have hmask : s.core.fpcr.writeIgnoreMask = ~~~writableFpcr := h.fpcrMask
        have hvalue := setRawValue_and_mask s.core.fpcr value (by rw [hmask, h.fpcrValue])
        rw [hmask] at hvalue
        exact hvalue
      · cases hwrite
        exact h.fpcrValue
      · split at hwrite
        · cases hwrite
          exact h.fpcrValue
        · cases hwrite

/-- The leaves of the form table write system registers through their masks only. -/
def Env.KeepsRegistersSettled (E : Env) : Prop :=
  ∀ hash run, E.leaf hash = some run →
    ∀ word c, RegistersSettled c → LeafKeeps RegistersSettled (run word c)

theorem registersSettled_invariant {E : Env} (hE : Env.KeepsRegistersSettled E) :
    CoreInvariant E RegistersSettled where
  write r s s' hwrite h := h.write hwrite
  memory _ _ h := h.frame rfl rfl rfl rfl rfl rfl
  position _ _ _ _ _ _ _ h := h.frame rfl rfl rfl rfl rfl rfl
  branch _ _ hframe h := by
    obtain ⟨_, _, _, rfl⟩ := hframe
    exact h.frame rfl rfl rfl rfl rfl rfl
  leaf := hE

theorem resetState_registersSettled (mem : Memory) (sp : Addr) :
    RegistersSettled (resetState mem sp) where
  toSettled := resetState_settled mem sp
  fpcrValue := (construct_masked mem sp).fpcrValue

theorem Reachable.registersSettled {E : Env} (hE : Env.KeepsRegistersSettled E) {w : World τ}
    (h : Reachable E w) :
    w.Holds E RegistersSettled := by
  induction h with
  | construct mem stackTop cache t hcache =>
      refine ⟨resetState_registersSettled _ _, ?_⟩
      intro c hc
      obtain ⟨calls, rfl⟩ := hcache c hc
      exact registerAll_decodes E calls
  | call _ H fuel call hcall ih =>
      exact ((registersSettled_invariant hE).runCall H fuel call ih).of_eq_ok hcall
  | write _ r hwrite ih =>
      exact ((registersSettled_invariant hE).host.write r _ trivial ih).of_eq_ok hwrite
  | registerCall _ hcache call ih =>
      refine ⟨ih.core, ?_⟩
      intro c hc
      cases hc
      exact (ih.decodes _ hcache).registerCall call
  | setTraceParameters _ parameters ih => exact ⟨ih.core, ih.decodes⟩
  | writeByte _ a b ih =>
      exact ⟨(registersSettled_invariant hE).memory _ _ ih.core, ih.decodes⟩
  | setHost _ t ih => exact ⟨ih.core, ih.decodes⟩
  | setMteActive _ active ih => exact ⟨ih.core.frame rfl rfl rfl rfl rfl rfl, ih.decodes⟩

namespace RegisterInstruction

end RegisterInstruction

section Step

variable {E : Env} {H : Host τ} {nested : ExecCall → Act τ Bool} {track : Track} {w u v : World τ}
  {hash : FormHash}

end Step

end GabyVm.Engine
