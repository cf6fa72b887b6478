import GabyVm.Aarch64.ScalarStores

/-!
# Vector stores

NEON structure stores, SVE structured stores and the stores of whole Z and P
registers.  All but the last two store lane by lane through `StoreLane`, which
hands a 64-bit value to the write primitive: the value of a lane is never wider
than the lane.
-/

namespace GabyVm.Aarch64

/-! ## Lanes -/

/-- `LogicVRegister::Uint`: a lane of `1 << lane` bytes, zero-extended. -/
def Core.laneUint (c : Core) (code : BitVec 5) (lane : Fin 4) (index : Nat) : BitVec 64 :=
  ((c.vregisters code.toFin).value.extractLsb' (8 * 2 ^ lane.val * index)
    (8 * 2 ^ lane.val)).setWidth 64

theorem laneUint_lt (c : Core) (code : BitVec 5) (lane : Fin 4) (index : Nat) :
    (c.laneUint code lane index).toNat < 2 ^ (8 * 2 ^ lane.val) := by
  rw [Core.laneUint, BitVec.toNat_setWidth]
  exact Nat.lt_of_le_of_lt (Nat.mod_le _ _) (BitVec.isLt _)

theorem lane_mem (lane : Fin 4) : 2 ^ lane.val ∈ [1, 2, 4, 8, 16] := by
  revert lane
  decide

def storeLane (m : AccessChecks) (src : BitVec 5) (lane : Fin 4) (index : Nat) (addr : Addr) :
    LeafM Unit := do
  let c ← LeafM.get
  LeafM.memWriteBytes m (2 ^ lane.val) addr (c.laneUint src lane index)

theorem makes_storeLane (m : AccessChecks) (o : Operands) (src : BitVec 5) (lane : Fin 4)
    (index : Nat) (addr : Addr) :
    LeafM.Makes m o (storeLane m src lane index addr) [.write addr (2 ^ lane.val)] := by
  apply LeafM.Makes.ofGet
  intro c _
  exact .memWriteBytes (lane_mem lane) addr (laneUint_lt c src lane index)

/-- The lane `index` of each of the registers, one after the other from `addr` on. -/
def storeStruct (m : AccessChecks) (srcs : List (BitVec 5)) (lane : Fin 4) (index : Nat)
    (addr : Addr) : LeafM Unit :=
  LeafM.forEach
    (fun r => storeLane m (srcs.getD r 0) lane index (addr + BitVec.ofNat 64 (r * 2 ^ lane.val)))
    (List.range srcs.length)

def structPlan (count : Nat) (lane : Fin 4) (addr : Addr) : List Access :=
  (List.range count).flatMap fun r =>
    [.write (addr + BitVec.ofNat 64 (r * 2 ^ lane.val)) (2 ^ lane.val)]

theorem makes_storeStruct (m : AccessChecks) (o : Operands) (srcs : List (BitVec 5))
    (lane : Fin 4) (index : Nat) (addr : Addr) :
    LeafM.Makes m o (storeStruct m srcs lane index addr) (structPlan srcs.length lane addr) := by
  apply LeafM.Makes.forEach
  intro r
  exact makes_storeLane m o (srcs.getD r 0) lane index _

/-- All lanes of the registers, `count` structures from `addr` on. -/
def storeStructs (m : AccessChecks) (srcs : List (BitVec 5)) (lane : Fin 4) (count : Nat)
    (addr : Addr) : LeafM Unit :=
  LeafM.forEach
    (fun i => storeStruct m srcs lane i
      (addr + BitVec.ofNat 64 (i * srcs.length * 2 ^ lane.val)))
    (List.range count)

def structsPlan (regs : Nat) (lane : Fin 4) (count : Nat) (addr : Addr) : List Access :=
  (List.range count).flatMap fun i =>
    structPlan regs lane (addr + BitVec.ofNat 64 (i * regs * 2 ^ lane.val))

theorem makes_storeStructs (m : AccessChecks) (o : Operands) (srcs : List (BitVec 5))
    (lane : Fin 4) (count : Nat) (addr : Addr) :
    LeafM.Makes m o (storeStructs m srcs lane count addr)
      (structsPlan srcs.length lane count addr) := by
  apply LeafM.Makes.forEach
  intro i
  exact makes_storeStruct m o srcs lane i _

/-! ## NEON multiple structures -/

namespace Word

def neonQ (w : Word) : Bool := w.getLsbD 30

def neonS (w : Word) : Bool := w.getLsbD 12

def neonLSSize (w : Word) : BitVec 2 := w.extractLsb 11 10

/-- The registers that a structure store names, from the first one on. -/
def structRegs (w : Word) (count : Nat) : List (BitVec 5) :=
  (List.range count).map fun i => w.getRt + BitVec.ofNat 5 i

def isPostIndex (w : Word) : Bool := w.getLsbD 23

/-- Without post-index the bits of the index register are zero. -/
def indexBitsOk (w : Word) : Bool := w.isPostIndex || w.getRm == 0

end Word

/-- What an instruction for multiple structures stores. -/
inductive MultiStruct where
  /-- ST1: each register on its own. -/
  | separate (regCount : Nat)
  /-- ST2, ST3 and ST4. -/
  | interleaved (regCount : Nat)
  deriving DecidableEq, Repr

def MultiStruct.regCount : MultiStruct → Nat
  | separate regCount => regCount
  | interleaved regCount => regCount

def neonMultiStructMask : Word := 0xbf60f000

/-- The store cases of `NEONLoadStoreMultiStructHelper`; the post-index bit is looked at apart. -/
def multiStruct? (w : Word) : Option MultiStruct :=
  match (w &&& neonMultiStructMask).toNat with
  | 0x0c002000 => some (.separate 4)
  | 0x0c006000 => some (.separate 3)
  | 0x0c00a000 => some (.separate 2)
  | 0x0c007000 => some (.separate 1)
  | 0x0c008000 => some (.interleaved 2)
  | 0x0c004000 => some (.interleaved 3)
  | 0x0c000000 => some (.interleaved 4)
  | _ => none

def neonLane (w : Word) : Fin 4 := ⟨w.neonLSSize.toNat, w.neonLSSize.isLt⟩

def neonRegBytes (w : Word) : Nat := if w.neonQ then 16 else 8

def neonLaneCount (w : Word) : Nat := neonRegBytes w / 2 ^ (neonLane w).val

/-- The write-back of a structure store; index register 31 stands for the size stored. -/
def structWriteBack (w : Word) (base : Addr) (size : Nat) : LeafM Unit :=
  LeafM.modify fun c =>
    writeBase c w.getRn
      (base + if w.getRm = 31 then BitVec.ofNat 64 size else c.readXRegister w.getRm)

theorem makes_structWriteBack (m : AccessChecks) (o : Operands) (w : Word) (base : Addr)
    (size : Nat) : LeafM.Makes m o (structWriteBack w base size) [] := by
  apply LeafM.Makes.modify
  · intro c
    rfl
  · intro c
    rfl

/-- The stores of an instruction for multiple structures; ST1 starts with its last register. -/
def storeMulti (m : AccessChecks) (s : MultiStruct) (w : Word) (base : Addr) : LeafM Unit :=
  match s with
  | .separate regCount =>
      LeafM.forEach
        (fun i => storeStructs m [w.getRt + BitVec.ofNat 5 i] (neonLane w) (neonLaneCount w)
          (base + BitVec.ofNat 64 (i * neonRegBytes w)))
        (List.range regCount).reverse
  | .interleaved regCount =>
      storeStructs m (w.structRegs regCount) (neonLane w) (neonLaneCount w) base

def multiPlan (s : MultiStruct) (w : Word) (base : Addr) : List Access :=
  match s with
  | .separate regCount =>
      (List.range regCount).reverse.flatMap fun i =>
        structsPlan 1 (neonLane w) (neonLaneCount w)
          (base + BitVec.ofNat 64 (i * neonRegBytes w))
  | .interleaved regCount => structsPlan regCount (neonLane w) (neonLaneCount w) base

theorem makes_storeMulti (m : AccessChecks) (o : Operands) (s : MultiStruct) (w : Word)
    (base : Addr) : LeafM.Makes m o (storeMulti m s w base) (multiPlan s w base) := by
  cases s with
  | separate regCount =>
      apply LeafM.Makes.forEach
      intro i
      exact makes_storeStructs m o [w.getRt + BitVec.ofNat 5 i] _ _ _
  | interleaved regCount =>
      have h := makes_storeStructs m o (w.structRegs regCount) (neonLane w) (neonLaneCount w)
        base
      rwa [Word.structRegs, List.length_map, List.length_range] at h

def neonLoadStoreMultiStructHelper (m : AccessChecks) (s : MultiStruct) (mode : AddrMode)
    (w : Word) : LeafM Unit := do
  let c ← LeafM.get
  let base := readBase c w.getRn
  LeafM.check (!m.vixlDebug || w.indexBitsOk) Abort.unreachable.message
  storeMulti m s w base
  LeafM.onlyIf (mode == .postIndex)
    (structWriteBack w base (neonRegBytes w * s.regCount))

def multiStructStores (m : AccessChecks) (s : MultiStruct) (w : Word) (c : Core) : List Addr :=
  if !m.vixlDebug || w.indexBitsOk then
    stored m c.mteTags (multiPlan s w (readBase c w.getRn))
  else []

theorem onlyIf_nothing {m : AccessChecks} {o : Operands} {x : LeafM Unit} (b : Bool)
    (hx : LeafM.Makes m o x []) : LeafM.Makes m o (LeafM.onlyIf b x) [] := by
  have h := LeafM.Makes.onlyIf (b := b) fun _ => hx
  rwa [ite_self] at h

theorem neonLoadStoreMultiStructHelper_stores (m : AccessChecks) (s : MultiStruct)
    (mode : AddrMode) (w : Word) (c : Core) :
    StoresAt (multiStructStores m s w c) c.memory
      ((neonLoadStoreMultiStructHelper m s mode w).run c) := by
  simp only [multiStructStores, LeafM.run, neonLoadStoreMultiStructHelper, LeafM.bind_apply,
    LeafM.get_apply]
  apply LeafM.check_stores
  intro _
  have hstores := makes_storeMulti m c.operands s w (readBase c w.getRn)
  have hback := onlyIf_nothing (mode == .postIndex)
    (makes_structWriteBack m c.operands w (readBase c w.getRn)
      (neonRegBytes w * s.regCount))
  have hmakes := hstores.append hback
  rw [List.append_nil] at hmakes
  exact hmakes.finish

/-! ## NEON single structures -/

def neonSingleStructMask : Word := 0xbf40c000

/-- The lane that a store of single structures names, if the word is one. -/
def singleStructLane? (w : Word) : Option (Fin 4) :=
  match (w &&& neonSingleStructMask).toNat with
  | 0x0d000000 => some 0
  | 0x0d004000 => some 1
  | 0x0d008000 => some (if w.neonLSSize.getLsbD 0 then 3 else 2)
  | _ => none

def singleStructRegCount (w : Word) : Nat :=
  1 + (if w.getLsbD 21 then 1 else 0) + (if w.getLsbD 13 then 2 else 0)

def getNEONLSIndex (w : Word) (shift : Nat) : Nat :=
  ((if w.neonQ then 8 else 0) + (if w.neonS then 4 else 0) + w.neonLSSize.toNat) >>> shift

def neonLoadStoreSingleStructHelper (m : AccessChecks) (lane : Fin 4) (mode : AddrMode)
    (w : Word) : LeafM Unit := do
  let c ← LeafM.get
  let addr := readBase c w.getRn
  LeafM.check (!m.vixlDebug || w.indexBitsOk) Abort.unreachable.message
  storeStruct m (w.structRegs (singleStructRegCount w)) lane (getNEONLSIndex w lane.val) addr
  LeafM.onlyIf (mode == .postIndex)
    (structWriteBack w addr (singleStructRegCount w * 2 ^ lane.val))

def singleStructStores (m : AccessChecks) (lane : Fin 4) (w : Word) (c : Core) : List Addr :=
  if !m.vixlDebug || w.indexBitsOk then
    stored m c.mteTags (structPlan (singleStructRegCount w) lane (readBase c w.getRn))
  else []

theorem neonLoadStoreSingleStructHelper_stores (m : AccessChecks) (lane : Fin 4)
    (mode : AddrMode) (w : Word) (c : Core) :
    StoresAt (singleStructStores m lane w c) c.memory
      ((neonLoadStoreSingleStructHelper m lane mode w).run c) := by
  simp only [singleStructStores, LeafM.run, neonLoadStoreSingleStructHelper, LeafM.bind_apply,
    LeafM.get_apply]
  apply LeafM.check_stores
  intro _
  have hstores := makes_storeStruct m c.operands (w.structRegs (singleStructRegCount w)) lane
    (getNEONLSIndex w lane.val) (readBase c w.getRn)
  rw [Word.structRegs, List.length_map, List.length_range] at hstores
  have hback := onlyIf_nothing (mode == .postIndex)
    (makes_structWriteBack m c.operands w (readBase c w.getRn)
      (singleStructRegCount w * 2 ^ lane.val))
  have hmakes := hstores.append hback
  rw [List.append_nil] at hmakes
  exact hmakes.finish

/-! ## SVE addresses -/

inductive SVEOffsetModifier where
  | NO_SVE_OFFSET_MODIFIER
  | SVE_MUL_VL
  | SVE_LSL
  | SVE_UXTW
  | SVE_SXTW
  deriving DecidableEq, Repr

/-- The vector of offsets of a scatter store. -/
structure SVEOffsets where
  vector : BitVec 5
  /-- Double words, or words. -/
  formVnD : Bool
  mod : SVEOffsetModifier
  shift : Nat
  deriving DecidableEq, Repr

/-- Where the elements of a structured access are; without offsets they are contiguous. -/
structure LogicSVEAddressVector where
  base : Addr
  msizeLog2 : Fin 4
  /-- One to four registers. -/
  regCountLessOne : Fin 4
  offsets : Option SVEOffsets
  deriving DecidableEq, Repr

namespace LogicSVEAddressVector

def regCount (a : LogicSVEAddressVector) : Nat := a.regCountLessOne.val + 1

def msizeInBytes (a : LogicSVEAddressVector) : Nat := 2 ^ a.msizeLog2.val

/-- The modified offset of a lane, as the vector register holds it now. -/
def offset (s : SVEOffsets) (vregisters : Fin 32 → SimVRegister) (lane : Nat) : Addr :=
  let vector := (vregisters s.vector.toFin).value
  let raw : Addr :=
    if s.formVnD then vector.extractLsb' (64 * lane) 64
    else (vector.extractLsb' (32 * lane) 32).setWidth 64
  match s.mod with
  | .SVE_UXTW => (raw.setWidth 32).setWidth 64
  | .SVE_SXTW => (raw.setWidth 32).signExtend 64
  | _ => raw

def getStructAddress (a : LogicSVEAddressVector) (vregisters : Fin 32 → SimVRegister)
    (lane : Nat) : Addr :=
  match a.offsets with
  | none => a.base + BitVec.ofNat 64 (lane * a.regCount * a.msizeInBytes)
  | some s => a.base + offset s vregisters lane <<< s.shift

def getElementAddress (a : LogicSVEAddressVector) (vregisters : Fin 32 → SimVRegister)
    (lane reg : Nat) : Addr :=
  a.getStructAddress vregisters lane + BitVec.ofNat 64 (reg * a.msizeInBytes)

end LogicSVEAddressVector

/-! ## SVE structured stores -/

/-- The arguments of `SVEStructuredStoreHelper`: lanes are at least as wide as their storage. -/
structure SVEStore where
  esizeLog2 : Fin 4
  pg : Fin 16
  zt : BitVec 5
  addr : LogicSVEAddressVector
  msize_le : addr.msizeLog2 ≤ esizeLog2

namespace SVEStore

def unpackShift (s : SVEStore) : Nat := s.esizeLog2.val - s.addr.msizeLog2.val

/-- `LogicPRegister::IsActive`. -/
def isActive (s : SVEStore) (pregisters : Fin 16 → BitVec 256) (lane : Nat) : Bool :=
  (pregisters s.pg).getLsbD (lane * 2 ^ s.esizeLog2.val)

def laneCount (s : SVEStore) (vectorLength : Nat) : Nat :=
  vectorLength / (8 * 2 ^ s.esizeLog2.val)

def storeElement (m : AccessChecks) (s : SVEStore) (lane reg : Nat) : LeafM Unit := do
  let c ← LeafM.get
  storeLane m (s.zt + BitVec.ofNat 5 reg) s.addr.msizeLog2 (lane <<< s.unpackShift)
    (s.addr.getElementAddress c.vregisters lane reg)

/-- The stores of one lane; an inactive lane has none. -/
def storeActive (m : AccessChecks) (s : SVEStore) (lane : Nat) : LeafM Unit := do
  let c ← LeafM.get
  LeafM.onlyIf (s.isActive c.pregisters lane)
    (LeafM.forEach (storeElement m s lane) (List.range s.addr.regCount))

def lanePlan (s : SVEStore) (o : Operands) (lane : Nat) : List Access :=
  if s.isActive o.pregisters lane then
    (List.range s.addr.regCount).flatMap fun reg =>
      [.write (s.addr.getElementAddress o.vregisters lane reg) s.addr.msizeInBytes]
  else []

theorem makes_storeElement (m : AccessChecks) (o : Operands) (s : SVEStore) (lane reg : Nat) :
    LeafM.Makes m o (storeElement m s lane reg)
      [.write (s.addr.getElementAddress o.vregisters lane reg) s.addr.msizeInBytes] := by
  apply LeafM.Makes.ofGet
  intro c hc
  subst hc
  exact makes_storeLane m _ (s.zt + BitVec.ofNat 5 reg) s.addr.msizeLog2 _ _

theorem makes_storeActive (m : AccessChecks) (o : Operands) (s : SVEStore) (lane : Nat) :
    LeafM.Makes m o (storeActive m s lane) (s.lanePlan o lane) := by
  apply LeafM.Makes.ofGet
  intro c hc
  subst hc
  apply LeafM.Makes.onlyIf
  intro _
  exact .forEach (makes_storeElement m c.operands s lane) (List.range s.addr.regCount)

end SVEStore

def sveStructuredStoreHelper (m : AccessChecks) (s : SVEStore) : LeafM Unit := do
  let c ← LeafM.get
  LeafM.forEach (s.storeActive m) (List.range (s.laneCount c.vectorLength))

def sveStructuredStores (m : AccessChecks) (s : SVEStore) (c : Core) : List Addr :=
  stored m c.mteTags ((List.range (s.laneCount c.vectorLength)).flatMap (s.lanePlan c.operands))

theorem sveStructuredStoreHelper_stores (m : AccessChecks) (s : SVEStore) (c : Core) :
    StoresAt (sveStructuredStores m s c) c.memory ((sveStructuredStoreHelper m s).run c) :=
  (LeafM.Makes.forEach (s.makes_storeActive m c.operands)
    (List.range (s.laneCount c.vectorLength))).finish

/-! ## Whole Z and P registers -/

/-- The signed offset of STR (vector) and STR (predicate), in registers. -/
def Word.imm9 (w : Word) : Addr :=
  ((w.extractLsb 21 16 : BitVec 6) ++ (w.extractLsb 12 10 : BitVec 3)).signExtend 64

/-- The byte loop of both instructions; the register is read again for each byte. -/
def storeRegisterBytes (m : AccessChecks) (byte : Core → Nat → BitVec 8) (count : Nat)
    (address : Addr) : LeafM Unit :=
  LeafM.forEach (fun i => do
      let c ← LeafM.get
      LeafM.memWrite m 1 (address + BitVec.ofNat 64 i) (byte c i))
    (List.range count)

def bytesPlan (count : Nat) (address : Addr) : List Access :=
  (List.range count).flatMap fun i => [.write (address + BitVec.ofNat 64 i) 1]

theorem makes_storeRegisterBytes (m : AccessChecks) (o : Operands)
    (byte : Core → Nat → BitVec 8) (count : Nat) (address : Addr) :
    LeafM.Makes m o (storeRegisterBytes m byte count address) (bytesPlan count address) := by
  apply LeafM.Makes.forEach
  intro i
  apply LeafM.Makes.ofGet
  intro c _
  exact @LeafM.Makes.memWrite m o 1 (by decide) (address + BitVec.ofNat 64 i) (byte c i)

inductive WholeRegister where
  | STR_z_bi
  | STR_p_bi
  deriving DecidableEq, Repr

namespace WholeRegister

def lengthInBytes (r : WholeRegister) (c : Core) : Nat :=
  match r with
  | STR_z_bi => c.vectorLength / 8
  | STR_p_bi => c.vectorLength / 8 / 8

def byte (r : WholeRegister) (w : Word) (c : Core) (i : Nat) : BitVec 8 :=
  match r with
  | STR_z_bi => (c.vregisters w.getRt.toFin).value.extractLsb' (8 * i) 8
  | STR_p_bi => (c.pregisters (w.extractLsb 3 0).toFin).extractLsb' (8 * i) 8

def address (r : WholeRegister) (w : Word) (c : Core) : Addr :=
  readBase c w.getRn + w.imm9 * BitVec.ofNat 64 (r.lengthInBytes c)

end WholeRegister

def visitSVEStoreRegister (m : AccessChecks) (r : WholeRegister) (w : Word) : LeafM Unit := do
  let c ← LeafM.get
  storeRegisterBytes m (r.byte w) (r.lengthInBytes c) (r.address w c)

def wholeRegisterStores (m : AccessChecks) (r : WholeRegister) (w : Word) (c : Core) :
    List Addr :=
  stored m c.mteTags (bytesPlan (r.lengthInBytes c) (r.address w c))

theorem visitSVEStoreRegister_stores (m : AccessChecks) (r : WholeRegister) (w : Word)
    (c : Core) :
    StoresAt (wholeRegisterStores m r w c) c.memory ((visitSVEStoreRegister m r w).run c) :=
  (makes_storeRegisterBytes m c.operands (r.byte w) (r.lengthInBytes c)
    (r.address w c)).finish

end GabyVm.Aarch64
