import GabyVm.Aarch64.LeafMonad

/-!
# Stores of transfer registers

The store cases of the helpers behind the single, pair, release, exclusive and
atomic instructions.  Beside each helper stands the list of the addresses it
stores to, computed from the state before the instruction.
-/

namespace GabyVm.Aarch64

/-! ## Fields -/

namespace Word

def getRt2 (w : Word) : BitVec 5 := w.extractLsb 14 10

def getRm (w : Word) : BitVec 5 := w.extractLsb 20 16

def getImmLS (w : Word) : Addr := (w.extractLsb 20 12).signExtend 64

def getImmLSUnsigned (w : Word) : Addr := (w.extractLsb 21 10).setWidth 64

def getImmLSPair (w : Word) : Addr := (w.extractLsb 21 15).signExtend 64

def getImmShiftLS (w : Word) : Nat := (w.extractLsb 12 12).toNat

def getExtendMode (w : Word) : BitVec 3 := w.extractLsb 15 13

/-- The two size bits that load and store words share. -/
def getSizeBits (w : Word) : Nat := (w.extractLsb 31 30).toNat

end Word

/-! ## Registers and addresses -/

/-- A transfer register read as a value of `size` bytes. -/
def Core.readRegister (c : Core) (size : Nat) (code : BitVec 5) : BitVec (8 * size) :=
  (c.readXRegister code).setWidth (8 * size)

/-- The low bytes of a vector register. -/
def Core.readVRegister (c : Core) (size : Nat) (code : BitVec 5) : BitVec (8 * size) :=
  (c.vregisters code.toFin).value.setWidth (8 * size)

/-- A write of a base register; register 31 is the stack pointer. -/
def writeBase (c : Core) (rn : BitVec 5) (value : Addr) : Core :=
  c.writeRegister rn.toFin value

def alignDown (a : Addr) (alignment : Addr) : Addr := a &&& ~~~(alignment - 1)

def alignmentException : String := "ALIGNMENT EXCEPTION\t"

inductive AddrMode where
  | offset
  | preIndex
  | postIndex
  deriving DecidableEq, Repr

def addressMode (c : Core) (rn : BitVec 5) (offset : Addr) (mode : AddrMode) : Addr :=
  if mode = .postIndex then readBase c rn else readBase c rn + offset

/-- The stack pointer is aligned when it is the base. -/
def spAligned (rn : BitVec 5) (address : Addr) : Bool := rn != 31 || address &&& 15 == 0

/-- A write-back has an offset; only a build with assertions looks. -/
def offsetOk (m : AccessChecks) (offset : Addr) (mode : AddrMode) : Bool :=
  mode == .offset || !m.vixlDebug || offset != 0

def addressModeOk (m : AccessChecks) (c : Core) (rn : BitVec 5) (offset : Addr)
    (mode : AddrMode) : Bool :=
  spAligned rn (readBase c rn) && offsetOk m offset mode

def addressModeHelper (m : AccessChecks) (rn : BitVec 5) (offset : Addr) (mode : AddrMode) :
    LeafM Addr := do
  let c ← LeafM.get
  LeafM.check (spAligned rn (readBase c rn)) alignmentException
  LeafM.check (offsetOk m offset mode) "Assertion failed (offset != 0)"
  LeafM.onlyIf (mode != .offset)
    (LeafM.modify fun c' => writeBase c' rn (readBase c rn + offset))
  pure (addressMode c rn offset mode)

theorem ite_and_nil {p q : Bool} (as : List Addr) :
    (if p && q then as else []) = if p then (if q then as else []) else [] := by
  cases p <;> rfl

theorem mteTags_congr {c c' : Core} (h : c'.operands = c.operands) : c'.mteTags = c.mteTags :=
  congrArg Operands.mteTags h

theorem addressModeHelper_stores {m : AccessChecks} {rn : BitVec 5} {offset : Addr}
    {mode : AddrMode} {c : Core} {as : List Addr} {k : Addr → Core → LeafProg}
    (hnext : ∀ c' : Core, c'.memory = c.memory → c'.operands = c.operands →
      StoresAt as c.memory (k (addressMode c rn offset mode) c')) :
    StoresAt (if addressModeOk m c rn offset mode then as else []) c.memory
      (addressModeHelper m rn offset mode c k) := by
  rw [addressModeOk, ite_and_nil]
  simp only [addressModeHelper, LeafM.bind_apply, LeafM.get_apply]
  apply LeafM.check_stores
  intro _
  apply LeafM.check_stores
  intro _
  cases mode with
  | offset => exact hnext c rfl rfl
  | preIndex => exact hnext (writeBase c rn (readBase c rn + offset)) rfl rfl
  | postIndex => exact hnext (writeBase c rn (readBase c rn + offset)) rfl rfl

/-! ## The local monitor -/

/-- The generator behind both monitors. -/
def nextSeed (seed : BitVec 32) : BitVec 32 :=
  BitVec.ofNat 32 ((seed * 48271).toNat % 2147483647)

def clearLocalMonitor (c : Core) : Core :=
  { c with localMonitor := { c.localMonitor with address := 0, size := 0 } }

/-- Clear the local monitor most of the time. -/
def maybeClearLocalMonitor (c : Core) : Core :=
  let cleared := if c.localMonitor.seed.toNat % 8 != 0 then clearLocalMonitor c else c
  { cleared with
    localMonitor := { cleared.localMonitor with seed := nextSeed c.localMonitor.seed } }

theorem maybeClearLocalMonitor_frame (c : Core) :
    ∃ monitor, maybeClearLocalMonitor c = { c with localMonitor := monitor } := by
  unfold maybeClearLocalMonitor
  split_ifs
  · exact ⟨_, rfl⟩
  · exact ⟨_, rfl⟩

theorem makes_maybeClear (m : AccessChecks) (o : Operands) :
    LeafM.Makes m o (LeafM.modify maybeClearLocalMonitor) [] := by
  apply LeafM.Makes.modify
  · intro c
    obtain ⟨_, h⟩ := maybeClearLocalMonitor_frame c
    rw [h]
  · intro c
    obtain ⟨_, h⟩ := maybeClearLocalMonitor_frame c
    rw [h]
    rfl

theorem makes_writeTransfer (m : AccessChecks) (o : Operands) (rt : BitVec 5)
    (value : BitVec 64) :
    LeafM.Makes m o (LeafM.modify fun c => writeTransfer c rt value) [] := by
  apply LeafM.Makes.modify
  · intro c
    unfold writeTransfer
    split_ifs <;> rfl
  · intro c
    unfold writeTransfer
    split_ifs <;> rfl

/-! ## Single stores -/

inductive StoreOp where
  | STRB_w
  | STRH_w
  | STR_w
  | STR_x
  | STR_b
  | STR_h
  | STR_s
  | STR_d
  | STR_q
  deriving DecidableEq, Repr

namespace StoreOp

def size : StoreOp → Nat
  | STRB_w => 1
  | STRH_w => 2
  | STR_w => 4
  | STR_x => 8
  | STR_b => 1
  | STR_h => 2
  | STR_s => 4
  | STR_d => 8
  | STR_q => 16

def isVector : StoreOp → Bool
  | STRB_w => false
  | STRH_w => false
  | STR_w => false
  | STR_x => false
  | _ => true

def value (op : StoreOp) (c : Core) (rt : BitVec 5) : BitVec (8 * op.size) :=
  if op.isVector then c.readVRegister op.size rt else c.readRegister op.size rt

theorem size_mem (op : StoreOp) : op.size ∈ [1, 2, 4, 8, 16] := by
  cases op <;> decide

end StoreOp

def loadStoreMask : Word := 0xc4c00000

def storeOp? (w : Word) : Option StoreOp :=
  match (w &&& loadStoreMask).toNat with
  | 0x00000000 => some .STRB_w
  | 0x40000000 => some .STRH_w
  | 0x80000000 => some .STR_w
  | 0xc0000000 => some .STR_x
  | 0x04000000 => some .STR_b
  | 0x44000000 => some .STR_h
  | 0x84000000 => some .STR_s
  | 0xc4000000 => some .STR_d
  | 0x04800000 => some .STR_q
  | _ => none

/-- `CalcLSDataSize`. -/
def getSizeLS (w : Word) : Nat :=
  if w.getLsbD 26 && w.getSizeBits == 0 && w.getLsbD 23 then 4 else w.getSizeBits

/-- `ExtendValue` of a 64-bit register. -/
def extendValue (value : Addr) (extend : BitVec 3) (shift : Nat) : Addr :=
  let extended : Addr :=
    match extend.toNat with
    | 0 => (value.setWidth 8).setWidth 64
    | 1 => (value.setWidth 16).setWidth 64
    | 2 => (value.setWidth 32).setWidth 64
    | 4 => (value.setWidth 8).signExtend 64
    | 5 => (value.setWidth 16).signExtend 64
    | 6 => (value.setWidth 32).signExtend 64
    | _ => value
  extended <<< shift

/-- The visitors that call `LoadStoreHelper`. -/
inductive LoadStoreVisitor where
  | visitLoadStoreUnsignedOffset
  | visitLoadStoreUnscaledOffset
  | visitLoadStorePreIndex
  | visitLoadStorePostIndex
  | visitLoadStoreRegisterOffset
  deriving DecidableEq, Repr

namespace LoadStoreVisitor

def offset (v : LoadStoreVisitor) (w : Word) (c : Core) : Addr :=
  match v with
  | visitLoadStoreUnsignedOffset => w.getImmLSUnsigned <<< getSizeLS w
  | visitLoadStoreRegisterOffset =>
      extendValue (c.readXRegister w.getRm) w.getExtendMode (w.getImmShiftLS * getSizeLS w)
  | _ => w.getImmLS

def mode : LoadStoreVisitor → AddrMode
  | visitLoadStorePreIndex => .preIndex
  | visitLoadStorePostIndex => .postIndex
  | _ => .offset

end LoadStoreVisitor

def storeRegister (m : AccessChecks) (op : StoreOp) (address : Addr) (rt : BitVec 5) :
    LeafM Unit := do
  let c ← LeafM.get
  LeafM.memWrite m op.size address (op.value c rt)

theorem makes_storeRegister (m : AccessChecks) (o : Operands) (op : StoreOp) (address : Addr)
    (rt : BitVec 5) :
    LeafM.Makes m o (storeRegister m op address rt) [.write address op.size] := by
  apply LeafM.Makes.ofGet
  intro c _
  exact .memWrite op.size_mem address (op.value c rt)

def loadStoreHelper (m : AccessChecks) (op : StoreOp) (w : Word) (offset : Addr)
    (mode : AddrMode) : LeafM Unit := do
  let address ← addressModeHelper m w.getRn offset mode
  storeRegister m op address w.getRt
  LeafM.modify maybeClearLocalMonitor

def loadStoreStores (m : AccessChecks) (op : StoreOp) (w : Word) (offset : Addr)
    (mode : AddrMode) (c : Core) : List Addr :=
  if addressModeOk m c w.getRn offset mode then
    stored m c.mteTags [.write (addressMode c w.getRn offset mode) op.size]
  else []

theorem loadStoreHelper_stores (m : AccessChecks) (op : StoreOp) (w : Word) (offset : Addr)
    (mode : AddrMode) (c : Core) :
    StoresAt (loadStoreStores m op w offset mode c) c.memory
      ((loadStoreHelper m op w offset mode).run c) := by
  apply addressModeHelper_stores
  intro c' hmem hoperands
  rw [← hmem, ← mteTags_congr hoperands]
  have hstore := makes_storeRegister m c'.operands op (addressMode c w.getRn offset mode)
    w.getRt
  exact (hstore.append (makes_maybeClear m c'.operands)).finish

/-! ## Pairs -/

def loadStorePairMask : Word := 0xc4400000

/-- The store of one element of a pair, if the word stores a pair. -/
def storePairOp? (w : Word) : Option StoreOp :=
  match (w &&& loadStorePairMask).toNat with
  | 0x00000000 => some .STR_w
  | 0x04000000 => some .STR_s
  | 0x80000000 => some .STR_x
  | 0x44000000 => some .STR_d
  | 0x84000000 => some .STR_q
  | _ => none

def loadStorePairHelper (m : AccessChecks) (op : StoreOp) (w : Word) (mode : AddrMode) :
    LeafM Unit := do
  let elementSize := BitVec.ofNat 64 op.size
  let address ← addressModeHelper m w.getRn (w.getImmLSPair * elementSize) mode
  storeRegister m op address w.getRt
  storeRegister m op (address + elementSize) w.getRt2
  LeafM.modify maybeClearLocalMonitor

def loadStorePairStores (m : AccessChecks) (op : StoreOp) (w : Word) (mode : AddrMode)
    (c : Core) : List Addr :=
  let elementSize := BitVec.ofNat 64 op.size
  let offset := w.getImmLSPair * elementSize
  let address := addressMode c w.getRn offset mode
  if addressModeOk m c w.getRn offset mode then
    stored m c.mteTags [.write address op.size, .write (address + elementSize) op.size]
  else []

theorem loadStorePairHelper_stores (m : AccessChecks) (op : StoreOp) (w : Word)
    (mode : AddrMode) (c : Core) :
    StoresAt (loadStorePairStores m op w mode c) c.memory
      ((loadStorePairHelper m op w mode).run c) := by
  apply addressModeHelper_stores
  intro c' hmem hoperands
  rw [← hmem, ← mteTags_congr hoperands]
  have hfirst := makes_storeRegister m c'.operands op
    (addressMode c w.getRn (w.getImmLSPair * BitVec.ofNat 64 op.size) mode) w.getRt
  have hsecond := makes_storeRegister m c'.operands op
    (addressMode c w.getRn (w.getImmLSPair * BitVec.ofNat 64 op.size) mode +
      BitVec.ofNat 64 op.size) w.getRt2
  exact (hfirst.append (hsecond.append (makes_maybeClear m c'.operands))).finish

/-! ## Store release -/

def loadStoreRCpcUnscaledOffsetMask : Word := 0xffe00c00

def storeReleaseOp? (w : Word) : Option StoreOp :=
  match (w &&& loadStoreRCpcUnscaledOffsetMask).toNat with
  | 0x19000000 => some .STRB_w
  | 0x59000000 => some .STRH_w
  | 0x99000000 => some .STR_w
  | 0xd9000000 => some .STR_x
  | _ => none

/-- The access lies within an aligned block of 16 bytes. -/
def withinQuadword (address : Addr) (size : Nat) : Bool :=
  alignDown address 16 == alignDown (address + BitVec.ofNat 64 size - 1) 16

def storeReleaseUnscaledOffsetHelper (m : AccessChecks) (op : StoreOp) (w : Word) :
    LeafM Unit := do
  let c ← LeafM.get
  let address := readBase c w.getRn + w.getImmLS
  LeafM.check (withinQuadword address op.size) alignmentException
  storeRegister m op address w.getRt

def storeReleaseStores (m : AccessChecks) (op : StoreOp) (w : Word) (c : Core) : List Addr :=
  let address := readBase c w.getRn + w.getImmLS
  if withinQuadword address op.size then stored m c.mteTags [.write address op.size] else []

theorem storeReleaseUnscaledOffsetHelper_stores (m : AccessChecks) (op : StoreOp) (w : Word)
    (c : Core) :
    StoresAt (storeReleaseStores m op w c) c.memory
      ((storeReleaseUnscaledOffsetHelper m op w).run c) := by
  simp only [storeReleaseStores, LeafM.run, storeReleaseUnscaledOffsetHelper,
    LeafM.bind_apply, LeafM.get_apply]
  apply LeafM.check_stores
  intro _
  have hstore := makes_storeRegister m c.operands op (readBase c w.getRn + w.getImmLS) w.getRt
  exact hstore.finish

end GabyVm.Aarch64
