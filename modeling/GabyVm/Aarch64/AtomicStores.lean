import GabyVm.Aarch64.ScalarStores

/-!
# Exclusive stores, compare and swap, read-modify-write

Whether these instructions store at all depends on the monitors or on what they
load.  An exclusive store that fails and a comparison that does not match make
no store.
-/

namespace GabyVm.Aarch64

/-! ## Where an atomic access may be -/

def kUSCAT : CPUFeatures := 1 <<< 45

/-- `CheckIsValidUnalignedAtomicAccess` passes. -/
def isValidUnalignedAtomicAccess (c : Core) (rn : BitVec 5) (address : Addr)
    (accessSize : Nat) : Bool :=
  (if c.cpuFeatures.has kUSCAT then withinQuadword address accessSize
    else alignDown address (BitVec.ofNat 64 accessSize) == address) &&
    (rn != 31 || alignDown address 16 == address)

/-! ## Exclusive and ordered stores -/

/-- `local_monitor_.IsExclusive` and `global_monitor_.IsExclusive`, the second only if needed. -/
def isExclusive (c : Core) (address : Addr) (size : Nat) : Bool :=
  size == c.localMonitor.size && address == c.localMonitor.address &&
    c.globalMonitorSeed.toNat % 8 != 0

def askMonitors (c : Core) (address : Addr) (size : Nat) : Core :=
  if size == c.localMonitor.size && address == c.localMonitor.address then
    { c with globalMonitorSeed := nextSeed c.globalMonitorSeed }
  else c

def Word.isExclusive (w : Word) : Bool := !w.getLsbD 23

def Word.isPair (w : Word) : Bool := w.getLsbD 21

/-- The general register store of `1 << n` bytes. -/
def storeOpOfSize (n : Nat) : StoreOp :=
  match n with
  | 0 => .STRB_w
  | 1 => .STRH_w
  | 2 => .STR_w
  | _ => .STR_x

def exclusiveAccessSize (w : Word) : Nat :=
  let elementSize := (storeOpOfSize w.getSizeBits).size
  if w.isPair then 2 * elementSize else elementSize

/-- The monitors before the store; an exclusive store also reports to `rs`. -/
def settleMonitors (w : Word) (address : Addr) (c : Core) : Core :=
  if w.isExclusive then
    let doStore := isExclusive c address (exclusiveAccessSize w)
    clearLocalMonitor
      (writeTransfer (askMonitors c address (exclusiveAccessSize w)) w.getRs
        (if doStore then 0 else 1))
  else maybeClearLocalMonitor c

/-- The stores of `VisitLoadStoreExclusive` other than the compare-and-swap ones. -/
def storeExclusive (m : AccessChecks) (w : Word) : LeafM Unit := do
  let c ← LeafM.get
  let op := storeOpOfSize w.getSizeBits
  let address := readBase c w.getRn
  LeafM.check (isValidUnalignedAtomicAccess c w.getRn address (exclusiveAccessSize w))
    alignmentException
  LeafM.modify (settleMonitors w address)
  LeafM.onlyIf (!w.isExclusive || isExclusive c address (exclusiveAccessSize w)) do
    storeRegister m op address w.getRt
    LeafM.onlyIf w.isPair (storeRegister m op (address + BitVec.ofNat 64 op.size) w.getRt2)

def storeExclusiveStores (m : AccessChecks) (w : Word) (c : Core) : List Addr :=
  let op := storeOpOfSize w.getSizeBits
  let address := readBase c w.getRn
  if isValidUnalignedAtomicAccess c w.getRn address (exclusiveAccessSize w) then
    stored m c.mteTags
      (if !w.isExclusive || isExclusive c address (exclusiveAccessSize w) then
        .write address op.size ::
          if w.isPair then [.write (address + BitVec.ofNat 64 op.size) op.size] else []
      else [])
  else []

theorem settleMonitors_frame (w : Word) (address : Addr) (c : Core) :
    (settleMonitors w address c).memory = c.memory ∧
      (settleMonitors w address c).operands = c.operands := by
  unfold settleMonitors
  split_ifs
  · unfold writeTransfer askMonitors
    split_ifs <;> exact ⟨rfl, rfl⟩
  · obtain ⟨_, h⟩ := maybeClearLocalMonitor_frame c
    rw [h]
    exact ⟨rfl, rfl⟩

theorem storeExclusive_stores (m : AccessChecks) (w : Word) (c : Core) :
    StoresAt (storeExclusiveStores m w c) c.memory ((storeExclusive m w).run c) := by
  simp only [storeExclusiveStores, LeafM.run, storeExclusive, LeafM.bind_apply,
    LeafM.get_apply]
  apply LeafM.check_stores
  intro _
  simp only [LeafM.modify_apply]
  obtain ⟨hmem, hoperands⟩ := settleMonitors_frame w (readBase c w.getRn) c
  rw [← hmem, ← mteTags_congr hoperands]
  have hfirst (o : Operands) := makes_storeRegister m o (storeOpOfSize w.getSizeBits)
    (readBase c w.getRn) w.getRt
  have hsecond (o : Operands) := makes_storeRegister m o (storeOpOfSize w.getSizeBits)
    (readBase c w.getRn + BitVec.ofNat 64 (storeOpOfSize w.getSizeBits).size) w.getRt2
  exact (LeafM.Makes.onlyIf fun _ =>
    (hfirst _).append (LeafM.Makes.onlyIf fun _ => hsecond _)).finish

/-! ## Compare and swap -/

/-- A write of a loaded value to a transfer register. -/
def writeLoaded {n : Nat} (rt : BitVec 5) (data : BitVec n) : LeafM Unit :=
  LeafM.modify fun c => writeTransfer c rt (data.setWidth 64)

theorem makes_writeLoaded {n : Nat} (m : AccessChecks) (o : Operands) (rt : BitVec 5)
    (data : BitVec n) : LeafM.Makes m o (writeLoaded rt data) [] :=
  makes_writeTransfer m o rt (data.setWidth 64)

def compareAndSwapHelper (m : AccessChecks) (size : Nat) (w : Word) : LeafM Unit := do
  let c ← LeafM.get
  let address := readBase c w.getRn
  LeafM.check (isValidUnalignedAtomicAccess c w.getRn address size) alignmentException
  let comparevalue := c.readRegister size w.getRs
  let newvalue := c.readRegister size w.getRt
  LeafM.modify clearLocalMonitor
  let data ← LeafM.memRead m size address
  LeafM.onlyIf (data == comparevalue) (LeafM.memWrite m size address newvalue)
  writeLoaded w.getRs data

def compareAndSwapStores (m : AccessChecks) (size : Nat) (w : Word) (c : Core) : List Addr :=
  let address := readBase c w.getRn
  let data := LeafM.readBytes c.memory (addressUntag address) size
  if isValidUnalignedAtomicAccess c w.getRn address size then
    stored m c.mteTags (.read address size ::
      if data == c.readRegister size w.getRs then [.write address size] else [])
  else []

theorem compareAndSwapHelper_stores (m : AccessChecks) {size : Nat}
    (hsize : size ∈ [1, 2, 4, 8, 16]) (w : Word) (c : Core) :
    StoresAt (compareAndSwapStores m size w c) c.memory
      ((compareAndSwapHelper m size w).run c) := by
  simp only [compareAndSwapStores, LeafM.run, compareAndSwapHelper, LeafM.bind_apply,
    LeafM.get_apply, LeafM.modify_apply]
  apply LeafM.check_stores
  intro _
  apply LeafM.memRead_stores (c := clearLocalMonitor c)
  have hwrite := LeafM.Makes.onlyIf
    (b := LeafM.readBytes c.memory (addressUntag (readBase c w.getRn)) size ==
      c.readRegister size w.getRs) fun _ =>
    @LeafM.Makes.memWrite m c.operands size hsize (readBase c w.getRn)
      (c.readRegister size w.getRt)
  have hmakes := hwrite.append (makes_writeLoaded m c.operands w.getRs
    (LeafM.readBytes c.memory (addressUntag (readBase c w.getRn)) size))
  rw [List.append_nil] at hmakes
  exact LeafM.Makes.finish (c := clearLocalMonitor c) hmakes

/-- `CompareAndSwapPairHelper` on two elements of `size` bytes. -/
def compareAndSwapPairHelper (m : AccessChecks) (size : Nat) (w : Word) : LeafM Unit := do
  let c ← LeafM.get
  let elementSize := BitVec.ofNat 64 size
  let address := readBase c w.getRn
  LeafM.check (!m.vixlDebug || (!w.getLsbD 16 && !w.getLsbD 0))
    "Assertion failed ((rs % 2 == 0) && (rt % 2 == 0))"
  LeafM.check (isValidUnalignedAtomicAccess c w.getRn address (2 * size)) alignmentException
  let comparevalueHigh := c.readRegister size (w.getRs + 1)
  let comparevalueLow := c.readRegister size w.getRs
  let newvalueHigh := c.readRegister size (w.getRt + 1)
  let newvalueLow := c.readRegister size w.getRt
  LeafM.modify clearLocalMonitor
  let dataLow ← LeafM.memRead m size address
  let dataHigh ← LeafM.memRead m size (address + elementSize)
  LeafM.onlyIf (dataHigh == comparevalueHigh && dataLow == comparevalueLow) do
    LeafM.memWrite m size address newvalueLow
    LeafM.memWrite m size (address + elementSize) newvalueHigh
  writeLoaded (w.getRs + 1) dataHigh
  writeLoaded w.getRs dataLow

def compareAndSwapPairStores (m : AccessChecks) (size : Nat) (w : Word) (c : Core) :
    List Addr :=
  let address := readBase c w.getRn
  let address2 := address + BitVec.ofNat 64 size
  let dataLow := LeafM.readBytes c.memory (addressUntag address) size
  let dataHigh := LeafM.readBytes c.memory (addressUntag address2) size
  if (!m.vixlDebug || (!w.getLsbD 16 && !w.getLsbD 0)) &&
      isValidUnalignedAtomicAccess c w.getRn address (2 * size) then
    stored m c.mteTags (.read address size :: .read address2 size ::
      if dataHigh == c.readRegister size (w.getRs + 1) &&
          dataLow == c.readRegister size w.getRs then
        [.write address size, .write address2 size]
      else [])
  else []

theorem compareAndSwapPairHelper_stores (m : AccessChecks) {size : Nat}
    (hsize : size ∈ [1, 2, 4, 8, 16]) (w : Word) (c : Core) :
    StoresAt (compareAndSwapPairStores m size w c) c.memory
      ((compareAndSwapPairHelper m size w).run c) := by
  simp only [compareAndSwapPairStores, ite_and_nil, LeafM.run, compareAndSwapPairHelper,
    LeafM.bind_apply, LeafM.get_apply, LeafM.modify_apply]
  apply LeafM.check_stores
  intro _
  apply LeafM.check_stores
  intro _
  apply LeafM.memRead_stores (c := clearLocalMonitor c)
  apply LeafM.memRead_stores (c := clearLocalMonitor c)
  have hwrites := (@LeafM.Makes.memWrite m c.operands size hsize (readBase c w.getRn)
    (c.readRegister size w.getRt)).append
      (LeafM.Makes.memWrite hsize (readBase c w.getRn + BitVec.ofNat 64 size)
        (c.readRegister size (w.getRt + 1)))
  have hmakes (same : Bool) (dataLow dataHigh : BitVec (8 * size)) :=
    (LeafM.Makes.onlyIf (b := same) fun _ => hwrites).append
      ((makes_writeLoaded m c.operands (w.getRs + 1) dataHigh).append
        (makes_writeLoaded m c.operands w.getRs dataLow))
  simp only [List.append_nil] at hmakes
  exact LeafM.Makes.finish (c := clearLocalMonitor c) (hmakes _ _ _)

/-! ## Read-modify-write -/

/-- What a load-and-operate instruction stores, on values of any width. -/
def atomicResult {n : Nat} (op : BitVec 3) (data value : BitVec n) : BitVec n :=
  match op.toNat with
  | 0 => data + value
  | 1 => data &&& ~~~value
  | 2 => data ^^^ value
  | 3 => data ||| value
  | 4 => if value.slt data then data else value
  | 5 => if value.slt data then value else data
  | 6 => if value.ult data then data else value
  | _ => if value.ult data then value else data

/-- What `rt` receives: a narrow value is signed for LDSMAX and LDSMIN. -/
def atomicLoaded {n : Nat} (op : BitVec 3) (data : BitVec n) : BitVec 64 :=
  if (op == 4 || op == 5) && n < 32 then (data.signExtend 32).setWidth 64
  else data.setWidth 64

def atomicSimpleHelper (m : AccessChecks) (size : Nat) (w : Word) : LeafM Unit := do
  let c ← LeafM.get
  let address := readBase c w.getRn
  LeafM.check (isValidUnalignedAtomicAccess c w.getRn address size) alignmentException
  let value := c.readRegister size w.getRs
  let data ← LeafM.memRead m size address
  LeafM.modify fun c => writeTransfer c w.getRt (atomicLoaded w.atomicMemorySimpleOp data)
  LeafM.memWrite m size address (atomicResult w.atomicMemorySimpleOp data value)

def atomicSwapHelper (m : AccessChecks) (size : Nat) (w : Word) : LeafM Unit := do
  let c ← LeafM.get
  let address := readBase c w.getRn
  LeafM.check (isValidUnalignedAtomicAccess c w.getRn address size) alignmentException
  let data ← LeafM.memRead m size address
  LeafM.memWrite m size address (c.readRegister size w.getRs)
  writeLoaded w.getRt data

def atomicStores (m : AccessChecks) (size : Nat) (w : Word) (c : Core) : List Addr :=
  let address := readBase c w.getRn
  if isValidUnalignedAtomicAccess c w.getRn address size then
    stored m c.mteTags [.read address size, .write address size]
  else []

theorem atomicSimpleHelper_stores (m : AccessChecks) {size : Nat}
    (hsize : size ∈ [1, 2, 4, 8, 16]) (w : Word) (c : Core) :
    StoresAt (atomicStores m size w c) c.memory ((atomicSimpleHelper m size w).run c) := by
  simp only [atomicStores, LeafM.run, atomicSimpleHelper, LeafM.bind_apply, LeafM.get_apply]
  apply LeafM.check_stores
  intro _
  have hmakes (data : BitVec (8 * size)) :=
    (makes_writeTransfer m c.operands w.getRt (atomicLoaded w.atomicMemorySimpleOp data)).append
      (LeafM.Makes.memWrite hsize (readBase c w.getRn)
        (atomicResult w.atomicMemorySimpleOp data (c.readRegister size w.getRs)))
  exact (LeafM.Makes.memRead (readBase c w.getRn) hmakes).finish

theorem atomicSwapHelper_stores (m : AccessChecks) {size : Nat}
    (hsize : size ∈ [1, 2, 4, 8, 16]) (w : Word) (c : Core) :
    StoresAt (atomicStores m size w c) c.memory ((atomicSwapHelper m size w).run c) := by
  simp only [atomicStores, LeafM.run, atomicSwapHelper, LeafM.bind_apply, LeafM.get_apply]
  apply LeafM.check_stores
  intro _
  have hmakes (data : BitVec (8 * size)) :=
    (LeafM.Makes.memWrite hsize (readBase c w.getRn) (c.readRegister size w.getRs)).append
      (makes_writeLoaded m c.operands w.getRt data)
  exact (LeafM.Makes.memRead (readBase c w.getRn) hmakes).finish

end GabyVm.Aarch64
