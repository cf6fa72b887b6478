import GabyVm.Aarch64.ScalarStores

/-!
# Zeroing, tagging and memory operations

The instructions that store in a loop over general memory: the zeroing of a
cache line, the tag stores with and without zeroing, and the main parts of the
memory copy and memory set triplets.
-/

namespace GabyVm.Aarch64

/-! ## Cache line zeroing -/

/-- DCZID_EL0 reads as 2^4 words, with zeroing enabled. -/
def dczidDefault : BitVec 32 := 4

def zeroBlockSize (dczid : BitVec 32) : Nat := 2 ^ (dczid &&& 0xf).toNat * 4

/-- The zeroing loop, which does not look at the results of its stores. -/
def zeroBlock (m : AccessChecks) (addr : Addr) (count : Nat) : LeafM Unit :=
  LeafM.forEach (fun i => LeafM.memFill m 8 (addr + BitVec.ofNat 64 (8 * i)) 0)
    (List.range count)

def zeroPlan (addr : Addr) (count : Nat) : List Access :=
  (List.range count).flatMap fun i => [.fill (addr + BitVec.ofNat 64 (8 * i)) 8]

theorem makes_zeroBlock (m : AccessChecks) (o : Operands) (addr : Addr) (count : Nat) :
    LeafM.Makes m o (zeroBlock m addr count) (zeroPlan addr count) := by
  apply LeafM.Makes.forEach
  intro i
  exact .memFill (by decide) (addr + BitVec.ofNat 64 (8 * i)) 0

def zeroBlockAddress (dczid : BitVec 32) (w : Word) (c : Core) : Addr :=
  alignDown (c.readXRegister w.getRt) (BitVec.ofNat 64 (zeroBlockSize dczid))

/-- The `ZVA` case of `SysOp_W`. -/
def sysOpZVA (m : AccessChecks) (dczid : BitVec 32) (w : Word) : LeafM Unit := do
  LeafM.check (dczid &&& 0x10 == 0) Abort.unallocated.message
  zeroBlock m (zeroBlockAddress dczid w (← LeafM.get)) (zeroBlockSize dczid / 8)

def zvaStores (m : AccessChecks) (dczid : BitVec 32) (w : Word) (c : Core) : List Addr :=
  if dczid &&& 0x10 == 0 then
    stored m c.mteTags (zeroPlan (zeroBlockAddress dczid w c) (zeroBlockSize dczid / 8))
  else []

theorem sysOpZVA_stores (m : AccessChecks) (dczid : BitVec 32) (w : Word) (c : Core) :
    StoresAt (zvaStores m dczid w c) c.memory ((sysOpZVA m dczid w).run c) := by
  simp only [zvaStores, LeafM.run, sysOpZVA, LeafM.bind_apply, LeafM.get_apply]
  apply LeafM.check_stores
  intro _
  exact (makes_zeroBlock m c.operands _ _).finish

/-! ## Tag stores -/

def tagAligned (address : Addr) : Bool := address &&& 15 == 0

/-- `SimulateMTEStoreTagPair`, in the addressing mode of its form. -/
def simulateMTEStoreTagPair (m : AccessChecks) (mode : AddrMode) (w : Word) : LeafM Unit := do
  let c ← LeafM.get
  let rt := c.readRegister 8 w.getRt
  let rt2 := c.readRegister 8 w.getRt2
  let offset := w.getImmLSPair * mteTagGranuleInBytes
  let address ← addressModeHelper m w.getRn offset mode
  LeafM.check (tagAligned address) alignmentException
  LeafM.modify fun c' =>
    c'.setMTETag address (getAllocationTagFromAddress (readBase c w.getRn))
  LeafM.memWrite m 8 address rt
  LeafM.memWrite m 8 (address + 8) rt2

def storeTagPairStores (m : AccessChecks) (mode : AddrMode) (w : Word) (c : Core) :
    List Addr :=
  let offset := w.getImmLSPair * mteTagGranuleInBytes
  let address := addressMode c w.getRn offset mode
  let tag := getAllocationTagFromAddress (readBase c w.getRn)
  if addressModeOk m c w.getRn offset mode && tagAligned address then
    stored m (c.setMTETag address tag).mteTags [.write address 8, .write (address + 8) 8]
  else []

theorem setMTETag_congr {c c' : Core} (h : c'.operands = c.operands) (a : Addr)
    (tag : BitVec 4) : (c'.setMTETag a tag).mteTags = (c.setMTETag a tag).mteTags := by
  simp only [Core.setMTETag, mteTags_congr h]

theorem simulateMTEStoreTagPair_stores (m : AccessChecks) (mode : AddrMode) (w : Word)
    (c : Core) :
    StoresAt (storeTagPairStores m mode w c) c.memory
      ((simulateMTEStoreTagPair m mode w).run c) := by
  simp only [storeTagPairStores, ite_and_nil]
  apply addressModeHelper_stores
  intro c' hmem hoperands
  rw [← hmem]
  apply LeafM.check_stores
  intro _
  rw [← setMTETag_congr hoperands]
  have hfirst (o : Operands) (a : Addr) :=
    @LeafM.Makes.memWrite m o 8 (by decide) a (c.readRegister 8 w.getRt)
  have hsecond (o : Operands) (a : Addr) :=
    @LeafM.Makes.memWrite m o 8 (by decide) a (c.readRegister 8 w.getRt2)
  exact ((hfirst _ _).append (hsecond _ _)).finish

/-- Which of its forms `SimulateMTEStoreTag` has been called for. -/
structure StoreTagForm where
  mode : AddrMode
  isPair : Bool
  isZeroing : Bool
  deriving DecidableEq, Repr

def StoreTagForm.fillSize (f : StoreTagForm) : Nat :=
  if f.isZeroing then (if f.isPair then 32 else 16) else 0

def simulateMTEStoreTag (m : AccessChecks) (f : StoreTagForm) (w : Word) : LeafM Unit := do
  let c ← LeafM.get
  let offset := w.getImmLS * mteTagGranuleInBytes
  let address ← addressModeHelper m w.getRn offset f.mode
  LeafM.check (!f.isZeroing || tagAligned address) alignmentException
  LeafM.forEach (fun i => LeafM.memWrite m 8 (address + BitVec.ofNat 64 (8 * i)) 0)
    (List.range (f.fillSize / 8))
  LeafM.vixlAssert m (tagAligned address) "IsAligned((uintptr_t)address, kMTETagGranuleInBytes)"
  let tag := getAllocationTagFromAddress (c.registers w.getRt.toFin)
  LeafM.modify fun c => c.setMTETag address tag
  LeafM.onlyIf f.isPair (LeafM.modify fun c => c.setMTETag (address + mteTagGranuleInBytes) tag)

def storeTagStores (m : AccessChecks) (f : StoreTagForm) (w : Word) (c : Core) : List Addr :=
  let offset := w.getImmLS * mteTagGranuleInBytes
  let address := addressMode c w.getRn offset f.mode
  if addressModeOk m c w.getRn offset f.mode && (!f.isZeroing || tagAligned address) then
    stored m c.mteTags ((List.range (f.fillSize / 8)).flatMap fun i =>
      [.write (address + BitVec.ofNat 64 (8 * i)) 8])
  else []

theorem simulateMTEStoreTag_stores (m : AccessChecks) (f : StoreTagForm) (w : Word)
    (c : Core) :
    StoresAt (storeTagStores m f w c) c.memory ((simulateMTEStoreTag m f w).run c) := by
  simp only [storeTagStores, ite_and_nil]
  apply addressModeHelper_stores
  intro c' hmem hoperands
  rw [← hmem]
  apply LeafM.check_stores
  intro _
  rw [← mteTags_congr hoperands]
  have hwrite (a : Addr) (i : Nat) := @LeafM.Makes.memWrite m c'.operands 8 (by decide)
    (a + BitVec.ofNat 64 (8 * i)) 0
  rw [← List.append_nil (List.flatMap _ _)]
  apply LeafM.Makes.forEach (hwrite _) _ c' [] _ rfl
  -- The stores are made; what is left changes the tags alone.
  intro v _
  simp only [LeafM.bind_apply, LeafM.vixlAssert, LeafM.check]
  split_ifs
  · cases f.isPair with
    | false => exact .done (v.setMTETag _ _)
    | true => exact .done ((v.setMTETag _ _).setMTETag _ _)
  · exact .abort _ v

/-! ## Triplets of the memory operations -/

/-- The word with its part-of-triplet field, at bit `lsb`, set to `part`. -/
def withPart (w : Word) (lsb : Nat) (part : Word) : Word :=
  w &&& ~~~(3#32 <<< lsb) ||| part <<< lsb

def isMOPSPrologueOf (w other : Word) (lsb : Nat) : Bool := w == withPart other lsb 0

def isMOPSMainOf (w other : Word) (lsb : Nat) : Bool := w == withPart other lsb 1

def isMOPSEpilogueOf (w other : Word) (lsb : Nat) : Bool := w == withPart other lsb 2

/-- `IsConsistentMOPSTriplet`; the field value 3 aborts. -/
def isConsistentMOPSTriplet (c : Core) (w : Word) (lsb : Nat) : Option Bool :=
  let word (offset : Addr) := readWord c.memory (c.pc + offset)
  match ((w >>> lsb) &&& 3).toNat with
  | 0 => some (isMOPSMainOf (word 4) w lsb && isMOPSEpilogueOf (word 8) w lsb)
  | 1 => some (isMOPSPrologueOf (word (-4)) w lsb && isMOPSEpilogueOf (word 4) w lsb)
  | 2 => some (isMOPSPrologueOf (word (-8)) w lsb && isMOPSMainOf (word (-4)) w lsb)
  | _ => none

/-- The two assertions of a main part. -/
def mopsMainOk (m : AccessChecks) (c : Core) (w : Word) (lsb : Nat) : Bool :=
  !m.vixlDebug || (isConsistentMOPSTriplet c w lsb == some true &&
    isMOPSMainOf w (readWord c.memory c.lastInstr) lsb)

def mopsMessage (c : Core) (w : Word) (lsb : Nat) : String :=
  match isConsistentMOPSTriplet c w lsb with
  | none => "Undefined MOPS operation\n"
  | some false => "Assertion failed (instr->IsConsistentMOPSTriplet())"
  | some true => "Assertion failed (instr->IsMOPSMainOf(GetLastExecutedInstruction()))"

/-! ## Memory copy -/

/-- The copying loop: how many bytes are left, where to, where from. -/
def copyBytes (m : AccessChecks) (step : Addr) : Nat → Addr → Addr → LeafM Unit
  | 0, _, _ => pure ()
  | n + 1, xd, xs => do
      let temp ← LeafM.memRead m 1 xs
      LeafM.memWrite m 1 xd temp
      copyBytes m step n (xd + step) (xs + step)

def copyPlan (step : Addr) : Nat → Addr → Addr → List Access
  | 0, _, _ => []
  | n + 1, xd, xs => .read xs 1 :: .write xd 1 :: copyPlan step n (xd + step) (xs + step)

theorem makes_copyBytes (m : AccessChecks) (o : Operands) (step : Addr) (n : Nat) (xd xs : Addr) :
    LeafM.Makes m o (copyBytes m step n xd xs) (copyPlan step n xd xs) := by
  induction n generalizing xd xs with
  | zero => exact .nothing
  | succ n ih =>
      apply LeafM.Makes.memRead
      intro temp
      exact (LeafM.Makes.memWrite (by decide) xd temp).append (ih (xd + step) (xs + step))

def copyBackwards (c : Core) : Bool := c.readN

def copyStep (c : Core) : Addr := if copyBackwards c then -1 else 1

/-- The first address of the loop; going backwards it starts below the end. -/
def copyFrom (c : Core) (x : Addr) : Addr := if copyBackwards c then x - 1 else x

def simulateCpyM (m : AccessChecks) (w : Word) : LeafM Unit := do
  let c ← LeafM.get
  LeafM.check (mopsMainOk m c w 22) (mopsMessage c w 22)
  let xd := c.readXRegister w.getRd
  let xn := c.readXRegister w.getRn
  let xs := c.readXRegister w.getRs
  copyBytes m (copyStep c) xn.toNat (copyFrom c xd) (copyFrom c xs)
  LeafM.modify fun c' => writeTransfer c' w.getRd (xd + copyStep c * xn)
  LeafM.modify fun c' => writeTransfer c' w.getRn 0
  LeafM.modify fun c' => writeTransfer c' w.getRs (xs + copyStep c * xn)

def copyStores (m : AccessChecks) (w : Word) (c : Core) : List Addr :=
  if mopsMainOk m c w 22 then
    stored m c.mteTags (copyPlan (copyStep c) (c.readXRegister w.getRn).toNat
      (copyFrom c (c.readXRegister w.getRd)) (copyFrom c (c.readXRegister w.getRs)))
  else []

theorem simulateCpyM_stores (m : AccessChecks) (w : Word) (c : Core) :
    StoresAt (copyStores m w c) c.memory ((simulateCpyM m w).run c) := by
  simp only [copyStores, LeafM.run, simulateCpyM, LeafM.bind_apply, LeafM.get_apply]
  apply LeafM.check_stores
  intro _
  have hcopy := makes_copyBytes m c.operands (copyStep c) (c.readXRegister w.getRn).toNat
    (copyFrom c (c.readXRegister w.getRd)) (copyFrom c (c.readXRegister w.getRs))
  have hregisters (xd xs : Addr) := (makes_writeTransfer m c.operands w.getRd xd).append
    ((makes_writeTransfer m c.operands w.getRn 0).append (makes_writeTransfer m c.operands w.getRs xs))
  have hmakes (xd xs : Addr) := hcopy.append (hregisters xd xs)
  simp only [List.append_nil] at hmakes
  exact (hmakes _ _).finish

/-! ## Memory set -/

def setBytes (m : AccessChecks) (value : BitVec 8) : Nat → Addr → LeafM Unit
  | 0, _ => pure ()
  | n + 1, xd => do
      LeafM.memWrite m 1 xd value
      setBytes m value n (xd + 1)

def setPlan : Nat → Addr → List Access
  | 0, _ => []
  | n + 1, xd => .write xd 1 :: setPlan n (xd + 1)

theorem makes_setBytes (m : AccessChecks) (o : Operands) (value : BitVec 8) (n : Nat) (xd : Addr) :
    LeafM.Makes m o (setBytes m value n xd) (setPlan n xd) := by
  induction n generalizing xd with
  | zero => exact .nothing
  | succ n ih =>
      exact (@LeafM.Makes.memWrite m o 1 (by decide) xd value).append (ih (xd + 1))

def simulateSetM (m : AccessChecks) (w : Word) : LeafM Unit := do
  let c ← LeafM.get
  LeafM.check (mopsMainOk m c w 14) (mopsMessage c w 14)
  let xd := c.readXRegister w.getRd
  let xn := c.readXRegister w.getRn
  let xs := c.readXRegister w.getRs
  setBytes m (xs.setWidth 8) xn.toNat xd
  LeafM.modify fun c' => writeTransfer c' w.getRd (xd + xn)
  LeafM.modify fun c' => writeTransfer c' w.getRn 0

def setStores (m : AccessChecks) (w : Word) (c : Core) : List Addr :=
  if mopsMainOk m c w 14 then
    stored m c.mteTags (setPlan (c.readXRegister w.getRn).toNat (c.readXRegister w.getRd))
  else []

theorem simulateSetM_stores (m : AccessChecks) (w : Word) (c : Core) :
    StoresAt (setStores m w c) c.memory ((simulateSetM m w).run c) := by
  simp only [setStores, LeafM.run, simulateSetM, LeafM.bind_apply, LeafM.get_apply]
  apply LeafM.check_stores
  intro _
  have hset := makes_setBytes m c.operands ((c.readXRegister w.getRs).setWidth 8)
    (c.readXRegister w.getRn).toNat (c.readXRegister w.getRd)
  have hregisters (xd : Addr) :=
    (makes_writeTransfer m c.operands w.getRd xd).append (makes_writeTransfer m c.operands w.getRn 0)
  have hmakes (xd : Addr) := hset.append (hregisters xd)
  simp only [List.append_nil] at hmakes
  exact (hmakes _).finish

/-- The tagging loop of `SimulateSetGM`. -/
def setMTETags (tag : BitVec 4) : Nat → Addr → Core → Core
  | 0, _, c => c
  | n + 1, xd, c => setMTETags tag n (xd + mteTagGranuleInBytes) (c.setMTETag xd tag)

/-- What the tagging loop does to the state, if it ends: it counts down by 16. -/
def tagged (w : Word) (c : Core) : Option Core :=
  let xd := c.readXRegister w.getRd
  let xn := (c.readXRegister w.getRn).toNat
  if xn % 16 = 0 then
    some (setMTETags (getAllocationTagFromAddress xd) (xn / 16) xd c)
  else none

/-- The assertion of `SetMTETag` in that loop. -/
def setTagsOk (m : AccessChecks) (w : Word) (c : Core) : Bool :=
  !m.vixlDebug || c.readXRegister w.getRn == 0 || tagAligned (c.readXRegister w.getRd)

/-- `SimulateSetGM`, if it ends. -/
def simulateSetGM (m : AccessChecks) (w : Word) (c : Core) : Option LeafProg :=
  (tagged w c).map fun c' =>
    if setTagsOk m w c then (simulateSetM m w).run c'
    else .abort "Assertion failed (IsAligned((uintptr_t)address, kMTETagGranuleInBytes))" c

def setTaggedStores (m : AccessChecks) (w : Word) (c : Core) : List Addr :=
  (tagged w c).elim [] fun c' => if setTagsOk m w c then setStores m w c' else []

theorem setMTETags_frame (tag : BitVec 4) (n : Nat) (xd : Addr) (c : Core) :
    ∃ tags, setMTETags tag n xd c = { c with mteTags := tags } := by
  induction n generalizing xd c with
  | zero => exact ⟨c.mteTags, rfl⟩
  | succ n ih =>
      obtain ⟨tags, h⟩ := ih (xd + mteTagGranuleInBytes) (c.setMTETag xd tag)
      exact ⟨tags, by rw [setMTETags, h, Core.setMTETag]⟩

theorem tagged_memory {w : Word} {c c' : Core} (h : tagged w c = some c') :
    c'.memory = c.memory := by
  simp only [tagged] at h
  split_ifs at h
  cases h
  obtain ⟨_, hframe⟩ := setMTETags_frame
    (getAllocationTagFromAddress (c.readXRegister w.getRd))
    ((c.readXRegister w.getRn).toNat / 16) (c.readXRegister w.getRd) c
  rw [hframe]

theorem simulateSetGM_stores {m : AccessChecks} {w : Word} {c : Core} {leaf : LeafProg}
    (h : simulateSetGM m w c = some leaf) :
    StoresAt (setTaggedStores m w c) c.memory leaf := by
  obtain ⟨c', htagged, rfl⟩ := Option.map_eq_some_iff.mp h
  simp only [setTaggedStores, htagged, Option.elim_some]
  split_ifs
  · rw [← tagged_memory htagged]
    exact simulateSetM_stores m w c'
  · exact .abort _ c

end GabyVm.Aarch64
