import GabyVm.Aarch64.AtomicStores
import GabyVm.Aarch64.BulkStores
import GabyVm.Aarch64.VectorStores
import Mathlib.Tactic.IntervalCases

/-!
# The ways to store

Every leaf that writes guest memory is one of the visitors below, and its store
cases are those of a helper of the preceding modules.  The visitors of the SVE
structured stores differ in the operands they decode, so they are one path with
any operands.
-/

namespace GabyVm.Aarch64

/-! ## What the atomic visitors decode -/

def Word.accessSize (w : Word) : Nat := 2 ^ w.getSizeBits

theorem accessSize_mem (w : Word) : w.accessSize ∈ [1, 2, 4, 8, 16] := by
  have h : w.getSizeBits < 4 := (w.extractLsb 31 30).isLt
  unfold Word.accessSize
  revert h
  generalize w.getSizeBits = n
  intro h
  interval_cases n <;> decide

inductive ExclusiveOp where
  | compareAndSwap
  | compareAndSwapPair
  | store
  deriving DecidableEq, Repr

/-- The cases of `VisitLoadStoreExclusive` that store. -/
def exclusiveOp? (w : Word) : Option ExclusiveOp :=
  if w &&& 0x3f000000 != 0x08000000 then none
  else if w.getLsbD 23 && w.getLsbD 21 then some .compareAndSwap
  else if !w.getLsbD 23 && w.getLsbD 21 && !w.getLsbD 31 then some .compareAndSwapPair
  else if w.getLsbD 22 then none
  else some .store

def casPairSize (w : Word) : Nat := if w.getLsbD 30 then 8 else 4

theorem casPairSize_mem (w : Word) : casPairSize w ∈ [1, 2, 4, 8, 16] := by
  unfold casPairSize
  split_ifs <;> decide

inductive AtomicOp where
  | simple
  | swap
  deriving DecidableEq, Repr

/-- The cases of `VisitAtomicMemory` that store. -/
def atomicOp? (w : Word) : Option AtomicOp :=
  if w &&& 0x3f200c00 != 0x38200000 then none
  else if !w.getLsbD 15 then some .simple
  else if w &&& 0x00007000 == 0 then some .swap
  else none

/-! ## Paths -/

inductive StorePath where
  | loadStore (visitor : LoadStoreVisitor)
  | loadStorePair (mode : AddrMode)
  | loadStoreRCpcUnscaledOffset
  | loadStoreExclusive
  | atomicMemory
  | cacheLineZeroing
  | neonMultiStruct (mode : AddrMode)
  | neonSingleStruct (mode : AddrMode)
  | sveStructured (operands : Word → Core → SVEStore)
  | sveRegister (r : WholeRegister)
  | mteStoreTagPair (mode : AddrMode)
  | mteStoreTag (form : StoreTagForm)
  | memoryCopy
  | memorySet
  | taggedMemorySet

namespace StorePath

/-- What the visitor of the path does, if the word is one of its store cases. -/
def prog (m : AccessChecks) (p : StorePath) (w : Word) (c : Core) : Option LeafProg :=
  match p with
  | loadStore v =>
      (storeOp? w).map fun op => (loadStoreHelper m op w (v.offset w c) v.mode).run c
  | loadStorePair mode =>
      (storePairOp? w).map fun op => (loadStorePairHelper m op w mode).run c
  | loadStoreRCpcUnscaledOffset =>
      (storeReleaseOp? w).map fun op => (storeReleaseUnscaledOffsetHelper m op w).run c
  | loadStoreExclusive =>
      (exclusiveOp? w).map fun
        | .compareAndSwap => (compareAndSwapHelper m w.accessSize w).run c
        | .compareAndSwapPair => (compareAndSwapPairHelper m (casPairSize w) w).run c
        | .store => (storeExclusive m w).run c
  | atomicMemory =>
      (atomicOp? w).map fun
        | .simple => (atomicSimpleHelper m w.accessSize w).run c
        | .swap => (atomicSwapHelper m w.accessSize w).run c
  | cacheLineZeroing => some ((sysOpZVA m dczidDefault w).run c)
  | neonMultiStruct mode =>
      (multiStruct? w).map fun s => (neonLoadStoreMultiStructHelper m s mode w).run c
  | neonSingleStruct mode =>
      (singleStructLane? w).map fun lane =>
        (neonLoadStoreSingleStructHelper m lane mode w).run c
  | sveStructured operands => some ((sveStructuredStoreHelper m (operands w c)).run c)
  | sveRegister r => some ((visitSVEStoreRegister m r w).run c)
  | mteStoreTagPair mode => some ((simulateMTEStoreTagPair m mode w).run c)
  | mteStoreTag form => some ((simulateMTEStoreTag m form w).run c)
  | memoryCopy => some ((simulateCpyM m w).run c)
  | memorySet => some ((simulateSetM m w).run c)
  | taggedMemorySet => simulateSetGM m w c

/-- The addresses that the path stores to, one after the other. -/
def stores (m : AccessChecks) (p : StorePath) (w : Word) (c : Core) : List Addr :=
  match p with
  | loadStore v =>
      (storeOp? w).elim [] fun op => loadStoreStores m op w (v.offset w c) v.mode c
  | loadStorePair mode => (storePairOp? w).elim [] fun op => loadStorePairStores m op w mode c
  | loadStoreRCpcUnscaledOffset =>
      (storeReleaseOp? w).elim [] fun op => storeReleaseStores m op w c
  | loadStoreExclusive =>
      (exclusiveOp? w).elim [] fun
        | .compareAndSwap => compareAndSwapStores m w.accessSize w c
        | .compareAndSwapPair => compareAndSwapPairStores m (casPairSize w) w c
        | .store => storeExclusiveStores m w c
  | atomicMemory => (atomicOp? w).elim [] fun _ => atomicStores m w.accessSize w c
  | cacheLineZeroing => zvaStores m dczidDefault w c
  | neonMultiStruct _ => (multiStruct? w).elim [] fun s => multiStructStores m s w c
  | neonSingleStruct _ =>
      (singleStructLane? w).elim [] fun lane => singleStructStores m lane w c
  | sveStructured operands => sveStructuredStores m (operands w c) c
  | sveRegister r => wholeRegisterStores m r w c
  | mteStoreTagPair mode => storeTagPairStores m mode w c
  | mteStoreTag form => storeTagStores m form w c
  | memoryCopy => copyStores m w c
  | memorySet => setStores m w c
  | taggedMemorySet => setTaggedStores m w c

theorem storesAt {m : AccessChecks} {p : StorePath} {w : Word} {c : Core} {leaf : LeafProg}
    (h : p.prog m w c = some leaf) : StoresAt (p.stores m w c) c.memory leaf := by
  cases p with
  | loadStore v =>
      obtain ⟨op, hop, rfl⟩ := Option.map_eq_some_iff.mp h
      simp only [stores, hop, Option.elim_some]
      exact loadStoreHelper_stores m op w (v.offset w c) v.mode c
  | loadStorePair mode =>
      obtain ⟨op, hop, rfl⟩ := Option.map_eq_some_iff.mp h
      simp only [stores, hop, Option.elim_some]
      exact loadStorePairHelper_stores m op w mode c
  | loadStoreRCpcUnscaledOffset =>
      obtain ⟨op, hop, rfl⟩ := Option.map_eq_some_iff.mp h
      simp only [stores, hop, Option.elim_some]
      exact storeReleaseUnscaledOffsetHelper_stores m op w c
  | loadStoreExclusive =>
      obtain ⟨op, hop, rfl⟩ := Option.map_eq_some_iff.mp h
      simp only [stores, hop, Option.elim_some]
      cases op with
      | compareAndSwap => exact compareAndSwapHelper_stores m (accessSize_mem w) w c
      | compareAndSwapPair => exact compareAndSwapPairHelper_stores m (casPairSize_mem w) w c
      | store => exact storeExclusive_stores m w c
  | atomicMemory =>
      obtain ⟨op, hop, rfl⟩ := Option.map_eq_some_iff.mp h
      simp only [stores, hop, Option.elim_some]
      cases op with
      | simple => exact atomicSimpleHelper_stores m (accessSize_mem w) w c
      | swap => exact atomicSwapHelper_stores m (accessSize_mem w) w c
  | cacheLineZeroing =>
      obtain rfl := Option.some.inj h
      exact sysOpZVA_stores m dczidDefault w c
  | neonMultiStruct mode =>
      obtain ⟨s, hs, rfl⟩ := Option.map_eq_some_iff.mp h
      simp only [stores, hs, Option.elim_some]
      exact neonLoadStoreMultiStructHelper_stores m s mode w c
  | neonSingleStruct mode =>
      obtain ⟨lane, hlane, rfl⟩ := Option.map_eq_some_iff.mp h
      simp only [stores, hlane, Option.elim_some]
      exact neonLoadStoreSingleStructHelper_stores m lane mode w c
  | sveStructured operands =>
      obtain rfl := Option.some.inj h
      exact sveStructuredStoreHelper_stores m (operands w c) c
  | sveRegister r =>
      obtain rfl := Option.some.inj h
      exact visitSVEStoreRegister_stores m r w c
  | mteStoreTagPair mode =>
      obtain rfl := Option.some.inj h
      exact simulateMTEStoreTagPair_stores m mode w c
  | mteStoreTag form =>
      obtain rfl := Option.some.inj h
      exact simulateMTEStoreTag_stores m form w c
  | memoryCopy =>
      obtain rfl := Option.some.inj h
      exact simulateCpyM_stores m w c
  | memorySet =>
      obtain rfl := Option.some.inj h
      exact simulateSetM_stores m w c
  | taggedMemorySet => exact simulateSetGM_stores h

end StorePath

end GabyVm.Aarch64
