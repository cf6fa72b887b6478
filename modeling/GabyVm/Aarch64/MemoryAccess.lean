import GabyVm.Aarch64.Decoder
import Mathlib.Tactic.IntervalCases

/-!
# Guest memory accesses

The store primitive of the interpreter strips the tag of an address before it
writes, and reports the store with the address as the instruction computed it.
The checks that come before it are in another module.
-/

namespace GabyVm.Aarch64

/-! ## Bytes -/

def storeBytes (mem : Memory) (a : Addr) (value : BitVec 128) (size : Nat) : Memory := fun x =>
  if (x - a).toNat < size then value.extractLsb' (8 * (x - a).toNat) 8 else mem x

def Core.writeMemory (c : Core) (a : Addr) (value : BitVec 128) (size : Nat) : Core :=
  { c with memory := storeBytes c.memory (addressUntag a) value size }

def memWrite (size : Nat) (a : Addr) (value : BitVec (8 * size)) (c : Core)
    (next : Core → LeafProg) : LeafProg :=
  let wide := value.setWidth 128
  .store ⟨a, size, wide.extractLsb' 0 64, wide.extractLsb' 64 64⟩ (c.writeMemory a wide size) next

/-! ## Operands of loads and stores -/

namespace Word

def getRs (w : Word) : BitVec 5 := w.extractLsb 20 16

/-- The operation field of the load-and-operate family. -/
def atomicMemorySimpleOp (w : Word) : BitVec 3 := w.extractLsb 14 12

end Word

/-- A base register; register 31 is the stack pointer. -/
def readBase (c : Core) (rn : BitVec 5) : Addr := c.registers rn.toFin

/-- A write of a transfer register; register 31 discards it. -/
def writeTransfer (c : Core) (rt : BitVec 5) (value : BitVec 64) : Core :=
  if rt = 31 then c else c.writeRegister rt.toFin value

end GabyVm.Aarch64
