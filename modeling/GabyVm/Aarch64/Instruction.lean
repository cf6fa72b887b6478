import Mathlib.Algebra.Ring.Nat

/-!
# Instruction words

The fields of an A64 instruction word that the simulator's step and its branch
visitors look at, the three word classes of the guarded-page check, the
immediate targets of PC-relative instructions, and the hash that names an
instruction form.
-/

namespace GabyVm.Aarch64

abbrev Word := BitVec 32

/-- A guest address; guest addresses are host addresses. -/
abbrev Addr := BitVec 64

abbrev Memory := Addr → BitVec 8

abbrev FormHash := BitVec 32

def instructionSize : Addr := 4

/-! ## Memory -/

def readWord (mem : Memory) (a : Addr) : Word :=
  mem (a + 3) ++ mem (a + 2) ++ mem (a + 1) ++ mem a

theorem readWord_congr {mem mem' : Memory} {a : Addr}
    (h : ∀ i : Nat, i < 4 → mem' (a + BitVec.ofNat 64 i) = mem (a + BitVec.ofNat 64 i)) :
    readWord mem' a = readWord mem a := by
  have h0 := h 0 (by omega)
  have h1 := h 1 (by omega)
  have h2 := h 2 (by omega)
  have h3 := h 3 (by omega)
  simp only [BitVec.add_zero] at h0 h1 h2 h3
  simp only [readWord, BitVec.ofNat_eq_ofNat, h0, h1, h2, h3]

def isWordAligned (a : Addr) : Bool := a &&& 3 == 0

/-- `AddressUntag`: the top byte of an address is a tag. -/
def addressUntag (a : Addr) : Addr := a &&& ~~~0xff00000000000000

theorem addressUntag_toNat (a : Addr) : (addressUntag a).toNat = a.toNat % 2 ^ 56 := by
  have hmask : (~~~0xff00000000000000 : Addr).toNat = 2 ^ 56 - 1 := rfl
  rw [addressUntag, BitVec.toNat_and, hmask, Nat.and_two_pow_sub_one_eq_mod]

/-! ## Fields -/

namespace Word

def getRd (w : Word) : BitVec 5 := w.extractLsb 4 0

def getRn (w : Word) : BitVec 5 := w.extractLsb 9 5

def getRt (w : Word) : BitVec 5 := w.extractLsb 4 0

def getImmHint (w : Word) : BitVec 7 := w.extractLsb 11 5

def getConditionBranch (w : Word) : BitVec 4 := w.extractLsb 3 0

def getImmTestBranchBit5 (w : Word) : BitVec 1 := w.extractLsb 31 31

def getImmTestBranchBit40 (w : Word) : BitVec 5 := w.extractLsb 23 19

def getImmUncondBranch (w : Word) : Addr := (w.extractLsb 25 0).signExtend 64

def getImmCondBranch (w : Word) : Addr := (w.extractLsb 23 5).signExtend 64

def getImmCmpBranch (w : Word) : Addr := (w.extractLsb 23 5).signExtend 64

def getImmTestBranch (w : Word) : Addr := (w.extractLsb 18 5).signExtend 64

def getImmPCRel (w : Word) : Addr :=
  (w.extractLsb 23 5 ++ w.extractLsb 30 29).signExtend 64

end Word

/-! ## Word classes of the guarded-page check -/

def BTI : BitVec 7 := 32

def BTI_c : BitVec 7 := 34

def BTI_j : BitVec 7 := 36

def BTI_jc : BitVec 7 := 38

def PACIASP : Word := 0xd503233f

def PACIBSP : Word := 0xd503237f

def isException (w : Word) : Bool := w &&& 0xff000000 == 0xd4000000

def isPAuth (w : Word) : Bool := w &&& 0xfffffd1f == 0xd503211f

def isBti (w : Word) : Bool :=
  w &&& 0xfffff01f == 0xd503201f &&
    (w.getImmHint == BTI || w.getImmHint == BTI_c || w.getImmHint == BTI_j ||
      w.getImmHint == BTI_jc)

/-! ## Branch targets -/

inductive ImmBranchType where
  | unknownBranchType
  | condBranchType
  | uncondBranchType
  | compareBranchType
  | testBranchType
  deriving DecidableEq, Repr

def getBranchType (w : Word) : ImmBranchType :=
  if w &&& 0xfe000000 == 0x54000000 then .condBranchType
  else if w &&& 0x7c000000 == 0x14000000 then .uncondBranchType
  else if w &&& 0x7e000000 == 0x34000000 then .compareBranchType
  else if w &&& 0x7e000000 == 0x36000000 then .testBranchType
  else .unknownBranchType

def getImmBranch (w : Word) : Addr :=
  match getBranchType w with
  | .condBranchType => w.getImmCondBranch
  | .uncondBranchType => w.getImmUncondBranch
  | .compareBranchType => w.getImmCmpBranch
  | .testBranchType => w.getImmTestBranch
  | .unknownBranchType => 0

def isPCRelAddressing (w : Word) : Bool := w &&& 0x1f000000 == 0x10000000

/-- The target of a PC-relative instruction that stands at `base`. -/
def getImmPCOffsetTarget (base : Addr) (w : Word) : Addr :=
  if isPCRelAddressing w then
    if w &&& 0x9f000000 == 0x90000000 then
      (base &&& ~~~0xfff) + w.getImmPCRel * 4096
    else base + w.getImmPCRel
  else base + getImmBranch w * instructionSize

/-! ## Form hashes -/

def hashStep (hash : FormHash) (c : Char) : FormHash :=
  let hash := hash + BitVec.ofNat 32 c.toNat
  let hash := hash + hash <<< 10
  hash ^^^ hash >>> 6

def hashEnd (hash : FormHash) : FormHash :=
  let hash := hash + hash <<< 3
  let hash := hash ^^^ hash >>> 11
  hash + hash <<< 15

/-- `Hash`: the 32-bit name of an instruction form. -/
def formHash (form : String) : FormHash := hashEnd (form.toList.foldl hashStep 0)

end GabyVm.Aarch64
