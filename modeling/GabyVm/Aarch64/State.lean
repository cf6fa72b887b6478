import GabyVm.Aarch64.Instruction

/-!
# The interpreter state

`Core` is the part of the imported simulator that instruction leaves read and
write: the guest registers and memory, the position of the interpreter, the
branch type state, the guarded control stack, the exclusive monitors, the
random number generator and the feature configuration.  The position of a
nested execution call is saved and restored as a `Cursor` by the execution
layer; the range shortcut of the cursor lives outside `Core`, since no leaf
sees it.
-/

namespace GabyVm.Aarch64

/-! ## Registers -/

inductive BType where
  | default
  | branchFromUnguardedOrToIP
  | branchAndLink
  | branchFromGuardedNotToIP
  deriving DecidableEq, Repr

def BType.toBits : BType → BitVec 32
  | .default => 0
  | .branchFromUnguardedOrToIP => 1
  | .branchAndLink => 2
  | .branchFromGuardedNotToIP => 3

/-- A system register of which only the bits outside the mask can be written. -/
structure SimSystemRegister where
  value : BitVec 32
  writeIgnoreMask : BitVec 32
  deriving DecidableEq, Repr

def SimSystemRegister.setRawValue (r : SimSystemRegister) (newValue : BitVec 32) :
    SimSystemRegister :=
  { r with value := (r.value &&& r.writeIgnoreMask) ||| (newValue &&& ~~~r.writeIgnoreMask) }

/-- NZCV with its four writable flag bits. -/
def defaultNzcv : SimSystemRegister := ⟨0, ~~~0xf0000000⟩

/-- FPCR with writable AHP, DN, FZ and RMode. -/
def defaultFpcr : SimSystemRegister := ⟨0, ~~~0x07c00000⟩

/-- The widest vector register, of which `sizeInBytes` bytes are in use. -/
structure SimVRegister where
  value : BitVec 2048
  sizeInBytes : Nat
  deriving DecidableEq, Repr

structure VRegisterValue where
  lo : BitVec 64
  hi : BitVec 64
  deriving DecidableEq, Repr

def SimVRegister.readQ (r : SimVRegister) : VRegisterValue :=
  ⟨r.value.extractLsb' 0 64, r.value.extractLsb' 64 64⟩

/-- Write the low 16 bytes; a register longer than that is cleared first. -/
def SimVRegister.writeQ (r : SimVRegister) (q : VRegisterValue) : SimVRegister :=
  let low := (q.hi ++ q.lo).setWidth 2048
  if 16 < r.sizeInBytes then { r with value := low }
  else { r with value := (r.value >>> 128 <<< 128) ||| low }

/-! ## Monitors and features -/

structure SimExclusiveLocalMonitor where
  address : Addr
  size : Nat
  seed : BitVec 32
  deriving DecidableEq, Repr

/-- How many features the simulator knows. -/
def numberOfFeatures : Nat := 83

abbrev CPUFeatures := BitVec numberOfFeatures

namespace CPUFeatures

def all : CPUFeatures := BitVec.allOnes numberOfFeatures

def has (features other : CPUFeatures) : Bool := features &&& other == other

@[simp] theorem all_has (other : CPUFeatures) : all.has other = true := by
  simp [has, all]

end CPUFeatures

/-! ## The state -/

structure Core where
  registers : Fin 32 → BitVec 64
  vregisters : Fin 32 → SimVRegister
  pregisters : Fin 16 → BitVec 256
  ffr : BitVec 256
  vectorLength : Nat
  nzcv : SimSystemRegister
  fpcr : SimSystemRegister
  memory : Memory
  mteTags : Addr → Option (BitVec 4)
  /-- `MetaDataMTE::is_active`, one switch for the whole process. -/
  mteActive : Bool
  pc : Addr
  pcModified : Bool
  /-- The instruction executed last; the null pointer is 0. -/
  lastInstr : Addr
  formHash : FormHash
  btype : BType
  nextBtype : BType
  guardPages : Bool
  /-- The active guarded control stack, most recent entry first. -/
  gcs : List Addr
  gcsEnabled : Bool
  localMonitor : SimExclusiveLocalMonitor
  globalMonitorSeed : BitVec 32
  randGen : BitVec 64
  cpuFeatures : CPUFeatures
  savedCpuFeatures : List CPUFeatures

/-- Everything is zero and every feature is there. -/
instance : Inhabited Core where
  default :=
    { registers := fun _ => 0
      vregisters := fun _ => ⟨0, 16⟩
      pregisters := fun _ => 0
      ffr := 0
      vectorLength := 128
      nzcv := defaultNzcv
      fpcr := defaultFpcr
      memory := fun _ => 0
      mteTags := fun _ => none
      mteActive := false
      pc := 0
      pcModified := false
      lastInstr := 0
      formHash := 0
      btype := .default
      nextBtype := .default
      guardPages := false
      gcs := []
      gcsEnabled := true
      localMonitor := ⟨0, 0, 0⟩
      globalMonitorSeed := 0
      randGen := 0
      cpuFeatures := .all
      savedCpuFeatures := [] }

namespace Core

/-- The word the program counter points at. -/
def instr (c : Core) : Word := readWord c.memory c.pc

/-- Registers, flags and memory are the same. -/
structure SameData (c c' : Core) : Prop where
  registers : c'.registers = c.registers
  vregisters : c'.vregisters = c.vregisters
  pregisters : c'.pregisters = c.pregisters
  ffr : c'.ffr = c.ffr
  nzcv : c'.nzcv = c.nzcv
  fpcr : c'.fpcr = c.fpcr
  memory : c'.memory = c.memory

/-! ### Register access -/

/-- The element of the register array that a code selects. -/
abbrev registerIndex (code : Nat) : Fin 32 := Fin.ofNat 32 code

/-- Register 31 reads as zero. -/
def readXRegister (c : Core) (code : BitVec 5) : BitVec 64 :=
  if code = 31 then 0 else c.registers code.toFin

def readWRegister (c : Core) (code : BitVec 5) : BitVec 32 :=
  (c.readXRegister code).setWidth 32

def spRegCode : Fin 32 := 31

def readSp (c : Core) : BitVec 64 := c.registers spRegCode

def linkRegCode : Fin 32 := 30

def readLr (c : Core) : BitVec 64 := c.registers linkRegCode

def writeRegister (c : Core) (code : Fin 32) (value : BitVec 64) : Core :=
  { c with registers := fun i => if i = code then value else c.registers i }

def writeLr (c : Core) (value : BitVec 64) : Core := c.writeRegister linkRegCode value

/-! ### Position -/

def isSimulationFinished (c : Core) : Bool := c.pc == 0

def writePc (c : Core) (newPc : Addr) : Core :=
  { c with pc := addressUntag newPc, pcModified := true }

def getNextInstruction (c : Core) : Addr := c.pc + instructionSize

def incrementPc (c : Core) : Core :=
  if c.pcModified then c else { c with pc := c.getNextInstruction }

def writeFormHash (c : Core) (hash : FormHash) : Core := { c with formHash := hash }

def writeNextBType (c : Core) (btype : BType) : Core := { c with nextBtype := btype }

def updateBType (c : Core) : Core := { c with btype := c.nextBtype, nextBtype := .default }

/-! ### Flags -/

def readN (c : Core) : Bool := c.nzcv.value.getLsbD 31

def readZ (c : Core) : Bool := c.nzcv.value.getLsbD 30

def readC (c : Core) : Bool := c.nzcv.value.getLsbD 29

def readV (c : Core) : Bool := c.nzcv.value.getLsbD 28

/-- The A64 condition codes, in the order of their encoding. -/
def conditionPassed (c : Core) (cond : BitVec 4) : Bool :=
  match cond.toNat with
  | 0 => c.readZ
  | 1 => !c.readZ
  | 2 => c.readC
  | 3 => !c.readC
  | 4 => c.readN
  | 5 => !c.readN
  | 6 => c.readV
  | 7 => !c.readV
  | 8 => c.readC && !c.readZ
  | 9 => !(c.readC && !c.readZ)
  | 10 => c.readN == c.readV
  | 11 => c.readN != c.readV
  | 12 => !c.readZ && c.readN == c.readV
  | 13 => !(!c.readZ && c.readN == c.readV)
  | _ => true

/-! ### Guarded control stack -/

def gcsPush (c : Core) (addr : Addr) : Core := { c with gcs := addr :: c.gcs }

def gcsPop (c : Core) : Core := { c with gcs := c.gcs.tail }

/-- An empty stack answers 0. -/
def gcsPeek (c : Core) : Addr := c.gcs.headD 0

end Core

end GabyVm.Aarch64
