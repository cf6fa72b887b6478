import GabyVm.Aarch64.BranchVisitors
import GabyVm.Cache.PredecodeCache
import GabyVm.Foundation.Outcome
import Mathlib.Data.List.OfFn

/-!
# The simulator and its registers

`Sim` is one simulator object: the interpreter state, the range it used last,
the trace configuration with the decoder's visitor list, the result of the
feature auditor, and the fields of the embedding layer.  The typed register
surface of the embedder is read as a `RegisterFile` and written one
`RegisterWrite` at a time.
-/

namespace GabyVm.Engine

open GabyVm.Aarch64
open GabyVm.Cache

/-! ## Trace configuration -/

inductive DecoderVisitor where
  | cpuFeaturesAuditor
  | printDisassembler
  | simulator
  deriving DecidableEq, Repr

def logDisasm (parameters : BitVec 32) : Bool := parameters.getLsbD 0

/-- The visitors that a trace mask calls for, in their order. -/
def visitorsFor (parameters : BitVec 32) : List DecoderVisitor :=
  if logDisasm parameters then [.cpuFeaturesAuditor, .printDisassembler, .simulator]
  else [.cpuFeaturesAuditor, .simulator]

def insertVisitorBefore (new registered : DecoderVisitor) :
    List DecoderVisitor → List DecoderVisitor
  | [] => [new]
  | v :: rest => if v = registered then new :: v :: rest
      else v :: insertVisitorBefore new registered rest

/-- A trace mask together with the visitor list it calls for. -/
structure Tracing where
  parameters : BitVec 32
  visitors : List DecoderVisitor
  visitors_eq : visitors = visitorsFor parameters

namespace Tracing

def off : Tracing := ⟨0, [.cpuFeaturesAuditor, .simulator], rfl⟩

/-- `SetTraceParameters`: the visitor list changes only with the disassembly bit. -/
def set (t : Tracing) (parameters : BitVec 32) : Tracing where
  parameters := parameters
  visitors :=
    if logDisasm t.parameters = logDisasm parameters then t.visitors
    else if logDisasm parameters then
      insertVisitorBefore .printDisassembler .simulator t.visitors
    else t.visitors.filter (· ≠ .printDisassembler)
  visitors_eq := by
    rw [t.visitors_eq]
    unfold visitorsFor
    cases logDisasm t.parameters <;> cases logDisasm parameters <;> rfl

@[simp] theorem set_parameters (t : Tracing) (parameters : BitVec 32) :
    (t.set parameters).parameters = parameters := rfl

/-- The mask settles the whole configuration. -/
theorem ext_parameters {t t' : Tracing} (h : t.parameters = t'.parameters) : t = t' := by
  obtain ⟨p, vs, hvs⟩ := t
  obtain ⟨p', vs', hvs'⟩ := t'
  simp only at h
  subst h hvs hvs'
  rfl

end Tracing

/-! ## Simulators -/

/-- Where the interpreter is; a nested call saves and restores exactly this. -/
structure Cursor where
  pc : Addr
  curRange : Option Addr
  formHash : FormHash
  lastInstr : Addr
  pcModified : Bool
  btype : BType
  nextBtype : BType
  deriving DecidableEq, Repr

structure Sim where
  core : Core
  /-- Key of the table node the last cache-track step went through. -/
  curRange : Option Addr
  trace : Tracing
  /-- The features of the instruction the auditor visited last. -/
  lastInstruction : CPUFeatures
  /-- An execution call is in progress. -/
  busy : Bool
  /-- The trace mask the embedder configured for the debug track. -/
  traceParameters : BitVec 32
  fpsrStorage : BitVec 32

namespace Sim

def saveCursor (s : Sim) : Cursor where
  pc := s.core.pc
  curRange := s.curRange
  formHash := s.core.formHash
  lastInstr := s.core.lastInstr
  pcModified := s.core.pcModified
  btype := s.core.btype
  nextBtype := s.core.nextBtype

def restoreCursor (s : Sim) (cursor : Cursor) : Sim :=
  { s with
    core := { s.core with
      pc := cursor.pc
      formHash := cursor.formHash
      lastInstr := cursor.lastInstr
      pcModified := cursor.pcModified
      btype := cursor.btype
      nextBtype := cursor.nextBtype }
    curRange := cursor.curRange }

@[simp] theorem saveCursor_restoreCursor (s : Sim) (cursor : Cursor) :
    (s.restoreCursor cursor).saveCursor = cursor := rfl

/-- The auditor accepts the instruction it visited last. -/
def instructionIsAvailable (s : Sim) : Bool := s.core.cpuFeatures.has s.lastInstruction

end Sim

/-! ## Typed register I/O -/

structure RegisterFile where
  x : Fin 31 → BitVec 64
  sp : BitVec 64
  pc : BitVec 64
  v : Fin 32 → VRegisterValue
  nzcv : BitVec 32
  fpcr : BitVec 32
  fpsr : BitVec 32
  btype : BitVec 32

namespace RegisterFile

def xIndex (code : Nat) : Fin 31 := Fin.ofNat 31 code

def lr (f : RegisterFile) : BitVec 64 := f.x (xIndex 30)

end RegisterFile

/-- The fields of a register file as values that can be compared. -/
def fileData (f : RegisterFile) : List (BitVec 64) × List VRegisterValue × List (BitVec 32) :=
  (List.ofFn f.x ++ [f.sp, f.pc], List.ofFn f.v, [f.nzcv, f.fpcr, f.fpsr, f.btype])

inductive RegisterWrite where
  | gp (code : BitVec 8) (value : BitVec 64)
  | v (code : BitVec 8) (value : VRegisterValue)
  | sys (code : BitVec 8) (value : BitVec 32)
  deriving DecidableEq, Repr

def gpSP : BitVec 8 := 31

def gpPC : BitVec 8 := 32

def sysNZCV : BitVec 8 := 0

def sysFPCR : BitVec 8 := 1

def sysFPSR : BitVec 8 := 2

def sysBType : BitVec 8 := 3

def btypeOfBits (b : BitVec 8) : Option BType :=
  match b.toNat with
  | 0 => some .default
  | 1 => some .branchFromUnguardedOrToIP
  | 2 => some .branchAndLink
  | 3 => some .branchFromGuardedNotToIP
  | _ => none

namespace Sim

def readNzcv (s : Sim) : BitVec 32 :=
  (if s.core.readN then 1#32 <<< 31 else 0) ||| (if s.core.readZ then 1#32 <<< 30 else 0) |||
    (if s.core.readC then 1#32 <<< 29 else 0) ||| (if s.core.readV then 1#32 <<< 28 else 0)

def readAll (s : Sim) : RegisterFile where
  x i := s.core.registers i.castSucc
  sp := s.core.readSp
  pc := s.core.pc
  v i := (s.core.vregisters i).readQ
  nzcv := s.readNzcv
  fpcr := s.core.fpcr.value
  fpsr := s.fpsrStorage
  btype := s.core.btype.toBits

def setCore (s : Sim) (c : Core) : Sim := { s with core := c }

def writeGp (s : Sim) (code : BitVec 8) (value : BitVec 64) : Except Abort Sim :=
  if code ≤ gpSP then
    .ok (s.setCore (s.core.writeRegister (Core.registerIndex code.toNat) value))
  else if code = gpPC then .ok (s.setCore (s.core.writePc value))
  else .error (.gpRegisterOutOfRange code.toNat)

def writeV (s : Sim) (code : BitVec 8) (value : VRegisterValue) : Except Abort Sim :=
  if code ≤ 31 then
    let i : Fin 32 := Core.registerIndex code.toNat
    .ok (s.setCore { s.core with
      vregisters := fun j =>
        if j = i then (s.core.vregisters i).writeQ value else s.core.vregisters j })
  else .error (.vRegisterOutOfRange code.toNat)

/-- A BType write is promoted at once, and clears a staged value. -/
def writeSys (s : Sim) (code : BitVec 8) (value : BitVec 32) : Except Abort Sim :=
  if code = sysNZCV then
    .ok (s.setCore { s.core with nzcv := s.core.nzcv.setRawValue value })
  else if code = sysFPCR then
    .ok (s.setCore { s.core with fpcr := s.core.fpcr.setRawValue value })
  else if code = sysFPSR then .ok { s with fpsrStorage := value }
  else if code = sysBType then
    match btypeOfBits (value.setWidth 8) with
    | some b => .ok (s.setCore (s.core.writeNextBType b).updateBType)
    | none => .error (.btypeOutOfRange (value.setWidth 8).toNat)
  else .error (.sysRegisterOutOfRange code.toNat)

def write (s : Sim) : RegisterWrite → Except Abort Sim
  | .gp code value => s.writeGp code value
  | .v code value => s.writeV code value
  | .sys code value => s.writeSys code value

end Sim

/-! ### The flags -/

def writableNzcv : BitVec 32 := 0xf0000000

theorem flag_eq (v mask : BitVec 32) (k : Nat) (hmask : mask = BitVec.twoPow 32 k) :
    (if v.getLsbD k then mask else 0) = v &&& mask := by
  rw [hmask, BitVec.and_twoPow]
  rfl

theorem readNzcv_eq (s : Sim) : s.readNzcv = s.core.nzcv.value &&& writableNzcv := by
  have hN : (if s.core.readN then 1#32 <<< 31 else 0) = s.core.nzcv.value &&& 1#32 <<< 31 :=
    flag_eq _ _ 31 (by decide)
  have hZ : (if s.core.readZ then 1#32 <<< 30 else 0) = s.core.nzcv.value &&& 1#32 <<< 30 :=
    flag_eq _ _ 30 (by decide)
  have hC : (if s.core.readC then 1#32 <<< 29 else 0) = s.core.nzcv.value &&& 1#32 <<< 29 :=
    flag_eq _ _ 29 (by decide)
  have hV : (if s.core.readV then 1#32 <<< 28 else 0) = s.core.nzcv.value &&& 1#32 <<< 28 :=
    flag_eq _ _ 28 (by decide)
  rw [Sim.readNzcv, hN, hZ, hC, hV, ← BitVec.and_or_distrib_left, ← BitVec.and_or_distrib_left,
    ← BitVec.and_or_distrib_left]
  rfl

end GabyVm.Engine
