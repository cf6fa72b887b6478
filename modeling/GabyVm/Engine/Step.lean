import GabyVm.Engine.Host

/-!
# One step on either track

The cache track finds the predecoded entry of the program counter and calls
its leaf; the debug track decodes the word again.  What surrounds the dispatch
is the same on both: the guarded-page check before it, and after it the
MOVPRFX pairing check, the advance of the program counter and of the branch
type.  Every taken branch commits its target through one hook helper.
-/

namespace GabyVm.Engine

open GabyVm.Aarch64
open GabyVm.Cache
open GabyVm.Foundation

variable {τ : Type}

def modifyCore (f : Core → Core) : Act τ Unit := Action.modify fun w => w.setCore (f w.core)

@[simp] theorem modifyCore_apply (f : Core → Core) (w : World τ) :
    modifyCore f w = .ok () (w.setCore (f w.core)) := rfl

/-- `VIXL_ASSERT`: nothing without assertions in the build. -/
def vixlAssert (E : Env) (b : Bool) (condition : String) : Act τ Unit :=
  Action.require (!E.vixlDebug || b) (.check condition)

/-- `VIXL_UNIMPLEMENTED`: an abort only in a build with assertions. -/
def vixlUnimplemented (E : Env) : Act τ Unit :=
  Action.require (!E.vixlDebug) .unimplemented

/-! ## Leaves -/

section Dispatch

variable (E : Env) (H : Host τ) (nested : ExecCall → Act τ Bool)

/-- A store has been made; tell the observer, if there is one. -/
def notifyStore (event : MemoryWriteEvent) : Act τ Unit :=
  match H.memoryWriteObserver with
  | none => pure ()
  | some observer => fun w => (observer event).run E nested (w.log (.memoryWrite event))

def runLeaf : LeafProg → Act τ Unit
  | .done c => modifyCore fun _ => c
  | .abort message c => fun w => .abort (.leaf message) (w.setCore c)
  | .store event c next => fun w =>
      (notifyStore E H nested event (w.setCore c)).bind fun _ w => runLeaf (next w.core) w

/-- The event of a hook call made in this state. -/
def branchEvent (w : World τ) (target : Addr) : BranchEvent where
  pc := w.core.pc
  target := target
  file := w.sim.readAll

/-- The one place where a taken branch commits its target. -/
def gabyHookedWritePc (target : Addr) : Act τ Unit :=
  match H.branchHook with
  | none => modifyCore (·.writePc target)
  | some hook => fun w =>
      ((hook target).run E nested (w.log (.branch (branchEvent w target)))).bind fun next w =>
        if isWordAligned next then modifyCore (·.writePc next) w
        else .abort .misalignedHookPc w

def runBranch : BranchStep → Act τ Unit
  | .fallThrough c => modifyCore fun _ => c
  | .commit target c => fun w => gabyHookedWritePc E H nested target (w.setCore c)
  | .abort reason c => fun w => .abort reason (w.setCore c)

def runVisitor (v : Visitor) (word : Word) : Act τ Unit := fun w =>
  match v with
  | .unconditionalBranch =>
      runBranch E H nested (visitUnconditionalBranch E word w.core) w
  | .conditionalBranch =>
      runBranch E H nested (visitConditionalBranch E word w.core) w
  | .unconditionalBranchToRegister =>
      runBranch E H nested (visitUnconditionalBranchToRegister E word w.core) w
  | .testBranch => runBranch E H nested (visitTestBranch E word w.core) w
  | .compareBranch => runBranch E H nested (visitCompareBranch E word w.core) w
  | .unimplemented => vixlUnimplemented E w
  | .unallocated => .abort .unallocated w
  | .leaf run => runLeaf E H nested (run word w.core) w

theorem runVisitor_branch {v : Visitor} {word : Word} {w : World τ} {step : BranchStep}
    (h : v.branchStep E word w.core = some step) :
    runVisitor E H nested v word w = runBranch E H nested step w := by
  cases v <;> simp only [Visitor.branchStep, Option.some.injEq, reduceCtorEq] at h <;>
    subst h <;> rfl

/-! ## Before and after the dispatch -/

/-- The guarded-page check that precedes every instruction on the debug track. -/
def wrongBType (c : Core) : Bool :=
  c.guardPages && c.btype != .default &&
    if isPAuth c.instr then c.instr != PACIASP && c.instr != PACIBSP
    else !isBti c.instr && !isException c.instr

def lastInstrWasMovprfx (c : Core) : Bool :=
  c.formHash == formHash "movprfx_z_z" || c.formHash == formHash "movprfx_z_p_z"

/-- The MOVPRFX pairing check, made after the leaf has run. -/
def checkMovprfx (wasMovprfx : Bool) : Act τ Unit := fun w =>
  if wasMovprfx then
    (vixlAssert E (w.core.lastInstr != 0) "last_instr_ != NULL" w).bind fun _ w =>
      Action.require
        (E.canTakeSVEMovprfx w.core.instr w.core.formHash
          (readWord w.core.memory w.core.lastInstr))
        (.check "pc_->CanTakeSVEMovprfx(form_hash_, last_instr_)") w
  else .ok () w

def finishStep (c : Core) : Core :=
  ({ c with lastInstr := c.pc }).incrementPc.updateBType

def stepTail (wasMovprfx : Bool) : Act τ Unit := do
  checkMovprfx E wasMovprfx
  modifyCore finishStep

def beginStep (c : Core) : Core := { c with pcModified := false }

/-- The program counter should always be aligned. -/
def assertAligned : Act τ Unit := fun w =>
  vixlAssert E (isWordAligned w.core.pc) "IsWordAligned(pc_)" w

/-! ## The debug track -/

def visit (word : Word) : Act τ Unit :=
  let metadata := E.decode word
  if metadata.unallocated then Action.abort .unallocated
  else do
    modifyCore (·.writeFormHash (formHash metadata.form))
    runVisitor E H nested (visitorOf E (formHash metadata.form)) word

def auditorVisit (word : Word) : Act τ Unit :=
  Action.modify fun w =>
    { w with sim := { w.sim with lastInstruction := E.instructionFeatures word } }

def visitDecoded (word : Word) : DecoderVisitor → Act τ Unit
  | .cpuFeaturesAuditor => auditorVisit E word
  | .printDisassembler => pure ()
  | .simulator => visit E H nested word

def visitAll (word : Word) : List DecoderVisitor → Act τ Unit
  | [] => pure ()
  | v :: vs => do
      visitDecoded E H nested word v
      visitAll word vs

/-- `Decoder::Decode` of the instruction at the program counter. -/
def decodeInstruction : Act τ Unit := fun w =>
  visitAll E H nested w.core.instr w.sim.trace.visitors w

def checkAvailable : Act τ Unit := fun w =>
  Action.require w.sim.instructionIsAvailable
    (.check "cpu_features_auditor_.InstructionIsAvailable()") w

def requireBType : Act τ Unit := fun w =>
  Action.require (!wrongBType w.core) .wrongBType w

def executeInstruction : Act τ Unit := do
  assertAligned E
  modifyCore beginStep
  requireBType
  let w ← Action.get
  let wasMovprfx := lastInstrWasMovprfx w.core
  decodeInstruction E H nested
  stepTail E wasMovprfx
  checkAvailable

/-! ## The cache track -/

/-- Call the leaf of an entry; the check is gated on the entry's first flag. -/
def executeEntry (entry : PredecodedEntry) : Act τ Unit := do
  if entry.checksBType then requireBType
  let w ← Action.get
  let wasMovprfx := lastInstrWasMovprfx w.core
  modifyCore (·.writeFormHash entry.formHash)
  runVisitor E H nested entry.leaf w.core.instr
  stepTail E wasMovprfx

/-- Find the entry of the program counter, refreshing the held range on a miss. -/
def lookupEntry : Act τ PredecodedEntry := fun w =>
  match w.cache with
  | none => .abort (.check "cache_ != nullptr") w
  | some cache =>
      match cache.selectEntry w.sim.curRange w.core.pc with
      | none => .abort (.notInRegisteredRange w.core.pc) w
      | some entry =>
          .ok entry { w with sim := { w.sim with
            curRange := cache.refreshRange w.sim.curRange w.core.pc } }

def executeInstructionCached : Act τ Unit := do
  assertAligned E
  modifyCore beginStep
  let entry ← lookupEntry
  executeEntry E H nested entry

/-! ## Step primitives -/

def execute : Track → Act τ Unit
  | .cache => executeInstructionCached E H nested
  | .debug => executeInstruction E H nested

/-- Do nothing at the end of the simulation, else execute one instruction. -/
def stepOnce (track : Track) : Act τ Bool := fun w =>
  if w.core.isSimulationFinished then .ok false w
  else (execute E H nested track w).bind fun _ w => .ok true w

end Dispatch

end GabyVm.Engine
