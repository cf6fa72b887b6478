import GabyVm.Aarch64.MemoryAccess
import GabyVm.Aarch64.GcsManager
import GabyVm.Engine.Footprint
import GabyVm.Engine.SameCode
import GabyVm.Foundation.Isolation

/-!
# The simulators of one process

Three things are shared by all simulators of a process besides the memory: the
switch of memory tagging, the table of guarded control stacks, and a predecode
cache that they are attached to.  The operations of the embedder on single
simulators, and the three instructions that reach the shared state, are
actions on the state of the process.
-/

namespace GabyVm.Aarch64

/-! ## Instructions that reach shared state -/

namespace Word

def getImmException (w : Word) : BitVec 16 := w.extractLsb 20 5

def getSysOp (w : Word) : BitVec 14 := w.extractLsb 18 5

end Word

def exceptionMask : Word := 0xffe0001f

def HLT : Word := 0xd4400000

def kMTEActive : BitVec 16 := 0xdeba

def kMTEInactive : BitVec 16 := 0xdebb

/-- `CacheOpEncoder`. -/
def cacheOp (op1 crn crm op2 : Nat) : BitVec 14 :=
  BitVec.ofNat 14 ((op1 <<< 16 ||| crn <<< 12 ||| crm <<< 8 ||| op2 <<< 5) >>> 5)

def GCSSS1 : BitVec 14 := cacheOp 3 7 7 2

def GCSSS2 : BitVec 14 := cacheOp 3 7 7 3

/-- The forms that `VisitException` visits. -/
def exceptionForms : List String :=
  ["brk_ex_exception", "dcps1_dc_exception", "dcps2_dc_exception", "dcps3_dc_exception",
    "hlt_ex_exception", "hvc_ex_exception", "smc_ex_exception", "svc_ex_exception"]

inductive SharedOp where
  | setActive (value : Bool)
  | gcsss1
  | gcsss2
  deriving DecidableEq, Repr

/-- What the visitor of a form does to shared state, if the word makes it. -/
def sharedOp? (hash : FormHash) (w : Word) : Option SharedOp :=
  if exceptionForms.any (fun form => hash == formHash form) then
    if w &&& exceptionMask == HLT then
      if w.getImmException == kMTEActive then some (.setActive true)
      else if w.getImmException == kMTEInactive then some (.setActive false)
      else none
    else none
  else if hash == formHash "sys_cr_systeminstrs" && w.getSysOp == GCSSS1 then some .gcsss1
  else if hash == formHash "sysl_rc_systeminstrs" && w.getSysOp == GCSSS2 then some .gcsss2
  else none

end GabyVm.Aarch64

namespace GabyVm.Engine

open GabyVm.Aarch64
open GabyVm.Cache
open GabyVm.Foundation

variable {τ α : Type}

/-! ## The process -/

inductive ProcessAbort where
  | guest (reason : Abort)
  | gcs (fault : GcsFault)
  deriving DecidableEq, Repr

structure Member (τ : Type) where
  world : World τ
  gcs : GuardedControlStack

structure Process (τ : Type) where
  mteActive : Bool
  gcsManager : GCSManager
  memory : Memory
  /-- The shared cache; the leaves in it check tags as the switch says. -/
  cache : Bool → PredecodeCache
  members : Nat → Option (Member τ)

abbrev ProcessAct (τ α : Type) := Action ProcessAbort (Process τ) α

/-- The interpreter and the callbacks of each simulator, which keep to their simulator. -/
structure Embedding (τ : Type) where
  env : Bool → Env
  host : Nat → Host τ
  noExec : ∀ i, (host i).NoExec
  noRegister : ∀ i, (host i).Registers fun _ _ => False

namespace Process

def initial (memory : Memory) (cache : Bool → PredecodeCache) (mteActive : Bool) : Process τ where
  mteActive := mteActive
  gcsManager := .empty
  memory := memory
  cache := cache
  members _ := none

/-- A simulator with what it shares as it is now. -/
def load (p : Process τ) (m : Member τ) : World τ :=
  { m.world with
    sim := m.world.sim.setCore
      { m.world.core with memory := p.memory, gcs := p.gcsManager.storage m.gcs.ptr }
    cache := some (p.cache p.mteActive) }

def setMember (p : Process τ) (i : Nat) (m : Option (Member τ)) : Process τ :=
  { p with members := fun j => if j = i then m else p.members j }

def setManager (p : Process τ) (manager : GCSManager) : Process τ :=
  { p with gcsManager := manager }

def save (p : Process τ) (i : Nat) (g : GuardedControlStack) (w : World τ) : Process τ :=
  { p.setManager (p.gcsManager.setStorage g.ptr w.core.gcs) with
    memory := w.core.memory }.setMember i (some ⟨w, g⟩)

def saveOutcome (p : Process τ) (i : Nat) (g : GuardedControlStack) :
    Outcome Abort (World τ) Bool → Outcome ProcessAbort (Process τ) Bool
  | .ok more w => .ok more (p.save i g w)
  | .abort reason w => .abort (.guest reason) (p.save i g w)
  | .timeout => .timeout

end Process

/-- An action of one simulator; a simulator that is not there does nothing. -/
def onMember (i : Nat) (x : Act τ Bool) : ProcessAct τ Bool := fun p =>
  match p.members i with
  | none => .ok false p
  | some m => p.saveOutcome i m.gcs (x (p.load m))

/-! ## Steps -/

/-- The callbacks of an `Embedding` make no execution calls. -/
def withoutCalls (_ : ExecCall) : Act τ Bool := Action.timeout

/-- What a step does up to its visitor; the answer is for its end. -/
def enterVisit (E : Env) (track : Track) : Act τ Bool := fun w =>
  (dispatch E track w).bind fun found u =>
    .ok (lastInstrWasMovprfx u.core) (u.setCore (u.core.writeFormHash found.1))

/-- What the next step does to shared state, if anything. -/
def sharedVisit? (E : Env) (track : Track) (w : World τ) : Option SharedOp :=
  if w.core.isSimulationFinished then none
  else
    match dispatch E track w with
    | .ok found _ => sharedOp? found.1 w.core.instr
    | .abort _ _ => none
    | .timeout => none

/-- A stack switch, seen from the simulator that makes it. -/
def applySwitch (i : Nat) (m : Member τ) (rt : BitVec 5) (switch : GCSManager.Switch) :
    ProcessAct τ Bool := fun p =>
  match switch with
  | .fault fault => .abort (.gcs fault) p
  | .asserted condition => .abort (.guest (.check condition)) p
  | .failed manager => .abort (.guest .gcsFailed) (p.setManager manager)
  | .switched manager active result =>
      let c := match result with
        | none => m.world.core
        | some value => writeTransfer m.world.core rt value
      .ok true ((p.setManager manager).setMember i (some ⟨m.world.setCore c, active⟩))

/-- The visitor of an instruction that reaches shared state. -/
def SharedOp.visit (E : Env) (i : Nat) (word : Word) : SharedOp → ProcessAct τ Bool
  | .setActive value => fun p => .ok true { p with mteActive := value }
  | .gcsss1 => fun p =>
      match p.members i with
      | none => .ok false p
      | some m =>
          let c := (p.load m).core
          applySwitch i m word.getRt
            (p.gcsManager.gcsss1 c.gcsEnabled m.gcs (c.readXRegister word.getRt)) p
  | .gcsss2 => fun p =>
      match p.members i with
      | none => .ok false p
      | some m =>
          let c := (p.load m).core
          applySwitch i m word.getRt (p.gcsManager.gcsss2 c.gcsEnabled E.vixlDebug m.gcs) p

def stepMember (X : Embedding τ) (i : Nat) (track : Track) : ProcessAct τ Bool := fun p =>
  match p.members i with
  | none => .ok false p
  | some m =>
      let E := X.env p.mteActive
      match sharedVisit? E track (p.load m) with
      | none => onMember i (stepOnce E (X.host i) withoutCalls track) p
      | some op =>
          (onMember i (enterVisit E track) p).bind fun wasMovprfx q =>
            (SharedOp.visit E i (p.load m).core.instr op q).bind fun _ r =>
              onMember i (conclude E track wasMovprfx) r

/-! ## The operations of the embedder -/

def Process.fresh (p : Process τ) (stackTop : Addr) (t : τ) : World τ where
  sim := Sim.construct p.memory stackTop
  cache := some (p.cache p.mteActive)
  host := t
  events := []

/-- The constructor; the seal of the new stack is popped. -/
def construct (i : Nat) (stackTop : Addr) (t : τ) : ProcessAct τ Bool := fun p =>
  match p.members i with
  | some _ => .ok false p
  | none =>
      let gcs := p.gcsManager.allocateStackInternal.1
      let manager := p.gcsManager.allocateStackInternal.2
      let manager := manager.setStorage gcs.ptr (manager.storage gcs.ptr).tail
      .ok true ((p.setManager manager).setMember i (some ⟨p.fresh stackTop t, gcs⟩))

def writeMember (i : Nat) (r : RegisterWrite) : ProcessAct τ Bool :=
  onMember i fun w => (writeRegister r w).bind fun _ w => .ok true w

/-- The destructor frees the stack that is active then. -/
def destroy (i : Nat) : ProcessAct τ Bool := fun p =>
  match p.members i with
  | none => .ok false p
  | some m =>
      match p.gcsManager.freeStack m.gcs.token with
      | .error fault => .abort (.gcs fault) p
      | .ok manager => .ok true ((p.setManager manager).setMember i none)

inductive ProcessOp (τ : Type) where
  | construct (i : Nat) (stackTop : Addr) (t : τ)
  | write (i : Nat) (r : RegisterWrite)
  | step (i : Nat) (track : Track)
  | destroy (i : Nat)

namespace ProcessOp

def agent : ProcessOp τ → Nat
  | .construct i _ _ => i
  | .write i _ => i
  | .step i _ => i
  | .destroy i => i

def perform (X : Embedding τ) : ProcessOp τ → ProcessAct τ Bool
  | .construct i stackTop t => Engine.construct i stackTop t
  | .write i r => writeMember i r
  | .step i track => stepMember X i track
  | .destroy i => Engine.destroy i

end ProcessOp

/-! ## What a guest observes -/

/-- Memory that the guests write, no two of them the same byte. -/
structure Regions where
  own : Nat → Addr → Bool
  apart : ∀ i j a, own i a = true → own j a = true → i = j

namespace Regions

def region (R : Regions) (i : Nat) : Region := fun a => R.own i a = true

/-- The memory that others write. -/
def foreign (R : Regions) (i : Nat) : Region := fun a => ∃ j, j ≠ i ∧ R.own j a = true

end Regions

/-- A simulator with its own memory and zeros elsewhere. -/
def guestState (own : Addr → Bool) (w : World τ) : World τ :=
  w.setCore (w.core.withMemory fun a => if own a then w.core.memory a else 0)

def guests (X : Embedding τ) (R : Regions) :
    Agents Nat (ProcessOp τ) ProcessAbort (Process τ) Bool (Option (World τ)) where
  agent := ProcessOp.agent
  step := ProcessOp.perform X
  view i p := (p.members i).map fun m => guestState (R.own i) (p.load m)

end GabyVm.Engine
