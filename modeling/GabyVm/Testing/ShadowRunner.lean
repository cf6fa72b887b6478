import GabyVm.Engine.Initial
import GabyVm.Foundation.Watch

/-!
# The lockstep oracle

A `Runner` steps two simulators in turn over one guest memory, the first on the
cache track and the second on the debug track, and compares their registers
and the stores of each step.  The first difference becomes a report.
-/

namespace GabyVm.Testing

open GabyVm.Aarch64
open GabyVm.Cache
open GabyVm.Engine
open GabyVm.Foundation

/-! ## Reports -/

inductive DivergenceKind where
  | register
  | memoryWrite
  deriving DecidableEq, Repr

structure DivergenceReport where
  kind : DivergenceKind
  pc : Addr
  regIndex : Int
  regName : String
  fastLo : BitVec 64
  fastHi : BitVec 64
  refLo : BitVec 64
  refHi : BitVec 64
  memAddr : Addr
  memSize : Nat
  memFastLo : BitVec 64
  memFastHi : BitVec 64
  memRefLo : BitVec 64
  memRefHi : BitVec 64
  deriving DecidableEq, Repr

def fillRegReport (pc : Addr) (index : Int) (name : String) (fast ref : VRegisterValue) :
    DivergenceReport where
  kind := .register
  pc := pc
  regIndex := index
  regName := name
  fastLo := fast.lo
  fastHi := fast.hi
  refLo := ref.lo
  refHi := ref.hi
  memAddr := 0
  memSize := 0
  memFastLo := 0
  memFastHi := 0
  memRefLo := 0
  memRefHi := 0

/-! ## Comparing one step -/

/-- An item of the register comparison; only vector registers have a high half. -/
structure RegItem where
  index : Int
  name : String
  read : RegisterFile → VRegisterValue

def xItem (i : Fin 31) : RegItem := ⟨i, "X" ++ toString i.val, fun f => ⟨f.x i, 0⟩⟩

def vItem (i : Fin 32) : RegItem := ⟨i, "V" ++ toString i.val, fun f => f.v i⟩

def wideItem (name : String) (read : RegisterFile → BitVec 64) : RegItem :=
  ⟨-1, name, fun f => ⟨read f, 0⟩⟩

def sysItem (name : String) (read : RegisterFile → BitVec 32) : RegItem :=
  wideItem name fun f => (read f).setWidth 64

def regItems : List RegItem :=
  List.ofFn xItem ++ [wideItem "SP" (·.sp)] ++ List.ofFn vItem ++
    [wideItem "PC" (·.pc), sysItem "NZCV" (·.nzcv), sysItem "FPCR" (·.fpcr),
      sysItem "FPSR" (·.fpsr), sysItem "BType" (·.btype)]

def compareItem (pc : Addr) (fast ref : RegisterFile) (item : RegItem) :
    Option DivergenceReport :=
  if item.read fast ≠ item.read ref then
    some (fillRegReport pc item.index item.name (item.read fast) (item.read ref))
  else none

/-- What stands for the store that a shorter list does not have. -/
def noWrite : MemoryWriteEvent := ⟨0, 0, 0, 0⟩

/-- The report of a store that differs; the address is that of the first track, if it stored. -/
def fillWriteReport (pc : Addr) (fast ref : Option MemoryWriteEvent) : DivergenceReport where
  kind := .memoryWrite
  pc := pc
  regIndex := -1
  regName := ""
  fastLo := 0
  fastHi := 0
  refLo := 0
  refHi := 0
  memAddr := (fast.getD (ref.getD noWrite)).address
  memSize := (fast.getD (ref.getD noWrite)).size
  memFastLo := (fast.getD noWrite).valueLo
  memFastHi := (fast.getD noWrite).valueHi
  memRefLo := (ref.getD noWrite).valueLo
  memRefHi := (ref.getD noWrite).valueHi

def compareWrite (pc : Addr) (fast ref : List MemoryWriteEvent) (i : Nat) :
    Option DivergenceReport :=
  if fast[i]?.getD noWrite ≠ ref[i]?.getD noWrite then
    some (fillWriteReport pc fast[i]? ref[i]?)
  else none

def compareMemoryWrites (pc : Addr) (fast ref : List MemoryWriteEvent) :
    Option DivergenceReport :=
  (List.range (max fast.length ref.length)).findSome? (compareWrite pc fast ref)

/-! ## The runner -/

/-- A simulator whose observer lists the stores of the current step. -/
abbrev Watched := World (List MemoryWriteEvent)

/-- The calls that a runner makes, of its simulators and of the installed handler. -/
inductive RunnerCall where
  | stepOnce
  | debugStepOnce
  | handler (report : DivergenceReport)
  deriving DecidableEq, Repr

/-- What the simulators of one process share: guest memory and the switch of memory tagging. -/
structure Shared where
  memory : Memory
  mteActive : Bool

def sharedOf (w : Watched) : Shared := ⟨w.core.memory, w.core.mteActive⟩

/-- `ShadowRunner::Impl`. -/
structure Runner where
  fast : Watched
  ref : Watched
  shared : sharedOf ref = sharedOf fast
  /-- A handler of the embedder replaces the one that aborts. -/
  handlerInstalled : Bool
  /-- The calls made so far, in their order. -/
  calls : List RunnerCall

inductive RunnerAbort where
  | simulator (reason : Abort)
  /-- The default handler dumps the report and aborts. -/
  | divergence (report : DivergenceReport)
  deriving DecidableEq, Repr

abbrev RunnerAct (α : Type) := Action RunnerAbort Runner α

def withShared (w : Watched) (s : Shared) : Watched :=
  w.setCore { w.core with memory := s.memory, mteActive := s.mteActive }

def clearWrites (w : Watched) : Watched := { w with host := [] }

@[simp] theorem sharedOf_withShared (w : Watched) (s : Shared) :
    sharedOf (withShared w s) = s := rfl

@[simp] theorem withShared_readAll (w : Watched) (s : Shared) :
    (withShared w s).sim.readAll = w.sim.readAll := rfl

@[simp] theorem withShared_host (w : Watched) (s : Shared) :
    (withShared w s).host = w.host := rfl

namespace Runner

/-- The constructor: the first simulator has the cache, the second has none. -/
def construct (cache : Option PredecodeCache) (mem : Memory) (stackTop : Addr) : Runner where
  fast := ⟨Sim.construct mem stackTop, cache, [], []⟩
  ref := ⟨Sim.construct mem stackTop, none, [], []⟩
  shared := rfl
  handlerInstalled := false
  calls := []

def setDivergenceHandler (r : Runner) (installed : Bool) : Runner :=
  { r with handlerInstalled := installed }

/-- Write the entry to both program counters. -/
def seat (r : Runner) (entry : Addr) : Runner :=
  { r with
    fast := r.fast.setCore (r.fast.core.writePc entry)
    ref := r.ref.setCore (r.ref.core.writePc entry)
    shared := r.shared }

def clear (r : Runner) : Runner :=
  { r with fast := clearWrites r.fast, ref := clearWrites r.ref, shared := r.shared }

/-- The runner after a step of the first simulator. -/
def setFast (r : Runner) (w : Watched) : Runner where
  fast := w
  ref := withShared r.ref (sharedOf w)
  shared := rfl
  handlerInstalled := r.handlerInstalled
  calls := r.calls ++ [.stepOnce]

def setRef (r : Runner) (w : Watched) : Runner where
  fast := withShared r.fast (sharedOf w)
  ref := w
  shared := rfl
  handlerInstalled := r.handlerInstalled
  calls := r.calls ++ [.debugStepOnce]

def logHandler (r : Runner) (report : DivergenceReport) : Runner :=
  { r with calls := r.calls ++ [.handler report] }

end Runner

def compareStep (pc : Addr) (r : Runner) : Option DivergenceReport :=
  (regItems.findSome? (compareItem pc r.fast.sim.readAll r.ref.sim.readAll)).or
    (compareMemoryWrites pc r.fast.host r.ref.host)

section RunFrom

variable (stepFast stepRef : Act (List MemoryWriteEvent) Bool)

def runFast : RunnerAct Bool := fun r =>
  match stepFast r.fast with
  | .ok alive w => .ok alive (r.setFast w)
  | .abort reason w => .abort (.simulator reason) (r.setFast w)
  | .timeout => .timeout

def runRef : RunnerAct Bool := fun r =>
  match stepRef r.ref with
  | .ok alive w => .ok alive (r.setRef w)
  | .abort reason w => .abort (.simulator reason) (r.setRef w)
  | .timeout => .timeout

/-- Step both simulators once; who of them was alive. -/
def runRound : RunnerAct (Bool × Bool) := do
  Action.modify Runner.clear
  let fastAlive ← runFast stepFast
  let refAlive ← runRef stepRef
  pure (fastAlive, refAlive)

/-- The three ways out of the loop. -/
inductive RunnerEnd where
  | terminated
  | diverged (report : DivergenceReport)
  | oneTerminated
  deriving DecidableEq, Repr

def checkRound (before : Runner) (alive : Bool × Bool) (after : Runner) : Option RunnerEnd :=
  if !alive.1 && !alive.2 then some .terminated
  else
    match compareStep before.fast.core.pc after with
    | some report => some (.diverged report)
    | none => if !alive.1 || !alive.2 then some .oneTerminated else none

def callHandler (report : DivergenceReport) : RunnerAct Unit := fun r =>
  if r.handlerInstalled then .ok () (r.logHandler report) else .abort (.divergence report) r

/-- `RunFrom`, with the way it left the loop. -/
def runnerRunFrom (fuel : Nat) (entry : Addr) : RunnerAct RunnerEnd := do
  Action.modify (·.seat entry)
  let reason ← watch (runRound stepFast stepRef) checkRound fuel
  match reason with
  | .diverged report => callHandler report
  | _ => pure ()
  pure reason

end RunFrom

/-! ## The tracks of the library -/

/-- The callbacks of a runner's simulators: the observer lists the stores. -/
def runnerHost (hook : Option (Addr → HostProg (List MemoryWriteEvent) Addr)) :
    Host (List MemoryWriteEvent) where
  branchHook := hook
  memoryWriteObserver := some fun event =>
    .getHost fun writes => .setHost (writes ++ [event]) (.ret ())

/-- `StepOnce` without a branch hook. -/
def fastStep (E : Env) : Act (List MemoryWriteEvent) Bool :=
  runCall E (runnerHost none) 1 (.stepOnce .cache)

/-- `DebugStepOnce` without a branch hook. -/
def refStep (E : Env) : Act (List MemoryWriteEvent) Bool :=
  runCall E (runnerHost none) 1 (.stepOnce .debug)

end GabyVm.Testing
