import GabyVm.Engine.Step
import GabyVm.Foundation.Schedule

/-!
# Execution calls

Every execution call runs inside a scope.  The outermost call marks the
simulator busy and leaves the cursor where the run ended; a nested call saves
the cursor on entry and restores it on return.  Each call sets the trace mask
of its track for its own duration.  `runCall` ties the knot between steps and
the calls that host callbacks make; its fuel bounds the nesting depth and the
length of every loop.
-/

namespace GabyVm.Engine

open GabyVm.Aarch64
open GabyVm.Cache
open GabyVm.Foundation

variable {τ : Type}

/-! ## The scope -/

/-- What the scope does on entry, with the trace mask of the call. -/
def Sim.enter (s : Sim) (parameters : BitVec 32) : Sim :=
  { s with busy := true, trace := s.trace.set parameters }

/-- What the scope does on exit, given the simulator as it was on entry. -/
def Sim.leave (s entered : Sim) : Sim :=
  let s := { s with trace := s.trace.set entered.trace.parameters }
  if entered.busy then s.restoreCursor entered.saveCursor
  else { s with busy := false }

def executionScope (parameters : BitVec 32) (body : Act τ Bool) : Act τ Bool := fun w =>
  (body { w with sim := w.sim.enter parameters }).bind fun more w' =>
    .ok more { w' with sim := w'.sim.leave w.sim }

/-- The trace mask of a call: none on the cache track. -/
def traceMask (track : Track) (w : World τ) : BitVec 32 :=
  match track with
  | .cache => 0
  | .debug => w.sim.traceParameters

/-- The world in which a call with an entry takes its first step. -/
def World.seated (w : World τ) (track : Track) (entry : Addr) : World τ :=
  let entered := { w with sim := w.sim.enter (traceMask track w) }
  entered.setCore (entered.core.writePc entry)

/-! ## The calls -/

section Calls

variable (E : Env) (H : Host τ) (nested : ExecCall → Act τ Bool) (fuel : Nat)

/-- What a call does inside its scope. -/
def callBody : ExecCall → Act τ Bool
  | .runFrom track entry => do
      modifyCore (·.writePc entry)
      loop (stepOnce E H nested track) fuel
      pure true
  | .stepOnce track => stepOnce E H nested track
  | .stepOnceFrom track entry => do
      modifyCore (·.writePc entry)
      stepOnce E H nested track

def execCall (call : ExecCall) : Act τ Bool := fun w =>
  if call.track = .cache ∧ w.cache.isNone then .abort (.noPredecodeCache call.name) w
  else executionScope (traceMask call.track w) (callBody E H nested fuel call) w

end Calls

/-- An execution call whose callbacks may make execution calls in turn. -/
def runCall (E : Env) (H : Host τ) : Nat → ExecCall → Act τ Bool
  | 0, _ => Action.timeout
  | fuel + 1, call => execCall E H (runCall E H fuel) fuel call

end GabyVm.Engine
