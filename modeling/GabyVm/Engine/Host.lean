import GabyVm.Engine.Simulator

/-!
# Host callbacks

The branch hook and the memory-write observer are programs of the embedder.
A `HostProg` may read and write guest registers and memory, keep state of its
own, register code, set the trace mask, and call back into the simulator.  Its
meaning is an action on the `World`: one simulator, the cache it is attached
to, the state of the host, and a log of the callbacks made so far.
-/

namespace GabyVm.Engine

open GabyVm.Aarch64
open GabyVm.Cache
open GabyVm.Foundation

/-! ## Execution calls -/

inductive Track where
  | cache
  | debug
  deriving DecidableEq, Repr

/-- The execution calls of the embedding API, for both tracks. -/
inductive ExecCall where
  | runFrom (track : Track) (entry : Addr)
  | stepOnce (track : Track)
  | stepOnceFrom (track : Track) (entry : Addr)
  deriving DecidableEq, Repr

namespace ExecCall

def track : ExecCall → Track
  | .runFrom t _ => t
  | .stepOnce t => t
  | .stepOnceFrom t _ => t

/-- The program counter an entry form seats. -/
def entry? : ExecCall → Option Addr
  | .runFrom _ entry => some entry
  | .stepOnce _ => none
  | .stepOnceFrom _ entry => some entry

def name : ExecCall → String
  | .runFrom _ _ => "RunFrom"
  | .stepOnce _ => "StepOnce"
  | .stepOnceFrom _ _ => "StepOnce"

end ExecCall

/-! ## Programs of the host -/

inductive HostProg (τ : Type) (α : Type) where
  | ret (a : α)
  | getHost (next : τ → HostProg τ α)
  | setHost (t : τ) (next : HostProg τ α)
  | readAll (next : RegisterFile → HostProg τ α)
  | write (w : RegisterWrite) (next : HostProg τ α)
  | readMemory (a : Addr) (next : BitVec 8 → HostProg τ α)
  | writeMemory (a : Addr) (b : BitVec 8) (next : HostProg τ α)
  | exec (call : ExecCall) (next : Bool → HostProg τ α)
  | registerCodeRange (start sizeBytes : Addr) (alloc : PredecodeCache.Allocation)
      (next : Option RegistrationStatus → HostProg τ α)
  | setTraceParameters (parameters : BitVec 32) (next : HostProg τ α)

/-- The callbacks an embedder has installed. -/
structure Host (τ : Type) where
  branchHook : Option (Addr → HostProg τ Addr)
  memoryWriteObserver : Option (MemoryWriteEvent → HostProg τ Unit)

/-! ## The world -/

/-- A call of the branch hook: where the branch stands, and what the hook sees. -/
structure BranchEvent where
  pc : Addr
  target : Addr
  file : RegisterFile

inductive HostEvent where
  | branch (event : BranchEvent)
  | memoryWrite (event : MemoryWriteEvent)

structure World (τ : Type) where
  sim : Sim
  cache : Option PredecodeCache
  host : τ
  /-- The callbacks made so far, latest first. -/
  events : List HostEvent

abbrev Act (τ : Type) (α : Type) := Action Abort (World τ) α

namespace World

variable {τ : Type}

def core (w : World τ) : Core := w.sim.core

def setCore (w : World τ) (c : Core) : World τ := { w with sim := w.sim.setCore c }

def log (w : World τ) (e : HostEvent) : World τ := { w with events := e :: w.events }

def writeByte (w : World τ) (a : Addr) (b : BitVec 8) : World τ :=
  w.setCore { w.core with memory := fun a' => if a' = a then b else w.core.memory a' }

/-- Registration reads the guest memory as it is now. -/
def register (E : Env) (w : World τ) (start sizeBytes : Addr)
    (alloc : PredecodeCache.Allocation) : Option RegistrationStatus × World τ :=
  match w.cache with
  | none => (none, w)
  | some cache =>
      let result := cache.registerCodeRange E w.core.memory start sizeBytes alloc
      (some result.1, { w with cache := some result.2 })

def setTraceParameters (w : World τ) (parameters : BitVec 32) : World τ :=
  { w with sim := { w.sim with traceParameters := parameters } }

@[simp] theorem core_setCore (w : World τ) (c : Core) : (w.setCore c).core = c := rfl

@[simp] theorem setCore_setCore (w : World τ) (c c' : Core) :
    (w.setCore c).setCore c' = w.setCore c' := rfl

@[simp] theorem core_log (w : World τ) (e : HostEvent) : (w.log e).core = w.core := rfl

@[simp] theorem cache_setCore (w : World τ) (c : Core) : (w.setCore c).cache = w.cache := rfl

@[simp] theorem host_setCore (w : World τ) (c : Core) : (w.setCore c).host = w.host := rfl

@[simp] theorem events_setCore (w : World τ) (c : Core) :
    (w.setCore c).events = w.events := rfl

end World

/-! ## Meaning of host programs -/

section Run

variable {τ : Type} {α : Type} (E : Env) (nested : ExecCall → Act τ Bool)

def writeRegister (r : RegisterWrite) : Act τ Unit := fun w =>
  match w.sim.write r with
  | .ok s => .ok () { w with sim := s }
  | .error e => .abort e w

/-- Run a host program, with `nested` as the meaning of its execution calls. -/
def HostProg.run : HostProg τ α → Act τ α
  | .ret a => pure a
  | .getHost next => fun w => (next w.host).run w
  | .setHost t next => fun w => next.run { w with host := t }
  | .readAll next => fun w => (next w.sim.readAll).run w
  | .write r next => fun w => (writeRegister r w).bind fun _ w => next.run w
  | .readMemory a next => fun w => (next (w.core.memory a)).run w
  | .writeMemory a b next => fun w => next.run (w.writeByte a b)
  | .exec call next => fun w => (nested call w).bind fun more w => (next more).run w
  | .registerCodeRange start sizeBytes alloc next => fun w =>
      let result := w.register E start sizeBytes alloc
      (next result.1).run result.2
  | .setTraceParameters parameters next => fun w =>
      next.run (w.setTraceParameters parameters)

end Run

/-! ## Classes of host programs -/

/-- Only these execution calls and only these register writes are made. -/
inductive HostProg.Within {τ α : Type} (calls : ExecCall → Prop)
    (writes : RegisterWrite → Prop) : HostProg τ α → Prop where
  | ret (a : α) : Within calls writes (.ret a)
  | getHost {next : τ → HostProg τ α} (h : ∀ t, Within calls writes (next t)) :
      Within calls writes (.getHost next)
  | setHost {t : τ} {next : HostProg τ α} (h : Within calls writes next) :
      Within calls writes (.setHost t next)
  | readAll {next : RegisterFile → HostProg τ α} (h : ∀ f, Within calls writes (next f)) :
      Within calls writes (.readAll next)
  | write {r : RegisterWrite} {next : HostProg τ α} (hr : writes r)
      (h : Within calls writes next) : Within calls writes (.write r next)
  | readMemory {a : Addr} {next : BitVec 8 → HostProg τ α}
      (h : ∀ b, Within calls writes (next b)) : Within calls writes (.readMemory a next)
  | writeMemory {a : Addr} {b : BitVec 8} {next : HostProg τ α}
      (h : Within calls writes next) : Within calls writes (.writeMemory a b next)
  | exec {call : ExecCall} {next : Bool → HostProg τ α} (hcall : calls call)
      (h : ∀ more, Within calls writes (next more)) : Within calls writes (.exec call next)
  | registerCodeRange {start sizeBytes : Addr} {alloc : PredecodeCache.Allocation}
      {next : Option RegistrationStatus → HostProg τ α}
      (h : ∀ r, Within calls writes (next r)) :
      Within calls writes (.registerCodeRange start sizeBytes alloc next)
  | setTraceParameters {parameters : BitVec 32} {next : HostProg τ α}
      (h : Within calls writes next) :
      Within calls writes (.setTraceParameters parameters next)

structure Host.Within {τ : Type} (H : Host τ) (calls : ExecCall → Prop)
    (writes : RegisterWrite → Prop) : Prop where
  branchHook : ∀ hook, H.branchHook = some hook →
    ∀ target, (hook target).Within calls writes
  observer : ∀ obs, H.memoryWriteObserver = some obs →
    ∀ event, (obs event).Within calls writes

/-- No callback of the host makes an execution call. -/
abbrev Host.NoExec {τ : Type} (H : Host τ) : Prop :=
  H.Within (fun _ => False) (fun _ => True)

/-- A write that leaves the program counter and the branch type alone. -/
def RegisterWrite.KeepsPosition : RegisterWrite → Prop
  | .gp code _ => code ≠ gpPC
  | .v _ _ => True
  | .sys code _ => code ≠ sysBType

/--
The callback contract: typed reads, writes that keep the position, and
execution calls in an entry form only.
-/
abbrev Host.Contract {τ : Type} (H : Host τ) : Prop :=
  H.Within (fun call => call.entry?.isSome = true) RegisterWrite.KeepsPosition

theorem HostProg.Within.mono {τ α : Type} {calls calls' : ExecCall → Prop}
    {writes writes' : RegisterWrite → Prop} {p : HostProg τ α} (h : p.Within calls writes)
    (hcalls : ∀ call, calls call → calls' call) (hwrites : ∀ r, writes r → writes' r) :
    p.Within calls' writes' := by
  induction h with
  | ret a => exact .ret a
  | getHost _ ih => exact .getHost ih
  | setHost _ ih => exact .setHost ih
  | readAll _ ih => exact .readAll ih
  | write hr _ ih => exact .write (hwrites _ hr) ih
  | readMemory _ ih => exact .readMemory ih
  | writeMemory _ ih => exact .writeMemory ih
  | exec hcall _ ih => exact .exec (hcalls _ hcall) ih
  | registerCodeRange _ ih => exact .registerCodeRange ih
  | setTraceParameters _ ih => exact .setTraceParameters ih

theorem Host.Within.anyWrites {τ : Type} {H : Host τ} {calls : ExecCall → Prop}
    {writes : RegisterWrite → Prop} (h : H.Within calls writes) :
    H.Within calls (fun _ => True) where
  branchHook hook hhook target :=
    (h.branchHook hook hhook target).mono (fun _ hcall => hcall) (fun _ _ => trivial)
  observer obs hobs event :=
    (h.observer obs hobs event).mono (fun _ hcall => hcall) (fun _ _ => trivial)

theorem HostProg.within_true {τ α : Type} (p : HostProg τ α) :
    p.Within (fun _ => True) (fun _ => True) := by
  induction p with
  | ret a => exact .ret a
  | getHost next ih => exact .getHost ih
  | setHost t next ih => exact .setHost ih
  | readAll next ih => exact .readAll ih
  | write r next ih => exact .write trivial ih
  | readMemory a next ih => exact .readMemory ih
  | writeMemory a b next ih => exact .writeMemory ih
  | exec call next ih => exact .exec trivial ih
  | registerCodeRange start sizeBytes alloc next ih => exact .registerCodeRange ih
  | setTraceParameters parameters next ih => exact .setTraceParameters ih

theorem Host.within_true {τ : Type} (H : Host τ) :
    H.Within (fun _ => True) (fun _ => True) where
  branchHook hook _ target := (hook target).within_true
  observer obs _ event := (obs event).within_true

end GabyVm.Engine
