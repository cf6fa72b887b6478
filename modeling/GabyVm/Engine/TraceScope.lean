import GabyVm.Engine.NestedRuns

/-!
# Trace configuration across nested calls

Each execution call sets the trace mask of its track for its own duration.
Every moment at which guest code runs directly under a call is followed here:
the start of a visitor, the continuation of a leaf after an observer has
returned, and that of a branch after the hook has.  Whatever the callbacks do
in between, the mask is the call's own, and a call that returns leaves the mask
and the visitor list as it found them.
-/

namespace GabyVm.Engine

open GabyVm.Aarch64
open GabyVm.Foundation

variable {τ : Type} {E : Env} {H : Host τ} {nested : ExecCall → Act τ Bool} {fuel : Nat}

/-! ## The visitor list -/

/-- What an iteration that stands at `v` has left to visit, if the list is now this one. -/
def remaining (v : DecoderVisitor) (visitors : List DecoderVisitor) : List DecoderVisitor :=
  (visitors.dropWhile (· ≠ v)).tail

/-- The list of a trace mask; callbacks run while the simulator is visited. -/
structure VisitorList (t : Tracing) : Prop where
  visitors : t.visitors = visitorsFor t.parameters
  disassembler : t.visitors.count .printDisassembler = if logDisasm t.parameters then 1 else 0
  remaining : remaining .simulator t.visitors = []

theorem visitorList (t : Tracing) : VisitorList t := by
  refine ⟨t.visitors_eq, ?_, ?_⟩ <;>
    · rw [t.visitors_eq, visitorsFor]
      cases logDisasm t.parameters <;> decide

/-! ## Moments of a step -/

section Moments

variable (E : Env) (H : Host τ) (nested : ExecCall → Act τ Bool)

/-- A leaf starts or goes on in the second world when it is run in the first. -/
inductive LeafMoment : LeafProg → World τ → World τ → Prop where
  | now (p : LeafProg) (w : World τ) : LeafMoment p w w
  | observed {event : MemoryWriteEvent} {c : Core} {next : Core → LeafProg} {w v u : World τ}
      (h : notifyStore E H nested event (w.setCore c) = .ok () v)
      (later : LeafMoment (next v.core) v u) : LeafMoment (.store event c next) w u

inductive VisitorMoment (v : Visitor) (word : Word) (w : World τ) : World τ → Prop where
  | start : VisitorMoment v word w w
  | leaf {run : Word → Core → LeafProg} {u : World τ} (hv : v = .leaf run)
      (h : LeafMoment E H nested (run word w.core) w u) : VisitorMoment v word w u
  | hooked {target next : Addr} {c : Core} {hook : Addr → HostProg τ Addr} {u : World τ}
      (hstep : v.branchStep E word w.core = some (.commit target c))
      (hhook : H.branchHook = some hook)
      (h : (hook target).run E nested
        ((w.setCore c).log (.branch (branchEvent (w.setCore c) target))) = .ok next u) :
      VisitorMoment v word w u

/-- Guest code of the step of `w` runs in `u`. -/
inductive StepMoment (track : Track) (w : World τ) : World τ → Prop where
  | before : StepMoment track w w
  | visitor {found : Found} {x u : World τ} (hfound : dispatch E track w = .ok found x)
      (h : VisitorMoment E H nested found.2 w.core.instr
        (x.setCore (visitCore w.core found.1)) u) : StepMoment track w u

end Moments

/-- Guest code runs in `u` directly under a call that is made in `w`. -/
def DirectMoment (E : Env) (H : Host τ) (fuel : Nat) (call : ExecCall) (w u : World τ) : Prop :=
  ∃ n x,
    Reaches (List.replicate n (stepOnce E H (runCall E H fuel) call.track)) (w.start call) x ∧
    StepMoment E H (runCall E H fuel) call.track x u

/-! ## A call restores the configuration -/

theorem leave_trace (s entered : Sim) : (s.leave entered).trace = entered.trace := by
  apply Tracing.ext_parameters
  simp only [Sim.leave]
  split_ifs <;> rfl

theorem runCall_trace (E : Env) (H : Host τ) (fuel : Nat) (call : ExecCall) (w : World τ) :
    (runCall E H fuel call w).Ensures (fun _ v => v.sim.trace = w.sim.trace)
      (fun _ _ => True) := by
  cases fuel with
  | zero => trivial
  | succ fuel =>
      cases hcall : runCall E H (fuel + 1) call w with
      | ok more v =>
          obtain ⟨x, -, rfl⟩ := execCall_eq_ok hcall
          exact leave_trace x.sim w.sim
      | abort reason v => trivial
      | timeout => trivial

/-! ## Nothing else changes it -/

theorem keepsTrace (E : Env) (t : Tracing) :
    StepInvariant E (fun _ => True) (fun w : World τ => w.sim.trace = t) (fun _ _ => True) where
  setHost w _ h := h
  write r w _ h := writeRegister_ensures r (fun _ => h) (fun _ => h) (fun _ _ => trivial)
  writeByte w a b h := h
  register w start sizeBytes alloc h := by
    unfold World.register
    cases w.cache <;> exact h
  setTraceParameters w parameters h := h
  setCore w c h := h
  logStore w event h := h
  aborted e w _ _ := trivial

theorem nested_trace (E : Env) (H : Host τ) (fuel : Nat) (t : Tracing) (call : ExecCall) :
    True → ∀ w, w.sim.trace = t →
      (runCall E H fuel call w).Ensures (fun _ v => v.sim.trace = t) (fun _ _ => True) := by
  intro _ w hw
  exact (runCall_trace E H fuel call w).mono (fun _ _ hv => hv.trans hw) (fun _ _ _ => trivial)

theorem dispatch_trace {track : Track} {w u : World τ} {found : Found}
    (h : dispatch E track w = .ok found u) :
    u.sim.trace = w.sim.trace := by
  obtain ⟨_, _, rfl⟩ := dispatch_begun h
  rfl

theorem stepOnce_trace (t : Tracing) (track : Track) {w : World τ} (hw : w.sim.trace = t) :
    (stepOnce E H (runCall E H fuel) track w).Ensures (fun _ v => v.sim.trace = t)
      (fun _ _ => True) :=
  (keepsTrace E t).stepOnce H.within_true (nested_trace E H fuel t) track
    (fun _ _ _ hfound hu => (dispatch_trace hfound).trans hu) (fun _ _ hu => hu) hw

theorem leafMoment_trace {t : Tracing} {p : LeafProg} {w u : World τ}
    (h : LeafMoment E H (runCall E H fuel) p w u) (hw : w.sim.trace = t) :
    u.sim.trace = t := by
  induction h with
  | now p w => exact hw
  | @observed event c _ w _ _ hnotify _ ih =>
      have hstored : (w.setCore c).sim.trace = t := hw
      exact ih (((keepsTrace E t).notifyStore H.within_true (nested_trace E H fuel t) event
        hstored).of_eq_ok hnotify)

theorem visitorMoment_trace {t : Tracing} {v : Visitor} {word : Word} {w u : World τ}
    (h : VisitorMoment E H (runCall E H fuel) v word w u) (hw : w.sim.trace = t) :
    u.sim.trace = t := by
  cases h with
  | start => exact hw
  | leaf _ hleaf => exact leafMoment_trace hleaf hw
  | @hooked target _ c hook _ _ hhook hrun =>
      have hasked : ((w.setCore c).log
          (.branch (branchEvent (w.setCore c) target))).sim.trace = t := hw
      exact ((keepsTrace E t).toHostInvariant.run (H.within_true.branchHook hook hhook target)
        (nested_trace E H fuel t) hasked).of_eq_ok hrun

theorem stepMoment_trace {t : Tracing} {track : Track} {w u : World τ}
    (h : StepMoment E H (runCall E H fuel) track w u) (hw : w.sim.trace = t) :
    u.sim.trace = t := by
  cases h with
  | before => exact hw
  | visitor hfound hvisitor =>
      exact visitorMoment_trace hvisitor ((dispatch_trace hfound).trans hw)

theorem start_parameters (w : World τ) (call : ExecCall) :
    (w.start call).sim.trace.parameters = traceMask call.track w := by
  unfold World.start
  cases call.entry? <;> rfl

/--
Guest code directly under a call runs with the call's own trace mask, which is
0 on the cache track and on the debug track the one configured when the call
started; the visitor list is always the one of the mask in force; and a call
that returns leaves both as they were.
-/
structure TraceContained (E : Env) (H : Host τ) (fuel : Nat) (call : ExecCall) (w : World τ) :
    Prop where
  cacheTrack : call.track = .cache → ∀ u, DirectMoment E H fuel call w u →
    u.sim.trace.parameters = 0
  debugTrack : call.track = .debug → ∀ u, DirectMoment E H fuel call w u →
    u.sim.trace.parameters = w.sim.traceParameters
  lists : ∀ u : World τ, VisitorList u.sim.trace
  returns : ∀ more v, runCall E H (fuel + 1) call w = .ok more v → v.sim.trace = w.sim.trace

theorem directMoment_parameters {call : ExecCall} {w u : World τ}
    (h : DirectMoment E H fuel call w u) :
    u.sim.trace.parameters = traceMask call.track w := by
  obtain ⟨n, x, hreach, hmoment⟩ := h
  have hx : x.sim.trace = (w.start call).sim.trace := by
    refine hreach.invariant (P := fun y => y.sim.trace = (w.start call).sim.trace) ?_ rfl
    intro step hstep y z hy hz
    obtain rfl := List.eq_of_mem_replicate hstep
    exact (stepOnce_trace _ call.track hy).of_eq_ok hz
  rw [stepMoment_trace hmoment hx]
  exact start_parameters w call

theorem traceContained (E : Env) (H : Host τ) (fuel : Nat) (call : ExecCall) (w : World τ) :
    TraceContained E H fuel call w where
  cacheTrack htrack u hu := by
    rw [directMoment_parameters hu, htrack]
    rfl
  debugTrack htrack u hu := by
    rw [directMoment_parameters hu, htrack]
    rfl
  lists u := visitorList u.sim.trace
  returns more v hcall := (runCall_trace E H (fuel + 1) call w).of_eq_ok hcall

end GabyVm.Engine
