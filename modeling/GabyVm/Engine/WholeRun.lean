import GabyVm.Engine.MoreFuel
import GabyVm.Engine.Reachable

/-!
# A whole run and its steps

A run opens one scope for all of its instructions, where an embedder that steps
opens and closes one for each.  Inside a step the two differ only in the trace
mask, which nothing but the printing of the disassembly reads; between the
steps they differ in the busy flag as well.  Callbacks see neither, so that
both go through the same guest states and make the same callbacks.
-/

namespace GabyVm.Engine

open GabyVm.Aarch64
open GabyVm.Cache
open GabyVm.Foundation

variable {τ : Type} {E : Env} {H : Host τ} {fuel : Nat}

/-! ## Worlds with different trace masks -/

/-- The worlds differ at most in the trace configuration. -/
def Retraced (w w' : World τ) : Prop :=
  ∃ trace, w' = { w with sim := { w.sim with trace := trace } }

theorem Retraced.refl (w : World τ) : Retraced w w := ⟨_, rfl⟩

theorem retraced_visitRel (E : Env) : VisitRel E (Retraced (τ := τ)) Retraced where
  core w w' h := by
    obtain ⟨_, rfl⟩ := h
    rfl
  host w w' h := by
    obtain ⟨_, rfl⟩ := h
    rfl
  readAll w w' h := by
    obtain ⟨_, rfl⟩ := h
    rfl
  setCore w w' c h := by
    obtain ⟨_, rfl⟩ := h
    exact ⟨_, rfl⟩
  setHost w w' t h := by
    obtain ⟨_, rfl⟩ := h
    exact ⟨_, rfl⟩
  write r w w' h := by
    obtain ⟨_, rfl⟩ := h
    exact writeRegister_rel r rfl (fun _ => ⟨_, rfl⟩) (fun _ => ⟨_, rfl⟩) ⟨_, rfl⟩
  register w w' start sizeBytes alloc h := by
    obtain ⟨_, rfl⟩ := h
    obtain ⟨sim, cache, host, events⟩ := w
    cases cache with
    | none => exact ⟨rfl, _, rfl⟩
    | some cache => exact ⟨rfl, _, rfl⟩
  setTraceParameters w w' parameters h := by
    obtain ⟨_, rfl⟩ := h
    exact ⟨_, rfl⟩
  log w w' e h := by
    obtain ⟨_, rfl⟩ := h
    exact ⟨_, rfl⟩
  aborted w w' h := h
  cache w w' h := by
    obtain ⟨_, rfl⟩ := h
    rfl
  curRange w w' h := by
    obtain ⟨_, rfl⟩ := h
    rfl
  setRange w w' r h := by
    obtain ⟨_, rfl⟩ := h
    exact ⟨_, rfl⟩
  setAudit w w' f h := by
    obtain ⟨_, rfl⟩ := h
    exact ⟨_, rfl⟩

/-- The scope of a call gives both worlds its own mask, and gives each its old one back. -/
theorem runCall_retraced (E : Env) (H : Host τ) (fuel : Nat) (call : ExecCall) {w w' : World τ}
    (h : Retraced w w') :
    Outcome.Rel Retraced Retraced (runCall E H fuel call w) (runCall E H fuel call w') := by
  cases fuel with
  | zero => exact .timeout
  | succ fuel =>
      obtain ⟨trace, rfl⟩ := h
      generalize hw' : ({ w with sim := { w.sim with trace := trace } } : World τ) = w'
      have hentered : w'.entered call = w.entered call := by
        subst hw'
        have htrace : trace.set (traceMask call.track w) =
            w.sim.trace.set (traceMask call.track w) := Tracing.ext_parameters rfl
        simp only [World.entered, Sim.enter]
        rw [← htrace]
        cases call.track <;> rfl
      have hcache : w'.cache = w.cache := by rw [← hw']
      change Outcome.Rel Retraced Retraced (execCall E H (runCall E H fuel) fuel call w)
        (execCall E H (runCall E H fuel) fuel call w')
      unfold execCall
      rw [hcache]
      split_ifs
      · rw [← hw']
        exact .abort ⟨trace, rfl⟩
      · change Outcome.Rel Retraced Retraced
          ((callBody E H (runCall E H fuel) fuel call (w.entered call)).bind _)
          ((callBody E H (runCall E H fuel) fuel call (w'.entered call)).bind _)
        rw [hentered]
        cases callBody E H (runCall E H fuel) fuel call (w.entered call) with
        | ok more v =>
            refine .ok ⟨trace, ?_⟩
            have hset : v.sim.trace.set trace.parameters = trace := Tracing.ext_parameters rfl
            subst hw'
            simp only [Sim.leave, hset]
            cases w.sim.busy <;> rfl
        | abort reason v => exact .abort (.refl v)
        | timeout => exact .timeout

theorem stepOnce_retraced (E : Env) (H : Host τ) (fuel : Nat) (track : Track) {w w' : World τ}
    (h : Retraced w w') :
    Outcome.Rel Retraced Retraced (stepOnce E H (runCall E H fuel) track w)
      (stepOnce E H (runCall E H fuel) track w') := by
  refine (retraced_visitRel E).stepOnce H.within_true ?_ ?_ track h
  · intro call _ u u' hu
    exact runCall_retraced E H fuel call hu
  · rintro v v' ⟨_, rfl⟩
    rfl

/-! ## Between the steps -/

/-- The world as the embedder has it between two steps. -/
def World.outside (trace : Tracing) (w : World τ) : World τ :=
  { w with sim := { w.sim with busy := false, trace := trace } }

/-- Inside the scope of a run, and outside the scopes of its steps. -/
def Alongside (trace : Tracing) (w w' : World τ) : Prop :=
  w.sim.busy = true ∧ w' = w.outside trace

theorem outside_entered {trace : Tracing} {w : World τ} (hbusy : w.sim.busy = true)
    (call : ExecCall) :
    Retraced w ((w.outside trace).entered call) := by
  refine ⟨trace.set (traceMask call.track (w.outside trace)), ?_⟩
  simp only [World.entered, World.outside, Sim.enter]
  rw [← hbusy]

/-- A step of the run, and a call of `StepOnce`. -/
theorem stepOnce_alongside (E : Env) (H : Host τ) (fuel : Nat) {track : Track} {trace : Tracing}
    {w w' : World τ} (h : Alongside trace w w')
    (hcache : track = .cache → w.cache.isSome = true) :
    Outcome.Rel (Alongside trace) Retraced (stepOnce E H (runCall E H fuel) track w)
      (runCall E H (fuel + 1) (.stepOnce track) w') := by
  obtain ⟨hbusy, rfl⟩ := h
  have hattached : (ExecCall.stepOnce track).track = .cache → w.cache.isSome = true := hcache
  rw [runCall_attached (w := w.outside trace) hattached]
  have hstill := stepOnce_busy (E := E) (H := H) (fun call _ hv => runCall_busy E H fuel call hv)
    track hbusy
  rw [← Outcome.bind_ok_self (stepOnce E H (runCall E H fuel) track w)]
  refine (stepOnce_retraced E H fuel track (outside_entered hbusy (.stepOnce track))).bind ?_
  rintro more v v' hv - ⟨inner, rfl⟩
  rw [hv] at hstill
  refine .ok ⟨hstill, ?_⟩
  have hset : inner.set trace.parameters = trace := Tracing.ext_parameters rfl
  simp only [World.outside, Sim.leave, hset]
  rfl

/-! ## The cache stays attached -/

theorem keepsAttached (E : Env) (track : Track) :
    StepInvariant E (fun _ => True)
      (fun w : World τ => track = .cache → w.cache.isSome = true) (fun _ _ => True) where
  setHost w _ h := h
  write r w _ h := writeRegister_ensures r (fun _ => h) (fun _ => h) (fun _ _ => trivial)
  writeByte w a b h := h
  register w start sizeBytes alloc h := by
    unfold World.register
    cases hcache : w.cache with
    | none => simpa [hcache] using h
    | some cache => exact fun _ => rfl
  setTraceParameters w parameters h := h
  setCore w c h := h
  logStore w event h := h
  aborted e w _ _ := trivial

theorem dispatch_cache {track : Track} {w u : World τ} {found : Found}
    (h : dispatch E track w = .ok found u) :
    u.cache = w.cache := by
  obtain ⟨_, _, rfl⟩ := dispatch_begun h
  rfl

theorem runCall_keepsAttached (E : Env) (H : Host τ) (fuel : Nat) (track : Track)
    (call : ExecCall) {w : World τ} (hw : track = .cache → w.cache.isSome = true) :
    (runCall E H fuel call w).Ensures (fun _ v => track = .cache → v.cache.isSome = true)
      (fun _ _ => True) := by
  induction fuel generalizing call w with
  | zero => trivial
  | succ fuel ih =>
      have hbody : (callBody E H (runCall E H fuel) fuel call (w.entered call)).Ensures
          (fun _ v => track = .cache → v.cache.isSome = true) (fun _ _ => True) := by
        refine callBody_ensures call (fun u hu => ?_) (fun _ _ hu => hu) hw
        exact (keepsAttached E track).stepOnce H.within_true (fun call _ _ hv => ih call hv)
          call.track (fun _ _ _ hfound hv => by rwa [dispatch_cache hfound]) (fun _ _ hv => hv) hu
      cases hcall : runCall E H (fuel + 1) call w with
      | ok more w' =>
          obtain ⟨v, hv, rfl⟩ := execCall_eq_ok hcall
          have hattached := hbody.of_eq_ok hv
          exact hattached
      | abort reason w' => trivial
      | timeout => trivial

/-! ## The whole run -/

/-- `Write(PC, entry)`, then `StepOnce()` until it returns false. -/
def stepping (E : Env) (H : Host τ) (fuel n : Nat) (track : Track) (entry : Addr) :
    Act τ Unit := do
  writeRegister (.gp gpPC entry)
  loop (runCall E H fuel (.stepOnce track)) n

/-- The steps, made one call at a time, end in `v`. -/
def StepsTo (E : Env) (H : Host τ) (track : Track) (entry : Addr) (w v : World τ) : Prop :=
  ∃ fuel n, stepping E H fuel n track entry w = .ok () v

def RunsTo (E : Env) (H : Host τ) (track : Track) (entry : Addr) (w v : World τ) : Prop :=
  ∃ fuel more, runCall E H fuel (.runFrom track entry) w = .ok more v

theorem runFrom_stepping (E : Env) (H : Host τ) (fuel : Nat) {track : Track} {entry : Addr}
    {w : World τ} (hidle : w.sim.busy = false)
    (hcache : track = .cache → w.cache.isSome = true) :
    Outcome.Rel Eq Retraced (runCall E H (fuel + 1) (.runFrom track entry) w)
      ((stepping E H (fuel + 1) fuel track entry w).bind fun _ v => .ok true v) := by
  have hattached : (ExecCall.runFrom track entry).track = .cache → w.cache.isSome = true := hcache
  rw [runCall_attached hattached]
  have hstart : Alongside w.sim.trace (w.seated track entry)
      (w.setCore (w.core.writePc entry)) := by
    refine ⟨rfl, ?_⟩
    simp only [World.outside, World.setCore, Sim.setCore]
    rw [← hidle]
    rfl
  have hloop : Outcome.Rel (Alongside w.sim.trace) Retraced
      (loop (stepOnce E H (runCall E H fuel) track) fuel (w.seated track entry))
      (loop (runCall E H (fuel + 1) (.stepOnce track)) fuel
        (w.setCore (w.core.writePc entry))) := by
    refine loop_rel (P := fun u => track = .cache → u.cache.isSome = true) ?_ fuel hstart ?_
    · intro u u' hu huu'
      exact stepOnce_alongside E H fuel huu' hu
    · intro n u hu
      refine hu.invariant (P := fun u => track = .cache → u.cache.isSome = true) ?_ hcache
      intro step hstep x y hx hy
      obtain rfl := List.eq_of_mem_replicate hstep
      exact ((keepsAttached E track).stepOnce H.within_true
        (fun call _ _ hv => runCall_keepsAttached E H fuel track call hv) track
        (fun _ _ _ hfound hv => by rwa [dispatch_cache hfound]) (fun _ _ hv => hv)
        hx).of_eq_ok hy
  change Outcome.Rel Eq Retraced (((loop _ fuel (w.seated track entry)).bind _).bind _)
    ((loop _ fuel (w.setCore (w.core.writePc entry))).bind _)
  rw [Outcome.bind_assoc]
  refine hloop.bind ?_
  rintro _ v v' - - ⟨hbusy, rfl⟩
  refine .ok ?_
  have hset : v.sim.trace.set w.sim.trace.parameters = w.sim.trace := Tracing.ext_parameters rfl
  simp only [World.outside, Sim.leave, hset, hidle]
  rfl

theorem runCall_unattached {call : ExecCall} {w : World τ} (htrack : call.track = .cache)
    (hcache : w.cache = none) :
    runCall E H (fuel + 1) call w = .abort (.noPredecodeCache call.name) w := by
  rw [runCall, execCall, if_pos ⟨htrack, by rw [hcache]; rfl⟩]

theorem stepping_moreFuel (E : Env) (H : Host τ) {fuel fuel' n n' : Nat} (hfuel : fuel ≤ fuel')
    (hn : n ≤ n') (track : Track) (entry : Addr) (w : World τ) :
    Outcome.MoreFuel (stepping E H fuel n track entry w)
      (stepping E H fuel' n' track entry w) := by
  simp only [stepping, Action.bind_apply]
  refine (Outcome.MoreFuel.refl _).bind ?_
  intro _ v
  exact loop_moreFuel (fun u => runCall_moreFuel E H hfuel (.stepOnce track) u) hn v

/-- Steps that come to an end were given some fuel, and the cache that they need. -/
theorem stepping_eq_ok {n : Nat} {track : Track} {entry : Addr} {w v : World τ} {u : Unit}
    (h : stepping E H fuel n track entry w = .ok u v) :
    (∃ f, fuel = f + 1) ∧ (track = .cache → w.cache.isSome = true) := by
  have hloop : loop (runCall E H fuel (.stepOnce track)) n
      (w.setCore (w.core.writePc entry)) = .ok u v := h
  cases n with
  | zero => cases hloop
  | succ n =>
      obtain ⟨more, x, hfirst, -⟩ := Outcome.bind_eq_ok.mp hloop
      cases fuel with
      | zero => cases hfirst
      | succ f =>
          refine ⟨⟨f, rfl⟩, ?_⟩
          intro htrack
          cases hcache : w.cache with
          | some cache => rfl
          | none =>
              have hcall : (ExecCall.stepOnce track).track = .cache := htrack
              rw [runCall_unattached (w := w.setCore (w.core.writePc entry)) hcall hcache] at hfirst
              cases hfirst

/-- A step that answers `true` started at another program counter than null. -/
theorem stepOnce_true {track : Track} {w v : World τ}
    (h : runCall E H fuel (.stepOnce track) w = .ok true v) :
    w.core.pc ≠ 0 := by
  cases fuel with
  | zero => cases h
  | succ f =>
      obtain ⟨x, hbody, -⟩ := execCall_eq_ok h
      exact (stepOnce_eq_ok hbody).1

/-- A step that answers `false` found the null program counter, and changed nothing. -/
theorem stepOnce_false {track : Track} {w v : World τ}
    (h : runCall E H fuel (.stepOnce track) w = .ok false v) :
    v = w ∧ w.core.pc = 0 := by
  cases fuel with
  | zero => cases h
  | succ f =>
      obtain ⟨x, hbody, rfl⟩ := execCall_eq_ok h
      obtain rfl := stepOnce_eq_false hbody
      refine ⟨?_, ?_⟩
      · have hleave := leave_enter w.sim (traceMask track w)
        exact congrArg (fun s => ({ w with sim := s } : World τ)) hleave
      · by_contra hpc
        have hstep : stepOnce E H (runCall E H f) track
          (w.entered (.stepOnce track)) = .ok false _ := hbody
        have hentered : (w.entered (.stepOnce track)).core.pc ≠ 0 := hpc
        rw [stepOnce_eq E H (runCall E H f) hentered] at hstep
        obtain ⟨_, y, -, hend⟩ := Outcome.bind_eq_ok.mp hstep
        cases hend

/-- At the null program counter a step answers `false`. -/
theorem stepOnce_finished {track : Track} {w : World τ} (hpc : w.core.pc = 0)
    (hcache : track = .cache → w.cache.isSome = true) :
    runCall E H (fuel + 1) (.stepOnce track) w = .ok false w := by
  have hattached : (ExecCall.stepOnce track).track = .cache → w.cache.isSome = true := hcache
  rw [runCall_attached hattached]
  have hstep : stepOnce E H (runCall E H fuel) track (w.entered (.stepOnce track)) =
      .ok false (w.entered (.stepOnce track)) := by
    rw [stepOnce, if_pos]
    exact beq_iff_eq.mpr hpc
  have hleave := leave_enter w.sim (traceMask track w)
  change (stepOnce E H (runCall E H fuel) track (w.entered (.stepOnce track))).bind _ = _
  rw [hstep]
  exact congrArg (fun s => Outcome.ok false ({ w with sim := s } : World τ)) hleave

/--
The steps from `u` that answer `true` end in `v`: each of them started at
another program counter than null, the last one committed null, and any further
step answers `false` and changes nothing.
-/
structure EndsAtNull (E : Env) (H : Host τ) (track : Track) (u v : World τ) : Prop where
  steps : ∃ fuel n, Reaches (List.replicate n (runCall E H fuel (.stepOnce track))) u v ∧
    ∀ k < n, ∀ x, Reaches (List.replicate k (runCall E H fuel (.stepOnce track))) u x →
      x.core.pc ≠ 0
  null : v.core.pc = 0
  stays : ∀ fuel, runCall E H (fuel + 1) (.stepOnce track) v = .ok false v

theorem reaches_before {step : Act τ Bool} (hstep : ∀ x y, step x = .ok true y → x.core.pc ≠ 0)
    {n k : Nat} {u v x : World τ} (hv : Reaches (List.replicate n step) u v) (hk : k < n)
    (hx : Reaches (List.replicate k step) u x) :
    x.core.pc ≠ 0 := by
  induction k generalizing n u with
  | zero =>
      obtain ⟨m, rfl⟩ : ∃ m, n = m + 1 := ⟨n - 1, by omega⟩
      cases hx
      cases hv with
      | step hfirst _ => exact hstep _ _ hfirst
  | succ k ih =>
      obtain ⟨m, rfl⟩ : ∃ m, n = m + 1 := ⟨n - 1, by omega⟩
      cases hv with
      | step hfirst hrest =>
          cases hx with
          | step hfirst' hrest' =>
              rw [hfirst] at hfirst'
              cases hfirst'
              exact ih hrest (by omega) hrest'

theorem stepsTo_endsAtNull {track : Track} {entry : Addr} {w v : World τ}
    (h : StepsTo E H track entry w v) :
    EndsAtNull E H track (w.setCore (w.core.writePc entry)) v := by
  obtain ⟨fuel, n, hsteps⟩ := h
  obtain ⟨⟨f, rfl⟩, hcache⟩ := stepping_eq_ok hsteps
  have hloop : loop (runCall E H (f + 1) (.stepOnce track)) n
      (w.setCore (w.core.writePc entry)) = .ok () v := hsteps
  obtain ⟨m, x, hreach, hlast⟩ := loop_eq_ok hloop
  obtain ⟨rfl, hpc⟩ := stepOnce_false hlast
  have hattached : track = .cache → v.cache.isSome = true := by
    refine hreach.invariant (P := fun u => track = .cache → u.cache.isSome = true) ?_ hcache
    intro step hstep y z hy hz
    obtain rfl := List.eq_of_mem_replicate hstep
    exact (runCall_keepsAttached E H (f + 1) track (.stepOnce track) hy).of_eq_ok hz
  refine ⟨⟨f + 1, m, hreach, ?_⟩, hpc, fun fuel => stepOnce_finished hpc hattached⟩
  intro k hk y hy
  exact reaches_before (fun _ _ => stepOnce_true) hreach hk hy

/-- From a state between the calls of its embedder, a run is its steps. -/
theorem runsTo_iff_stepsTo (E : Env) (H : Host τ) (track : Track) (entry : Addr) {w : World τ}
    (hidle : w.sim.busy = false) :
    ∀ v, (RunsTo E H track entry w v ↔ StepsTo E H track entry w v) ∧
      (StepsTo E H track entry w v →
        EndsAtNull E H track (w.setCore (w.core.writePc entry)) v) := by
  refine fun v => ⟨⟨?_, ?_⟩, stepsTo_endsAtNull⟩
  · rintro ⟨fuel, more, hrun⟩
    cases fuel with
    | zero => cases hrun
    | succ fuel =>
        have hcache : track = .cache → w.cache.isSome = true := by
          intro htrack
          cases hcache : w.cache with
          | some cache => rfl
          | none =>
              have hcall : (ExecCall.runFrom track entry).track = .cache := htrack
              rw [runCall_unattached hcall hcache] at hrun
              cases hrun
        obtain ⟨v', hsteps, rfl⟩ := (runFrom_stepping E H fuel hidle hcache).ok_right hrun
        obtain ⟨_, x, hstepping, hend⟩ := Outcome.bind_eq_ok.mp hsteps
        cases hend
        exact ⟨fuel + 1, fuel, hstepping⟩
  · rintro ⟨fuel, n, hsteps⟩
    obtain ⟨⟨f, rfl⟩, hcache⟩ := stepping_eq_ok hsteps
    have hfuel : f + 1 ≤ max f n + 1 := by omega
    have hmore := (stepping_moreFuel E H hfuel (le_max_right f n) track entry w).eq_ok hsteps
    have hrel := @runFrom_stepping τ E H (max f n) track entry w hidle hcache
    rw [hmore] at hrel
    obtain ⟨v', hrun, rfl⟩ := (hrel.symm (fun _ _ h => h.symm) (fun _ _ h => h)).ok_right rfl
    exact ⟨max f n + 1, true, hrun⟩

/-- The detour, whose hook runs another function inside the first step. -/
theorem runsTo_iff_stepsTo_detour :
    ∃ v, RunsTo (smallEnv true) detourHost .cache 0x1000 detourStart v ∧
      StepsTo (smallEnv true) detourHost .cache 0x1000 detourStart v ∧
      EndsAtNull (smallEnv true) detourHost .cache
        (detourStart.setCore (detourStart.core.writePc 0x1000)) v := by
  have hends : (detourCall (.runFrom .cache 0x1000) detourStart).result?.isSome = true := by
    decide +kernel
  obtain ⟨more, v, hcall⟩ := Outcome.eq_ok_of_result? hends
  obtain ⟨hiff, hnull⟩ :=
    runsTo_iff_stepsTo (smallEnv true) detourHost .cache 0x1000 (w := detourStart) rfl v
  have hrun : RunsTo (smallEnv true) detourHost .cache 0x1000 detourStart v := ⟨6, more, hcall⟩
  exact ⟨v, hrun, hiff.mp hrun, hnull (hiff.mp hrun)⟩

end GabyVm.Engine
