import GabyVm.Engine.HiddenRuns
import GabyVm.Engine.HookAnswer
import GabyVm.Engine.QuietCalls

/-!
# Nested runs that the enclosing run does not notice

A callback that runs a guest function is compared with one that has the same
visible effect and runs nothing.  The rest of the enclosing run is the same as
long as every nested call is quiet and no later instruction depends on hidden
state that a nested run has changed.
-/

namespace GabyVm.Engine

open GabyVm.Aarch64
open GabyVm.Cache
open GabyVm.Foundation

variable {τ : Type}
variable {E : Env} {H H₀ : Host τ} {nested : ExecCall → Act τ Bool} {fuel : Nat}
  {calls : ExecCall → Prop} {writes : RegisterWrite → Prop}

/-! ## Transparent callbacks -/

/-- The same registers and memory, and the same effects on what the host keeps. -/
structure SameVisible (w w' : World τ) : Prop where
  data : w.core.SameData w'.core
  fpsrStorage : w'.sim.fpsrStorage = w.sim.fpsrStorage
  traceParameters : w'.sim.traceParameters = w.sim.traceParameters
  host : w'.host = w.host
  cache : w'.cache = w.cache

theorem sameRun_of_visible {g : Hidden} {w v v₀ v' : World τ} (h : SameVisible v v₀)
    (hv : KeptBy w v) (hv₀ : KeptBy w v₀) (hv' : SameRun g v₀ v') :
    SameRun g v v' := by
  obtain ⟨events, last, rfl⟩ := hv'
  obtain ⟨⟨core, curRange, trace, lastInstruction, busy, traceParameters, fpsr⟩, cache, host,
    events₁⟩ := v
  obtain ⟨⟨core₀, curRange₀, trace₀, lastInstruction₀, busy₀, traceParameters₀, fpsr₀⟩, cache₀,
    host₀, events₀⟩ := v₀
  obtain ⟨⟨h₁, h₂, h₃, h₄, h₅, h₆, h₇⟩, rfl, rfl, rfl, rfl⟩ := h
  obtain ⟨hcursor, hbusy, htrace, hsettings, hgcs⟩ := hv
  obtain ⟨hcursor₀, hbusy₀, htrace₀, hsettings₀, hgcs₀⟩ := hv₀
  rw [← hcursor] at hcursor₀
  rw [← hsettings] at hsettings₀
  rw [← hgcs] at hgcs₀
  rw [← hbusy] at hbusy₀
  rw [← htrace] at htrace₀
  simp only [World.core, Sim.saveCursor, Core.settings, Cursor.mk.injEq, Settings.mk.injEq] at *
  obtain ⟨hpc, rfl, hform, hlast, hmodified, hbtype, hnext⟩ := hcursor₀
  obtain ⟨hlength, hguard, henabled⟩ := hsettings₀
  have hcore : core₀.withHidden g = core.withHidden g := by
    cases core
    cases core₀
    simp only [Core.withHidden, Core.withTagging]
    simp_all
  subst hbusy₀ htrace₀
  refine ⟨events, last, ?_⟩
  simp only [World.core, hcore]

/--
A callback next to one that makes no execution call: from here both return,
with the same answer and the same visible effect, and every execution call of
the first is quiet.
-/
structure Transparent {α : Type} (E : Env) (H : Host τ) (fuel : Nat) (p p₀ : HostProg τ α)
    (w : World τ) : Prop where
  quiet : p.Calls E (runCall E H fuel) (Quiet E H fuel) w
  returns : ∃ a v v₀, p.run E (runCall E H fuel) w = .ok a v ∧
    p₀.run E (runCall E H fuel) w = .ok a v₀ ∧ SameVisible v v₀

theorem Transparent.rel {α : Type} (hH : H.Contract) {p p₀ : HostProg τ α} {g : Hidden}
    {w w' : World τ} (h : Transparent E H fuel p p₀ w)
    (hp : p.Within calls RegisterWrite.KeepsPosition)
    (hp₀ : p₀.Within (fun _ => False) RegisterWrite.KeepsPosition) (hbusy : w.sim.busy = true)
    (hww' : SameRun g w w') :
    Outcome.Rel (SameRun g) SameButHidden (p.run E (runCall E H fuel) w)
      (p₀.run E (runCall E H₀ fuel) w') := by
  obtain ⟨hquiet, a, v, v₀, hrun, hrun₀, hvisible⟩ := h
  have hv : KeptBy w v := (callback_kept (fun _ _ h h' => quiet_kept hH fuel h h') hp hquiet
    hbusy).of_eq_ok hrun
  have hcalls₀ : ∀ call, False → ∀ u, KeptBy w u →
      (runCall E H fuel call u).Ensures (fun _ u' => KeptBy w u') (fun _ _ => True) := by
    intro _ hfalse
    exact hfalse.elim
  have hv₀ : KeptBy w v₀ := ((keepsUnseen E w).run hp₀ hcalls₀
    ⟨rfl, hbusy, rfl, rfl, rfl⟩).of_eq_ok hrun₀
  have hcalls : ∀ call, False → ∀ u u', SameRun g u u' →
      Outcome.Rel (SameRun g) (SameRun g) (runCall E H fuel call u)
        (runCall E H₀ fuel call u') := by
    intro _ hfalse
    exact hfalse.elim
  obtain ⟨v', hrun', hv'⟩ := ((sameRun_progRel E g).run hp₀ hcalls hww').ok_right hrun₀
  rw [hrun, hrun']
  exact .ok (sameRun_of_visible hvisible hv hv₀ hv')

/-! ## The auditor's result -/

theorem keepsAudit (E : Env) (f : CPUFeatures) :
    StepInvariant E (fun _ => True) (fun w : World τ => w.sim.lastInstruction = f)
      (fun _ _ => True) where
  setHost w t h := h
  write r w _ h := writeRegister_ensures r (fun _ => h) (fun _ => h) (fun _ _ => trivial)
  writeByte w a b h := h
  register w start sizeBytes alloc h := by
    unfold World.register
    cases w.cache <;> exact h
  setTraceParameters w parameters h := h
  setCore w c h := h
  logStore w event h := h
  aborted e w _ _ := trivial

theorem runCall_audit (hcache : H.Within (fun call => call.track = .cache) (fun _ => True))
    (fuel : Nat) {call : ExecCall} (hcall : call.track = .cache) {f : CPUFeatures} {w : World τ}
    (hw : w.sim.lastInstruction = f) :
    (runCall E H fuel call w).Ensures (fun _ v => v.sim.lastInstruction = f)
      (fun _ _ => True) := by
  induction fuel generalizing call w with
  | zero => trivial
  | succ fuel ih =>
      have hstep (u : World τ) (hu : u.sim.lastInstruction = f) :
          (stepOnce E H (runCall E H fuel) call.track u).Ensures
            (fun _ v => v.sim.lastInstruction = f) (fun _ _ => True) := by
        refine (keepsAudit E f).stepOnce hcache (fun c hc x hx => ih hc hx) call.track ?_
          (fun _ _ hx => hx) hu
        intro x found y hfound hx
        rw [hcall] at hfound
        obtain ⟨_, rfl⟩ := dispatch_cache_begun hfound
        exact hx
      have hbody : (callBody E H (runCall E H fuel) fuel call (w.entered call)).Ensures
          (fun _ v => v.sim.lastInstruction = f) (fun _ _ => True) :=
        callBody_ensures call hstep (fun _ _ hx => hx) hw
      cases hresult : runCall E H (fuel + 1) call w with
      | ok more w' =>
          obtain ⟨v, hv, rfl⟩ := execCall_eq_ok hresult
          have hend := hbody.of_eq_ok hv
          simp only [Outcome.ensures_ok, Sim.leave]
          split_ifs <;> exact hend
      | abort reason w' => trivial
      | timeout => trivial

/-! ## Runs -/

variable (E H H₀ fuel)

def HookTransparent (target : Addr) (asked : World τ) : Prop :=
  match H.branchHook, H₀.branchHook with
  | some hook, some hook₀ =>
      Transparent E H fuel (hook target) (hook₀ target)
        (asked.log (.branch (branchEvent asked target)))
  | none, none => True
  | _, _ => False

def StoreTransparent (event : MemoryWriteEvent) (asked : World τ) : Prop :=
  match H.memoryWriteObserver, H₀.memoryWriteObserver with
  | some observer, some observer₀ =>
      Transparent E H fuel (observer event) (observer₀ event) (asked.log (.memoryWrite event))
  | none, none => True
  | _, _ => False

/--
The feature check that ends a step of the debug track has the same answer in
both runs: with the same features no nested call has had its own instruction
audited in between, or every instruction is accepted.
-/
def AuditorAgrees (g : Hidden) (w : World τ) : Prop :=
  ∀ found u x, dispatch E .debug w = .ok found u →
    runVisitor E H (runCall E H fuel) found.2 w.core.instr
      (u.setCore (visitCore w.core found.1)) = .ok () x →
    let g' := nextHidden E H (runCall E H fuel) .debug g w
    (H.Within (fun call => call.track = .cache) (fun _ => True) ∧
      x.core.cpuFeatures = g'.cpuFeatures) ∨
    (x.core.cpuFeatures = .all ∧ g'.cpuFeatures = .all)

/--
The callbacks of a step are transparent, its instruction depends on no hidden
state that differs from `g`, and on the debug track the auditor agrees.
-/
structure StepTransparent (track : Track) (g : Hidden) (w : World τ) : Prop
    extends StepCallbacks E H (runCall E H fuel) (HookTransparent E H H₀ fuel)
      (StoreTransparent E H H₀ fuel) track w where
  ignores : ∀ hash run u, dispatch E track w = .ok (hash, .leaf run) u →
    IgnoresHidden E H (runCall E H fuel) run w.core.instr g (u.setCore (visitCore w.core hash))
  auditor : track = .debug → AuditorAgrees E H fuel g w

variable {E H H₀ fuel}

/-- The comparison host: typed reads and writes, and no execution calls. -/
abbrev Host.Plain (H₀ : Host τ) : Prop :=
  H₀.Within (fun _ => False) RegisterWrite.KeepsPosition

section Step

variable {g : Hidden} {w w' : World τ}

theorem commit_transparent (hH : H.Contract) (hH₀ : H₀.Plain) {target : Addr}
    (h : HookTransparent E H H₀ fuel target w) (hbusy : w.sim.busy = true)
    (hww' : SameRun g w w') :
    Outcome.Rel (SameRun g) SameButHidden (gabyHookedWritePc E H (runCall E H fuel) target w)
      (gabyHookedWritePc E H₀ (runCall E H₀ fuel) target w') := by
  simp only [HookTransparent] at h
  cases hhook : H.branchHook with
  | none =>
      cases hhook₀ : H₀.branchHook with
      | none =>
          simp only [gabyHookedWritePc, hhook, hhook₀]
          exact .ok (hww'.modify (·.writePc target) fun _ => rfl)
      | some hook₀ => simp [hhook, hhook₀] at h
  | some hook =>
      cases hhook₀ : H₀.branchHook with
      | none => simp [hhook, hhook₀] at h
      | some hook₀ =>
          simp only [hhook, hhook₀] at h
          simp only [gabyHookedWritePc, hhook, hhook₀, hww'.branchEvent target]
          refine (h.rel hH (hH.branchHook hook hhook target) (hH₀.branchHook hook₀ hhook₀ target)
            hbusy (hww'.log _)).bind ?_
          intro next v v' _ _ hv
          cases isWordAligned next with
          | true => exact .ok (hv.modify (·.writePc next) fun _ => rfl)
          | false => exact .abort ⟨g, hv⟩

theorem store_transparent (hH : H.Contract) (hH₀ : H₀.Plain) {event : MemoryWriteEvent}
    (h : StoreTransparent E H H₀ fuel event w) (hbusy : w.sim.busy = true)
    (hww' : SameRun g w w') :
    Outcome.Rel (SameRun g) SameButHidden (notifyStore E H (runCall E H fuel) event w)
      (notifyStore E H₀ (runCall E H₀ fuel) event w') := by
  simp only [StoreTransparent] at h
  cases hobs : H.memoryWriteObserver with
  | none =>
      cases hobs₀ : H₀.memoryWriteObserver with
      | none =>
          simp only [notifyStore, hobs, hobs₀]
          exact .ok hww'
      | some observer₀ => simp [hobs, hobs₀] at h
  | some observer =>
      cases hobs₀ : H₀.memoryWriteObserver with
      | none => simp [hobs, hobs₀] at h
      | some observer₀ =>
          simp only [hobs, hobs₀] at h
          simp only [notifyStore, hobs, hobs₀]
          exact h.rel hH (hH.observer observer hobs event) (hH₀.observer observer₀ hobs₀ event)
            hbusy (hww'.log _)

theorem runLeaf_transparent (hH : H.Contract) (hH₀ : H₀.Plain) {p p' : LeafProg}
    (hagree : LeafAgrees E H (runCall E H fuel) p p' w)
    (h : LeafCallbacks E H (runCall E H fuel) (StoreTransparent E H H₀ fuel) p w)
    (hbusy : w.sim.busy = true) (hww' : SameRun g w w') :
    Outcome.Rel (SameRun (leafHidden E H (runCall E H fuel) p p' w)) SameButHidden
      (runLeaf E H (runCall E H fuel) p w) (runLeaf E H₀ (runCall E H₀ fuel) p' w') := by
  induction hagree generalizing g w' with
  | done hc => exact .ok (hww'.setCore hc)
  | abort hc => exact .abort ⟨_, hww'.setCore hc⟩
  | @store event c c' next next' w hc _ ih =>
      refine (store_transparent hH hH₀ h.1 (by exact hbusy) (hww'.setCore hc)).bind ?_
      intro _ v v' hv _ hvv'
      have hstill : v.sim.busy = true :=
        ((keepsBusy E).notifyStore H.within_true
          (fun call _ u hu => runCall_busy E H fuel call hu) event (by exact hbusy)).of_eq_ok hv
      have hrest := ih v hv (h.2 v hv) hstill hvv'
      rw [hvv'.core]
      simpa only [leafHidden, hv] using hrest

theorem visitor_transparent (hH : H.Contract) (hH₀ : H₀.Plain) {track : Track}
    {u u' : World τ} {found : Found} (h : StepTransparent E H H₀ fuel track g w)
    (hbusy : w.sim.busy = true) (hfound : dispatch E track w = .ok found u)
    (huu' : SameRun g u u') :
    Outcome.Rel
      (SameRun (visitHidden E H (runCall E H fuel) found.2 w.core.instr g
        (u.setCore (visitCore w.core found.1)))) SameButHidden
      (runVisitor E H (runCall E H fuel) found.2 w.core.instr
        (u.setCore (visitCore w.core found.1)))
      (runVisitor E H₀ (runCall E H₀ fuel) found.2 w.core.instr
        (u'.setCore ((visitCore w.core found.1).withHidden g))) := by
  have hu : u.sim.busy = true := (dispatch_begun hfound).busy.trans hbusy
  have hvisit := huu'.withHidden (visitCore w.core found.1)
  cases hstep : found.2.branchStep E w.core.instr (visitCore w.core found.1) with
  | some step =>
      have hstep' := branchStep_withHidden E found.2 w.core.instr (visitCore w.core found.1) g
      rw [hstep, Option.map_some] at hstep'
      rw [visitHidden_branch hstep,
        runVisitor_branch E H _ (w := u.setCore (visitCore w.core found.1)) hstep,
        runVisitor_branch E H₀ _
          (w := u'.setCore ((visitCore w.core found.1).withHidden g)) hstep']
      cases step with
      | fallThrough c => exact .ok (hvisit.withHidden c)
      | commit target c =>
          exact commit_transparent hH hH₀ (h.hook found u target c hfound hstep) hu
            (hvisit.withHidden c)
      | abort reason c => exact .abort ⟨g, hvisit.withHidden c⟩
  | none =>
      obtain ⟨hash, visitor⟩ := found
      cases visitor with
      | unimplemented => exact Action.require_rel _ _ hvisit ⟨g, hvisit⟩
      | unallocated => exact .abort ⟨g, hvisit⟩
      | leaf run =>
          have hagree := h.ignores hash run u hfound g (Hidden.between_right _ g)
          exact runLeaf_transparent hH hH₀ hagree (h.store hash run u hfound) hu hvisit
      | _ => simp [Visitor.branchStep] at hstep

/-- The check that ends a debug-track step has the same answer in both runs. -/
theorem audit_transparent (hH₀ : H₀.Plain) {g' : Hidden} {u u' x x' : World τ} {found : Found}
    (h : StepTransparent E H H₀ fuel .debug g w) (hww' : SameRun g w w')
    (hnext : nextHidden E H (runCall E H fuel) .debug g w = g')
    (hfound : dispatch E .debug w = .ok found u) (hfound' : dispatch E .debug w' = .ok found u')
    (hx : runVisitor E H (runCall E H fuel) found.2 w.core.instr
      (u.setCore (visitCore w.core found.1)) = .ok () x)
    (hx' : runVisitor E H₀ (runCall E H₀ fuel) found.2 w.core.instr
      (u'.setCore ((visitCore w.core found.1).withHidden g)) = .ok () x')
    (hxx' : SameRun g' x x') :
    x.sim.instructionIsAvailable = x'.sim.instructionIsAvailable := by
  have hfeatures' : x'.core.cpuFeatures = g'.cpuFeatures := by
    rw [hxx'.core]
    rfl
  have hverdict := h.auditor rfl found u x hfound hx
  rw [hnext] at hverdict
  rcases hverdict with ⟨hcache, hfeatures⟩ | ⟨hall, hall'⟩
  · have hplain := (dispatch_debug_eq_ok hfound).2
    have hplain' := (dispatch_debug_eq_ok hfound').2
    have hcalls : ∀ call : ExecCall, call.track = .cache → ∀ v : World τ,
        v.sim.lastInstruction = u.sim.lastInstruction → (runCall E H fuel call v).Ensures
          (fun _ v' => v'.sim.lastInstruction = u.sim.lastInstruction) (fun _ _ => True) :=
      fun call hcall v hv => runCall_audit hcache fuel hcall hv
    have hcalls' : ∀ call : ExecCall, False → ∀ v : World τ,
        v.sim.lastInstruction = u'.sim.lastInstruction → (runCall E H₀ fuel call v).Ensures
          (fun _ v' => v'.sim.lastInstruction = u'.sim.lastInstruction) (fun _ _ => True) := by
      intro _ hfalse
      exact hfalse.elim
    have haudit : x.sim.lastInstruction = u.sim.lastInstruction :=
      ((keepsAudit E u.sim.lastInstruction).runVisitor hcache hcalls found.2 w.core.instr
        (by rfl) (fun _ _ _ hv => hv)).of_eq_ok hx
    have haudit' : x'.sim.lastInstruction = u'.sim.lastInstruction :=
      ((keepsAudit E u'.sim.lastInstruction).runVisitor hH₀.anyWrites hcalls' found.2
        w.core.instr (by rfl) (fun _ _ _ hv => hv)).of_eq_ok hx'
    have hsame : u.sim.lastInstruction = u'.sim.lastInstruction := by
      have hinstr : (beginStep w'.core).instr = (beginStep w.core).instr := by
        rw [hww'.core]
        rfl
      rw [hplain, hplain']
      exact congrArg E.instructionFeatures hinstr.symm
    have hsameFeatures : x.sim.core.cpuFeatures = x'.sim.core.cpuFeatures :=
      hfeatures.trans hfeatures'.symm
    rw [Sim.instructionIsAvailable, Sim.instructionIsAvailable, haudit, haudit', hsame,
      hsameFeatures]
  · have havailable (v : World τ) (hv : v.core.cpuFeatures = .all) :
        v.sim.instructionIsAvailable = true := by
      rw [Sim.instructionIsAvailable]
      exact hv ▸ CPUFeatures.all_has _
    rw [havailable x hall, havailable x' (hfeatures'.trans hall')]

theorem step_transparent (hH : H.Contract) (hH₀ : H₀.Plain) (track : Track)
    (h : StepTransparent E H H₀ fuel track g w) (hbusy : w.sim.busy = true)
    (hww' : SameRun g w w') :
    Outcome.Rel (SameRun (nextHidden E H (runCall E H fuel) track g w)) SameButHidden
      (stepOnce E H (runCall E H fuel) track w)
      (stepOnce E H₀ (runCall E H₀ fuel) track w') := by
  have hpc' : w'.core.pc = w.core.pc := by
    rw [hww'.core]
    rfl
  by_cases hpc : w.core.pc = 0
  · have hsame : SameRun (nextHidden E H (runCall E H fuel) track g w) w w' := by
      simpa [nextHidden, Core.isSimulationFinished, hpc] using hww'
    simp only [stepOnce, Core.isSimulationFinished, hpc', hpc, BEq.rfl, if_true]
    exact .ok hsame
  have hdispatch := dispatch_sameRun (E := E) track hww'
  cases hfound : dispatch E track w with
  | ok found u =>
      obtain ⟨u', hfound', huu'⟩ := hdispatch.ok_right hfound
      have hnext : nextHidden E H (runCall E H fuel) track g w = _ := nextHidden_eq hpc hfound
      have hinstr : w'.core.instr = w.core.instr := by
        rw [hww'.core]
        rfl
      have hmovprfx : lastInstrWasMovprfx w'.core = lastInstrWasMovprfx w.core := by
        rw [hww'.core]
        rfl
      have hvisit : visitCore w'.core found.1 = (visitCore w.core found.1).withHidden g := by
        rw [hww'.core]
        rfl
      rw [stepOnce_visit hpc hfound, stepOnce_visit (hpc' ▸ hpc) hfound', hinstr, hmovprfx, hvisit,
        hnext]
      refine (visitor_transparent hH hH₀ h hbusy hfound huu').bind ?_
      intro _ x x' hx hx' hxx'
      refine (conclude_sameRun track _ hxx' ?_).mono (fun _ _ hv => hv) fun _ _ hv => ⟨_, hv⟩
      rintro rfl
      exact audit_transparent hH₀ h hww' hnext hfound hfound' hx hx' hxx'
  | abort reason u =>
      rw [hfound] at hdispatch
      rw [stepOnce_dispatch hpc, stepOnce_dispatch (hpc' ▸ hpc), hfound]
      generalize (dispatch E track w' : Outcome Abort (World τ) Found) = o' at hdispatch
      cases hdispatch with
      | abort hu => exact .abort ⟨g, hu⟩
  | timeout =>
      rw [hfound] at hdispatch
      rw [stepOnce_dispatch hpc, stepOnce_dispatch (hpc' ▸ hpc), hfound]
      generalize (dispatch E track w' : Outcome Abort (World τ) Found) = o' at hdispatch
      cases hdispatch with
      | timeout => exact .timeout

end Step

/--
Nested runs go unnoticed: when every step of the enclosing run has transparent
callbacks and depends on no hidden state that they changed, it goes through the
same states as the run whose callbacks make no execution call, and aborts when
that does.
-/
theorem nestedRuns_transparent (hH : H.Contract) (hH₀ : H₀.Plain) {tracks : List Track}
    {w : World τ} (hbusy : w.sim.busy = true)
    (hsteps : ∀ pre track, pre ++ [track] <+: tracks → ∀ g u,
      ReplaysAlong (nextHidden E H (runCall E H fuel)) (stepOnce E H (runCall E H fuel)) pre
        w.core.hidden w g u →
      StepTransparent E H H₀ fuel track g u) :
    Outcome.Rel SameButHidden SameButHidden
      (runSchedule (tracks.map (stepOnce E H (runCall E H fuel))) w)
      (runSchedule (tracks.map (stepOnce E H₀ (runCall E H₀ fuel))) w) := by
  have hgood : ∀ track g u u', StepTransparent E H H₀ fuel track g u →
      (SameRun g u u' ∧ u.sim.busy = true) →
      Outcome.Rel
        (fun v v' => SameRun (nextHidden E H (runCall E H fuel) track g u) v v' ∧
          v.sim.busy = true) SameButHidden
        (stepOnce E H (runCall E H fuel) track u)
        (stepOnce E H₀ (runCall E H₀ fuel) track u') := by
    rintro track g u u' hstep ⟨huu', hu⟩
    exact (step_transparent hH hH₀ track hstep hu huu').and_ensures
      (stepOnce_busy (fun call _ hv => runCall_busy E H fuel call hv) track hu)
      (fun _ _ hv => hv)
  exact (runSchedule_replay_rel hgood tracks ⟨SameRun.refl w, hbusy⟩ hsteps).mono
    (fun _ _ ⟨g, hv, _⟩ => ⟨g, hv⟩) (fun _ _ hv => hv)

/-! ## A return is a quiet call -/

/-- Over an empty stack a return changes the staged branch type only. -/
theorem return_commit {v : Visitor} {word : Word} {c c' : Core} {target : Addr}
    (hreturns : visitorReturns v word = true) (hgcs : c.gcsPeek = 0)
    (h : v.branchStep E word c = some (.commit target c')) :
    target = registerTarget c word ∧
      c' = c.writeNextBType (getBTypeFromInstruction c word) := by
  cases v with
  | unconditionalBranchToRegister =>
      have hret : isRetOp word = true := hreturns
      have hlink := isLinkOp_of_ret hret
      have hchecked : checkGcs c (registerTarget c word) = some c := by simp [checkGcs, hgcs]
      simp only [Visitor.branchStep, Option.some.injEq, visitUnconditionalBranchToRegister,
        registerBranch_ret, registerBranch_link, hret, hlink, hchecked, if_true,
        Bool.false_eq_true, if_false] at h
      split_ifs at h
      cases h
      exact ⟨rfl, rfl⟩
  | _ => cases hreturns

theorem finishStep_writePc (c : Core) (target : Addr) :
    finishStep (c.writePc target) = { c with
      pc := addressUntag target, pcModified := true, lastInstr := addressUntag target
      btype := c.nextBtype, nextBtype := .default } := rfl

theorem passed_step {track : Track} {w u v : World τ} {found : Found} {target : Addr} {c : Core}
    {hook : Addr → HostProg τ Addr} (hhook : H.branchHook = some hook)
    (hpass : hook target = .ret target) (hfound : dispatch E track w = .ok found u)
    (hbranch : found.2.branchStep E w.core.instr (visitCore w.core found.1) =
      some (.commit target c))
    (hstep : stepOnce E H nested track w = .ok true v) :
    v = ((u.setCore c).log (.branch (branchEvent (u.setCore c) target))).setCore
      (finishStep (c.writePc target)) := by
  obtain ⟨-, found', u', x, hfound', hvisitor, rfl⟩ := stepOnce_eq_ok hstep
  rw [hfound] at hfound'
  cases hfound'
  rw [runVisitor_commit (w := u.setCore (visitCore w.core found.1)) hbranch] at hvisitor
  simp only [gabyHookedWritePc, hhook, hpass, HostProg.run] at hvisitor
  obtain ⟨next, y, hret, hcommit⟩ := Outcome.bind_eq_ok.mp hvisitor
  cases hret
  split_ifs at hcommit
  cases hcommit
  rfl

theorem moveAt_leave {track : Track} {w u v : World τ} {found : Found} {frames : List Addr}
    (hfound : dispatch E track w = .ok found u)
    (hmove : moveAt E H nested track w v frames = some .leave) :
    visitorReturns found.2 w.core.instr = true ∧
      registerTarget (visitCore w.core found.1) w.core.instr = frames.headD 0 := by
  simp only [moveAt, hfound] at hmove
  cases hlinks : visitorLinks found.2 w.core.instr with
  | true =>
      simp only [hlinks, if_true] at hmove
      split at hmove
      · split_ifs at hmove <;> cases hmove
      · cases hmove
  | false =>
      simp only [hlinks, Bool.false_eq_true, if_false] at hmove
      split_ifs at hmove with hreturns htarget
      · exact ⟨hreturns, htarget⟩
      · cases hmove

/-- Registers and memory are as they were, and so is what the host keeps. -/
structure KeptData (w v : World τ) : Prop where
  data : w.core.SameData v.core
  settings : v.core.settings = w.core.settings
  sim : v.sim.fpsrStorage = w.sim.fpsrStorage ∧ v.sim.traceParameters = w.sim.traceParameters
  host : v.host = w.host
  cache : v.cache = w.cache

theorem KeptData.trans {u v w : World τ} (h : KeptData u v) (h' : KeptData v w) :
    KeptData u w where
  data := ⟨h'.data.registers.trans h.data.registers, h'.data.vregisters.trans h.data.vregisters,
    h'.data.pregisters.trans h.data.pregisters, h'.data.ffr.trans h.data.ffr,
    h'.data.nzcv.trans h.data.nzcv, h'.data.fpcr.trans h.data.fpcr,
    h'.data.memory.trans h.data.memory⟩
  settings := h'.settings.trans h.settings
  sim := ⟨h'.sim.1.trans h.sim.1, h'.sim.2.trans h.sim.2⟩
  host := h'.host.trans h.host
  cache := h'.cache.trans h.cache

theorem Begun.keptData {w u v : World τ} (h : Begun w u)
    (hsim : v.sim.fpsrStorage = u.sim.fpsrStorage ∧ v.sim.traceParameters = u.sim.traceParameters)
    (hhost : v.host = u.host) (hcache : v.cache = u.cache) {d : Core}
    (hdata : w.core.SameData d) (hsettings : d.settings = w.core.settings) :
    KeptData w (v.setCore d) := by
  obtain ⟨curRange, lastInstruction, rfl⟩ := h
  exact ⟨hdata, hsettings, hsim, hhost, hcache⟩

theorem returned_core (c : Core) (hash : FormHash) (b : BType) :
    let d := finishStep (((visitCore c hash).writeNextBType b).writePc 0)
    c.SameData d ∧ d.settings = c.settings := by
  rw [finishStep_writePc]
  exact ⟨⟨rfl, rfl, rfl, rfl, rfl, rfl, rfl⟩, rfl⟩

theorem returned_of_leave {track : Track} {w v : World τ} {hook : Addr → HostProg τ Addr}
    (hhook : H.branchHook = some hook) (hpass : hook 0 = .ret 0) (hgcs : w.core.gcsPeek = 0)
    (hstep : stepOnce E H nested track w = .ok true v)
    (hmove : moveAt E H nested track w v [] = some .leave) : KeptData w v := by
  obtain ⟨-, found, u, x, hfound, hvisitor, -⟩ := stepOnce_eq_ok hstep
  obtain ⟨hreturns, htarget⟩ := moveAt_leave hfound hmove
  rw [List.headD_nil] at htarget
  obtain ⟨hash, visitor⟩ := found
  cases visitor with
  | unconditionalBranchToRegister =>
      cases hbranch : visitUnconditionalBranchToRegister E w.core.instr
          (visitCore w.core hash) with
      | fallThrough c => exact absurd hbranch visitUnconditionalBranchToRegister_taken
      | abort reason c =>
          have habort : Visitor.unconditionalBranchToRegister.branchStep E w.core.instr
              (visitCore w.core hash) = some (.abort reason c) := congrArg some hbranch
          rw [runVisitor_branch E H nested (w := u.setCore (visitCore w.core hash))
            habort] at hvisitor
          cases hvisitor
      | commit target c =>
          obtain ⟨rfl, rfl⟩ := return_commit (c := visitCore w.core hash) hreturns hgcs
            (congrArg some hbranch)
          rw [htarget] at hbranch
          have hv := @passed_step _ _ _ _ _ _ _ _ _ 0 _ _ hhook hpass hfound
            (congrArg some hbranch) hstep
          obtain ⟨hdata, hsettings⟩ := returned_core w.core hash
            (getBTypeFromInstruction (visitCore w.core hash) w.core.instr)
          rw [hv]
          exact Begun.keptData (v := (u.setCore _).log _) (dispatch_begun hfound) ⟨rfl, rfl⟩ rfl rfl
            hdata hsettings
  | _ => cases hreturns

/-! ### Functions whose branches the hook lets go -/

variable (E) in
/-- The address that a step is about to branch to. -/
def targetAt (track : Track) (w : World τ) : Option Addr := (asked E track w).map (·.1)

theorem asked_leaf {track : Track} {w u : World τ} {hash : FormHash} {run : Leaf}
    (hfound : dispatch E track w = .ok (hash, .leaf run) u) : asked E track w = none := by
  simp [asked, Outcome.result?, hfound, Visitor.branchStep]

/-- A branch leaves the hidden state of both runs alone. -/
theorem nextHidden_asked {track : Track} {g : Hidden} {w : World τ}
    (h : (asked E track w).isSome = true) : nextHidden E H nested track g w = g := by
  simp only [nextHidden]
  split_ifs
  · rfl
  cases hfound : dispatch E track w with
  | ok found u =>
      cases hstep : found.2.branchStep E w.core.instr (visitCore w.core found.1) with
      | some step => exact visitHidden_branch hstep
      | none => simp [asked, Outcome.result?, hfound, hstep] at h
  | abort reason u => rfl
  | timeout => rfl

theorem targetAt_eq {track : Track} {w u : World τ} {found : Found} {target : Addr} {c : Core}
    (hfound : dispatch E track w = .ok found u)
    (hbranch : found.2.branchStep E w.core.instr (visitCore w.core found.1) =
      some (.commit target c)) :
    targetAt E track w = some target := by
  rw [targetAt, asked_eq_some.mpr ⟨found, u, c, hfound, hbranch, rfl⟩]
  rfl

/-- What a function leaves alone the caller finds as it was. -/
theorem KeptData.visible {w v : World τ} {call : ExecCall} (h : KeptData (w.start call) v)
    (hbusy : w.sim.busy = true) : SameVisible { v with sim := v.sim.leave w.sim } w := by
  have hstart : KeptData w (w.start call) := by
    unfold World.start
    cases call.entry? <;>
      exact ⟨⟨rfl, rfl, rfl, rfl, rfl, rfl, rfl⟩, rfl, ⟨rfl, rfl⟩, rfl, rfl⟩
  obtain ⟨hdata, -, ⟨hfpsr, htrace⟩, hhost, hcache⟩ := hstart.trans h
  simp only [Sim.leave, hbusy, if_true]
  exact ⟨⟨hdata.registers.symm, hdata.vregisters.symm, hdata.pregisters.symm, hdata.ffr.symm,
    hdata.nzcv.symm, hdata.fpcr.symm, hdata.memory.symm⟩, hfpsr.symm, htrace.symm, hhost.symm,
    hcache.symm⟩

/--
A guest function of a few well-nested steps to null, whose branches the hook
lets go, is a quiet call when nothing is on the guarded control stack.
-/
theorem function_quiet {track : Track} {entry : Addr} {n : Nat} {w : World τ} {trail : Trail τ}
    {ok : ExecCall → World τ → Prop} {hook : Addr → HostProg τ Addr}
    (hhook : H.branchHook = some hook) (hobs : H.memoryWriteObserver = none)
    (hattached : w.cache.isSome = true) (hgcs : w.core.gcsPeek = 0) (hn : n < fuel)
    (hfollow : follow E H (runCall E H fuel) (List.replicate n track)
      (w.start (.runFrom track entry)) [] = some trail)
    (hpass : ∀ pre t, pre ++ [track] <+: List.replicate n track →
      follow E H (runCall E H fuel) pre (w.start (.runFrom track entry)) [] = some t →
        ∀ target, targetAt E track t.world = some target → hook target = .ret target)
    (hframes : trail.frames = []) (hanswered : Move.answered ∉ trail.moves)
    (hsettings : trail.world.core.settings = w.core.settings)
    (hfinished : trail.world.core.pc = 0) :
    QuietCall E H fuel ok (.runFrom track entry) w ∧
      runCall E H (fuel + 1) (.runFrom track entry) w =
        .ok true { trail.world with sim := trail.world.sim.leave w.sim } := by
  have hrun : runCall E H (fuel + 1) (.runFrom track entry) w =
      .ok true { trail.world with sim := trail.world.sim.leave w.sim } := by
    have hcache : ¬(track = .cache ∧ w.cache.isNone) := by
      rw [Option.isSome_iff_ne_none] at hattached
      simp [hattached]
    have hend : stepOnce E H (runCall E H fuel) track trail.world = .ok false trail.world := by
      simp [stepOnce, Core.isSimulationFinished, hfinished]
    have hreach := follow_reaches hfollow
    rw [List.map_replicate] at hreach
    have hbody : callBody E H (runCall E H fuel) fuel (.runFrom track entry)
        (w.entered (.runFrom track entry)) = .ok true trail.world :=
      Outcome.bind_eq_ok.mpr ⟨(), trail.world, hreach.loop_ends hend hn, rfl⟩
    change execCall E H (runCall E H fuel) fuel (.runFrom track entry) w = _
    rw [execCall, if_neg (by exact hcache)]
    exact Outcome.bind_eq_ok.mpr ⟨true, trail.world, hbody, rfl⟩
  refine ⟨⟨hgcs, n, true, trail, hfollow, hrun, hframes, hanswered, hsettings, ?_⟩, hrun⟩
  intro pre hpre t ht
  refine ⟨?_, ?_⟩
  · intro found u target c hfound hbranch hook' hhook'
    rw [hhook] at hhook'
    cases hhook'
    rw [hpass pre t hpre ht target (targetAt_eq hfound hbranch)]
    trivial
  · intro hash run u _
    refine leafCallbacks_of (fun event v observer hobserver => ?_) _ _
    rw [hobs] at hobserver
    cases hobserver

/-! ## A store inside a branch -/

/-- A store of an X register at an unsigned offset, checked as the switch stands. -/
def strLeaf : Leaf := fun w c =>
  (loadStoreHelper (AccessChecks.off.under c) .STR_x w
    (LoadStoreVisitor.visitLoadStoreUnsignedOffset.offset w c)
    LoadStoreVisitor.visitLoadStoreUnsignedOffset.mode).run c

/-- The small decoder with stores of double words. -/
def storingEnv : Env :=
  { smallEnv true with
    decode := fun w =>
      if w &&& 0xffc00000 == 0xf9000000 then ⟨"str_64_ldst_pos", false⟩ else decodeSmall w
    leaf := fun hash => if hash = formHash "str_64_ldst_pos" then some strLeaf else none }

def strAddress (w : Word) (c : Core) : Addr :=
  addressMode c w.getRn (LoadStoreVisitor.visitLoadStoreUnsignedOffset.offset w c) .offset

/-- Memory holds what the store is about to write. -/
def storesSame (w : Word) (c : Core) : Bool :=
  (List.range 8).all fun i =>
    c.memory (addressUntag (strAddress w c) + BitVec.ofNat 64 i) ==
      ((StoreOp.STR_x.value c w.getRt).setWidth 128).extractLsb' (8 * i) 8

theorem storeBytes_same {mem : Memory} {a : Addr} {value : BitVec 128} {size : Nat}
    (h : ∀ i < size, mem (a + BitVec.ofNat 64 i) = value.extractLsb' (8 * i) 8) :
    storeBytes mem a value size = mem := by
  funext x
  simp only [storeBytes]
  split_ifs with hx
  · have haddress : a + BitVec.ofNat 64 (x - a).toNat = x := by
      rw [BitVec.ofNat_toNat, BitVec.setWidth_eq]
      bv_omega
    rw [← h _ hx, haddress]
  · rfl

theorem strLeaf_same {w : Word} {c : Core} {u x : World τ} (hobs : H.memoryWriteObserver = none)
    (hsame : storesSame w c = true) (h : runLeaf E H nested (strLeaf w c) u = .ok () x) :
    ∃ monitor, x = u.setCore { c with localMonitor := monitor } := by
  have hmemory : c.writeMemory (strAddress w c) ((StoreOp.STR_x.value c w.getRt).setWidth 128) 8 =
      c := by
    have hbytes : storeBytes c.memory (addressUntag (strAddress w c))
        ((StoreOp.STR_x.value c w.getRt).setWidth 128) 8 = c.memory := by
      refine storeBytes_same fun i hi => ?_
      have hbyte := List.all_eq_true.mp hsame i (List.mem_range.mpr hi)
      exact eq_of_beq hbyte
    rw [Core.writeMemory, hbytes]
  have hfirst : strLeaf w c = addressModeHelper (AccessChecks.off.under c) w.getRn
      (LoadStoreVisitor.visitLoadStoreUnsignedOffset.offset w c) .offset c fun address d =>
        storeRegister (AccessChecks.off.under c) .STR_x address w.getRt d fun _ d =>
          .done (maybeClearLocalMonitor d) := rfl
  rw [hfirst] at h
  simp only [addressModeHelper, LeafM.bind_apply, LeafM.get_apply, LeafM.check] at h
  split_ifs at h
  · change runLeaf E H nested (storeRegister (AccessChecks.off.under c) .STR_x (strAddress w c)
      w.getRt c fun _ d => .done (maybeClearLocalMonitor d)) u = .ok () x at h
    simp only [storeRegister, LeafM.bind_apply, LeafM.get_apply, LeafM.memWrite] at h
    cases hverdict : (AccessChecks.off.under c).write c c.pc (strAddress w c)
        StoreOp.STR_x.size with
    | granted =>
        rw [hverdict] at h
        have hstored : runLeaf E H nested (.store _ (c.writeMemory (strAddress w c)
          ((StoreOp.STR_x.value c w.getRt).setWidth 128) 8)
            fun d => .done (maybeClearLocalMonitor d)) u = .ok () x := h
        rw [hmemory] at hstored
        simp only [runLeaf, notifyStore, hobs] at hstored
        cases hstored
        obtain ⟨monitor, hmonitor⟩ := maybeClearLocalMonitor_frame c
        exact ⟨monitor, congrArg u.setCore hmonitor⟩
    | failed =>
        rw [hverdict] at h
        cases h
        exact ⟨c.localMonitor, rfl⟩
    | aborts message =>
        rw [hverdict] at h
        cases h
  · cases h
  · cases h

theorem strStep_kept {w v : World τ} (hobs : H.memoryWriteObserver = none)
    (hleaf : visitorOf E (decodedHash E w.core.instr) = .leaf strLeaf)
    (hsame : storesSame w.core.instr w.core = true)
    (hstep : stepOnce E H nested .debug w = .ok true v) : KeptData w v := by
  obtain ⟨-, found, u, x, hfound, hvisitor, hv⟩ := stepOnce_eq_ok hstep
  obtain ⟨rfl, -⟩ := dispatch_debug_eq_ok hfound
  rw [hleaf] at hvisitor
  obtain ⟨monitor, hx⟩ := strLeaf_same (c := visitCore w.core (decodedHash E w.core.instr)) hobs
    hsame hvisitor
  have hfinish (c : Core) : c.SameData (finishStep c) ∧ (finishStep c).settings = c.settings := by
    simp only [finishStep, Core.updateBType, Core.incrementPc]
    split_ifs <;> exact ⟨⟨rfl, rfl, rfl, rfl, rfl, rfl, rfl⟩, rfl⟩
  obtain ⟨hdata, hsettings⟩ := hfinish
    { visitCore w.core (decodedHash E w.core.instr) with localMonitor := monitor }
  rw [hv, hx]
  exact Begun.keptData (v := (u.setCore _).setCore _) (dispatch_begun hfound) ⟨rfl, rfl⟩ rfl rfl
    ⟨hdata.registers, hdata.vregisters, hdata.pregisters, hdata.ffr, hdata.nzcv, hdata.fpcr,
      hdata.memory⟩ hsettings

/-- A branch over a function that stores zero where X1 points, to a store of the same. -/
def strWords : List Word := [0x14000003, 0xf900003f, 0xd65f03c0, 0xf900003f]

def strSeated : World Unit :=
  let w := (World.load storingEnv 0x1000 strWords ()).seated .cache 0x1000
  w.setCore (w.core.writeRegister (Core.registerIndex 1) 0x2000)

/-- A hook that runs the function before it lets the branch over it go. -/
def strHost : Host Unit where
  branchHook := some fun target =>
    if target = 0x100c then .exec (.runFrom .debug 0x1004) fun _ => .ret target
    else .ret target
  memoryWriteObserver := none

theorem strHost_contract : strHost.Contract where
  branchHook hook h target := by
    cases h
    dsimp only
    split_ifs
    · exact .exec rfl fun _ => .ret target
    · exact .ret target
  observer obs h := by cases h

def strStep (fuel : Nat) : Act Unit Bool :=
  stepOnce storingEnv strHost (runCall storingEnv strHost fuel) .debug

/-- What the hook finds, and what the function that it runs does. -/
def calledFacts (asked : World Unit) : Option (List Bool × List Move) := do
  let start := asked.start (.runFrom .debug 0x1004)
  let stored ← (strStep 3 start).result?
  let trail ← follow storingEnv strHost (runCall storingEnv strHost 3) [.debug, .debug] start []
  pure ([asked.sim.busy, asked.cache.isSome, asked.core.gcsPeek == 0, stored.1,
    targetAt storingEnv .debug start == none, targetAt storingEnv .debug stored.2 == some 0,
    start.core.instr == 0xf900003f, storesSame start.core.instr start.core,
    stored.2.core.gcsPeek == 0, trail.world.core.pc == 0, trail.frames == []], trail.moves)

def askedFacts : Option (Addr × Option (List Bool × List Move)) :=
  (asked storingEnv .cache strSeated).map fun r => (r.1, calledFacts r.2)

theorem askedFacts_eq : askedFacts =
    some (0x100c, some (List.replicate 11 true, [.stay, .leave])) := by
  decide +kernel

theorem str_asked : (asked storingEnv .cache strSeated).isSome = true := by
  have hfacts := congrArg Option.isSome askedFacts_eq
  rwa [askedFacts, Option.isSome_map] at hfacts

/-- The enclosing run goes on to a store, with tagging off and all features. -/
def afterFacts (v : World Unit) : Word × Bool × Bool × Option CPUFeatures × CPUFeatures :=
  (v.core.instr, v.core.isSimulationFinished, v.core.mteActive,
    (strStep 4 v).result?.map (·.2.core.cpuFeatures),
    (nextHidden storingEnv strHost (runCall storingEnv strHost 4) .debug strSeated.core.hidden
      v).cpuFeatures)

theorem afterFacts_eq : (stepOnce storingEnv strHost (runCall storingEnv strHost 4) .cache
    strSeated).result?.map (fun r => afterFacts r.2) =
      some (0xf900003f, false, false, some .all, .all) := by
  decide +kernel

theorem storingEnv_leaf {w : Word} (hword : w = 0xf900003f) :
    visitorOf storingEnv (decodedHash storingEnv w) = .leaf strLeaf := by
  have hhash : decodedHash storingEnv w = formHash "str_64_ldst_pos" := by
    rw [hword]
    rfl
  have hleaf : storingEnv.leaf (formHash "str_64_ldst_pos") = some strLeaf := by
    simp only [storingEnv, if_true]
  rw [hhash, visitorOf, resolveLeaf_unnamed storeForm_unnamed, hleaf]
  rfl

/-- The function that the hook runs is a quiet call and leaves registers and memory as found. -/
theorem calledFacts_quiet {asked : World Unit}
    (h : calledFacts asked = some (List.replicate 11 true, [.stay, .leave])) :
    QuietCall storingEnv strHost 3 (Quiet storingEnv strHost 3) (.runFrom .debug 0x1004) asked ∧
      ∃ v, runCall storingEnv strHost 4 (.runFrom .debug 0x1004) asked = .ok true v ∧
        SameVisible v asked := by
  simp only [calledFacts, Option.bind_eq_bind, Option.bind_eq_some_iff, Option.pure_def,
    Option.some.injEq, Prod.mk.injEq] at h
  obtain ⟨⟨more, stored⟩, hstored, trail, hfollow, hfacts, hmoves⟩ := h
  simp only [List.replicate, List.cons.injEq, beq_iff_eq, and_true] at hfacts
  obtain ⟨hbusy, hattached, hgcs, rfl, hstart, hreturn, hword, hsame, hempty, hfinished,
    hframes⟩ := hfacts
  have hstep : stepOnce storingEnv strHost (runCall storingEnv strHost 3) .debug
      (asked.start (.runFrom .debug 0x1004)) = .ok true stored :=
    Outcome.eq_ok_of_result?_eq hstored
  have hhook : strHost.branchHook = some _ := rfl
  obtain ⟨v, move, rest, hstep', hmove, hrest, rfl⟩ := follow_cons.mp hfollow
  rw [hstep] at hstep'
  cases hstep'
  obtain ⟨v, move', rest', hlast, hmove', hend, rfl⟩ := follow_cons.mp hrest
  cases hend
  simp only [List.cons.injEq, and_true] at hmoves
  obtain ⟨rfl, rfl⟩ := hmoves
  have hkept : KeptData (asked.start (.runFrom .debug 0x1004)) v :=
    (strStep_kept rfl (storingEnv_leaf hword) hsame hstep).trans
      (returned_of_leave hhook rfl hempty hlast hmove')
  have hfunction := @function_quiet _ _ _ 3 _ _ 2 _ _ (Quiet storingEnv strHost 3) _ hhook rfl
    hattached hgcs (by omega) hfollow ?_ hframes (by simp) hkept.settings hfinished
  · exact ⟨hfunction.1, _, hfunction.2, hkept.visible hbusy⟩
  · intro pre t hpre ht target htarget
    have hlength : pre.length ≤ 1 := by simpa using hpre.length_le
    match pre, hlength with
    | [], _ =>
        cases ht
        rw [hstart] at htarget
        cases htarget
    | [track], _ =>
        obtain rfl : track = .debug := List.eq_of_mem_replicate (hpre.subset (by simp))
        obtain ⟨v', move, rest, hstep', -, hrest, rfl⟩ := follow_cons.mp ht
        rw [hstep] at hstep'
        cases hstep'
        cases hrest
        rw [hreturn] at htarget
        cases htarget
        rfl

theorem str_firstStep : StepTransparent storingEnv strHost (Host.passThrough none) 4 .cache
    strSeated.core.hidden strSeated where
  hook found u target c hfound hbranch := by
    have hfacts := askedFacts_eq
    rw [askedFacts, asked_eq_some.mpr ⟨found, u, c, hfound, hbranch, rfl⟩] at hfacts
    simp only [Option.map_some, Option.some.injEq, Prod.mk.injEq] at hfacts
    obtain ⟨rfl, hcalled⟩ := hfacts
    obtain ⟨hquiet, v, hrun, hvisible⟩ := calledFacts_quiet hcalled
    refine ⟨⟨hquiet, fun _ _ _ => trivial⟩, 0x100c, v, _, ?_, rfl, hvisible⟩
    exact Outcome.bind_eq_ok.mpr ⟨true, v, hrun, rfl⟩
  store hash run u hfound := by
    have hfacts := askedFacts_eq
    rw [askedFacts, asked_leaf hfound] at hfacts
    cases hfacts
  ignores hash run u hfound := by
    have hfacts := askedFacts_eq
    rw [askedFacts, asked_leaf hfound] at hfacts
    cases hfacts
  auditor h := by cases h

/-- The store that follows does not depend on the seed that the one inside has left. -/
theorem str_secondStep {v : World Unit} {more : Bool}
    (hstep : stepOnce storingEnv strHost (runCall storingEnv strHost 4) .cache strSeated =
      .ok more v) :
    StepTransparent storingEnv strHost (Host.passThrough none) 4 .debug strSeated.core.hidden v := by
  have hfacts := afterFacts_eq
  rw [hstep] at hfacts
  simp only [Outcome.result?, Option.map_some, afterFacts, Option.some.injEq, Prod.mk.injEq]
    at hfacts
  obtain ⟨hword, hrunning, hoff, hfeatures, hfeatures'⟩ := hfacts
  have hfound {hash : FormHash} {visitor : Visitor} {u : World Unit}
      (h : dispatch storingEnv .debug v = .ok (hash, visitor) u) : visitor = .leaf strLeaf := by
    obtain ⟨heq, -⟩ := dispatch_debug_eq_ok h
    rw [(Prod.mk.inj heq).2]
    exact storingEnv_leaf hword
  refine ⟨⟨?_, ?_⟩, ?_, ?_⟩
  · intro found u target c h hbranch
    obtain ⟨hash, visitor⟩ := found
    obtain rfl := hfound h
    cases hbranch
  · intro hash run u _
    exact leafCallbacks_of (fun _ _ => trivial) _ _
  · intro hash run u h
    have hrun := hfound h
    cases hrun
    exact loadStore_ignoresHidden .off .STR_x .visitLoadStoreUnsignedOffset _ (.inr ⟨hoff, rfl⟩)
  · intro _ found u x h hx
    refine .inr ⟨?_, hfeatures'⟩
    have hpc : v.core.pc ≠ 0 := by
      rwa [Core.isSimulationFinished, beq_eq_false_iff_ne] at hrunning
    have hrun : stepOnce storingEnv strHost (runCall storingEnv strHost 4) .debug v = _ :=
      stepOnce_visit hpc h
    rw [hx, Outcome.bind_ok] at hrun
    rw [strStep, hrun] at hfeatures
    cases hend : conclude storingEnv .debug (lastInstrWasMovprfx v.core) x with
    | ok more y =>
        rw [hend, conclude_eq_ok hend] at hfeatures
        exact (finishStep_cpuFeatures x.core).symm.trans (Option.some.inj hfeatures)
    | abort reason y =>
        rw [hend] at hfeatures
        cases hfeatures
    | timeout =>
        rw [hend] at hfeatures
        cases hfeatures

theorem Host.passThrough_plain (τ : Type) :
    (Host.passThrough (τ := τ) Option.none).Plain where
  branchHook hook h target := by
    cases h
    exact .ret target
  observer obs h := by cases h

theorem nestedRuns_transparent_store :
    Outcome.Rel SameButHidden SameButHidden
      (runSchedule ([Track.cache, .debug].map (stepOnce storingEnv strHost
        (runCall storingEnv strHost 4))) strSeated)
      (runSchedule ([Track.cache, .debug].map (stepOnce storingEnv (Host.passThrough none)
        (runCall storingEnv (Host.passThrough none) 4))) strSeated) := by
  refine nestedRuns_transparent strHost_contract (Host.passThrough_plain Unit) rfl ?_
  intro pre track hpre g u hu
  have hlength : pre.length ≤ 1 := by simpa using hpre.length_le
  match pre, hlength with
  | [], _ =>
      obtain rfl : track = .cache := (List.cons_prefix_cons.mp hpre).1
      cases hu
      exact str_firstStep
  | [first], _ =>
      obtain ⟨rfl, hrest⟩ := List.cons_prefix_cons.mp hpre
      obtain rfl : track = .debug := (List.cons_prefix_cons.mp hrest).1
      cases hu with
      | step hstep hrest =>
          cases hrest
          rw [nextHidden_asked str_asked]
          exact str_secondStep hstep

/-! ## A return two frames deep -/

/-- Two frames that save the link register, and a branch over a return to another. -/
def threeFrames : List Word :=
  [0xaa1e03f4, 0x94000003, 0xaa1403fe, 0xd65f03c0, 0xaa1e03f3, 0x94000003, 0xaa1303fe, 0xd65f03c0,
    0x14000002, 0xd65f03c0, 0xd65f03c0]

/-- A hook that runs the return in between, with the link register saved around it. -/
def savingHost : Host Unit where
  branchHook := some fun target =>
    if target = 0x1028 then
      .readAll fun file => .write (.gp 30 0) (.exec (.runFrom .cache 0x1024) fun _ =>
        .write (.gp 30 file.lr) (.ret target))
    else .ret target
  memoryWriteObserver := none

/-- The program counter, the registers and the words of the program. -/
def visibleState (w : World Unit) : Addr × List (BitVec 64) × List SimVRegister × List Word :=
  (w.core.pc, List.ofFn w.core.registers, List.ofFn w.core.vregisters,
    (List.range threeFrames.length).map fun i =>
      readWord w.core.memory (0x1000 + 4 * BitVec.ofNat 64 i))

/-- What can be seen after the branch, and how the return that follows it ends. -/
def aroundReturn (H : Host Unit) (track : Track) :
    Option ((Addr × List (BitVec 64) × List SimVRegister × List Word) ×
      Option Abort × Option Addr) :=
  let step := stepOnce (smallEnv true) H (runCall (smallEnv true) H 3) track
  (runSchedule (List.replicate 5 step)
    ((World.load (smallEnv true) 0x1000 threeFrames ()).seated track 0x1000)).result?.map
      fun r => (visibleState r.2, (step r.2).reason?, (step r.2).result?.map (·.2.core.pc))

def NestedReturnNoticed (track : Track) : Prop :=
  ∃ visible, aroundReturn savingHost track = some (visible, some .gcsFailed, none) ∧
    aroundReturn (Host.passThrough none) track = some (visible, none, some 0x1018)

theorem aroundReturn_eq (track : Track) :
    (aroundReturn savingHost track).map (fun r =>
        (some r.1 == (aroundReturn (Host.passThrough none) track).map (·.1), r.2)) =
      some (true, some .gcsFailed, none) ∧
    (aroundReturn (Host.passThrough none) track).map (·.2) = some (none, some 0x1018) := by
  cases track <;> decide +kernel

/--
The hook leaves registers and memory as it found them, but the return that it
ran has popped the entry of the enclosing call: the next return aborts.
-/
theorem nestedReturn_noticed : NestedReturnNoticed .cache ∧ NestedReturnNoticed .debug := by
  have hnoticed (track : Track) : NestedReturnNoticed track := by
    obtain ⟨hnested, hplain⟩ := aroundReturn_eq track
    obtain ⟨⟨visible, ends⟩, hends, hplain⟩ := Option.map_eq_some_iff.mp hplain
    obtain ⟨⟨visible', ends'⟩, hends', hnested⟩ := Option.map_eq_some_iff.mp hnested
    rw [hends] at hnested
    simp only [Option.map_some, Prod.mk.injEq, beq_iff_eq, Option.some.injEq] at hnested hplain
    obtain ⟨rfl, rfl⟩ := hnested
    subst hplain
    exact ⟨visible', hends', hends⟩
  exact ⟨hnoticed .cache, hnoticed .debug⟩

end GabyVm.Engine
