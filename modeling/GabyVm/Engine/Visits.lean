import GabyVm.Engine.Tracks

/-!
# A step as one visit

From any state, and whatever the cache holds, a step on either track finds a
form and a visitor, runs that visitor and the tail of the step, and ends with
the check of its track.  Only the visit calls the host.
-/

namespace GabyVm.Engine

open GabyVm.Aarch64
open GabyVm.Cache
open GabyVm.Foundation

variable {τ : Type}

section Parts

variable (E : Env) (H : Host τ) (nested : ExecCall → Act τ Bool)

abbrev Found := FormHash × Visitor

def requireEntryBType (entry : PredecodedEntry) : Act τ Unit := fun w =>
  Action.require (!(entry.checksBType && wrongBType w.core)) .wrongBType w

/-- What a step does before it runs a visitor. -/
def dispatch : Track → Act τ Found
  | .cache => do
      assertAligned E
      modifyCore beginStep
      let entry ← lookupEntry
      requireEntryBType entry
      pure (entry.formHash, entry.leaf)
  | .debug => do
      assertAligned E
      modifyCore beginStep
      requireBType
      let w ← Action.get
      auditorVisit E w.core.instr
      if (E.decode w.core.instr).unallocated then Action.abort .unallocated
      else pure (decodedHash E w.core.instr, visitorOf E (decodedHash E w.core.instr))

def visitFound (found : Found) : Act τ Unit := fun w =>
  runForm E H nested (lastInstrWasMovprfx w.core) found.1 found.2 w.core.instr w

/-- The feature check closes a step of the debug track. -/
def settle : Track → Act τ Unit
  | .cache => pure ()
  | .debug => checkAvailable

theorem dispatch_debug_eq {w : World τ} (hassert : assertAligned E w = .ok () w) :
    dispatch E .debug w =
      let begun := w.setCore (beginStep w.core)
      if wrongBType w.core then .abort .wrongBType begun
      else if (E.decode w.core.instr).unallocated then .abort .unallocated (begun.audited E)
      else .ok (decodedHash E w.core.instr, visitorOf E (decodedHash E w.core.instr))
        (begun.audited E) := by
  have haudit : auditorVisit E w.core.instr (w.setCore (beginStep w.core)) =
      .ok () ((w.setCore (beginStep w.core)).audited E) := rfl
  cases hbtype : wrongBType w.core with
  | true => simp [dispatch, hassert, requireBType, hbtype]
  | false =>
      cases hdecode : (E.decode w.core.instr).unallocated <;>
        simp [dispatch, hassert, requireBType, hbtype, haudit, hdecode]

theorem execute_eq (track : Track) (w : World τ) :
    execute E H nested track w =
      (dispatch E track w).bind fun found u =>
        (visitFound E H nested found u).bind fun _ v => settle track v := by
  cases hassert : (assertAligned E w : Outcome Abort (World τ) Unit) with
  | ok u v =>
      obtain ⟨-, rfl⟩ : _ ∧ v = w := Action.require_eq_ok.mp hassert
      cases track with
      | cache =>
          simp only [execute, executeInstructionCached, dispatch, Action.bind_apply, hassert,
            Outcome.bind_ok, modifyCore_apply]
          cases (lookupEntry (v.setCore (beginStep v.core)) :
              Outcome Abort (World τ) PredecodedEntry) with
          | ok entry x =>
              simp only [Outcome.bind_ok, executeEntry_eq, requireEntryBType]
              cases entry.checksBType && wrongBType x.core <;> simp [visitFound, settle]
          | abort reason x => rfl
          | timeout => rfl
      | debug =>
          rw [execute, executeInstruction_eq E H nested hassert, dispatch_debug_eq E hassert]
          cases hbtype : wrongBType v.core with
          | true => simp
          | false =>
              cases hdecode : (E.decode v.core.instr).unallocated <;>
                simp [visitFound, settle]
  | abort reason v =>
      cases track <;>
        simp [execute, executeInstructionCached, executeInstruction, dispatch, hassert]
  | timeout =>
      cases track <;>
        simp [execute, executeInstructionCached, executeInstruction, dispatch, hassert]

end Parts

variable {E : Env} {H : Host τ} {nested : ExecCall → Act τ Bool}

/-! ## What comes before the visit -/

/-- Nothing has changed but the held range, the auditor's result and the step's flag. -/
def Begun (w u : World τ) : Prop :=
  ∃ curRange lastInstruction, u = { w with sim := { w.sim with
    core := beginStep w.core, curRange := curRange, lastInstruction := lastInstruction } }

theorem Begun.core {w u : World τ} (h : Begun w u) : u.core = beginStep w.core := by
  obtain ⟨_, _, rfl⟩ := h
  rfl

theorem Begun.busy {w u : World τ} (h : Begun w u) : u.sim.busy = w.sim.busy := by
  obtain ⟨_, _, rfl⟩ := h
  rfl

/-- A lookup that finds an entry changes the held range at most. -/
theorem lookupEntry_eq_ok {w x : World τ} {entry : PredecodedEntry}
    (h : lookupEntry w = .ok entry x) :
    ∃ curRange, x = { w with sim := { w.sim with curRange := curRange } } := by
  simp only [lookupEntry] at h
  split at h
  · cases h
  · split at h
    · cases h
    · cases h
      exact ⟨_, rfl⟩

theorem dispatch_cache_begun {w u : World τ} {found : Found}
    (h : dispatch E .cache w = .ok found u) :
    ∃ curRange, u = { w with sim := { w.sim with
      core := beginStep w.core, curRange := curRange } } := by
  simp only [dispatch, Action.bind_apply] at h
  obtain ⟨_, v, hassert, hbegin⟩ := Outcome.bind_eq_ok.mp h
  obtain ⟨-, rfl⟩ := Action.require_eq_ok.mp hassert
  simp only [modifyCore_apply, Outcome.bind_ok] at hbegin
  obtain ⟨entry, x, hlookup, hrest⟩ := Outcome.bind_eq_ok.mp hbegin
  obtain ⟨_, y, hcheck, hfound⟩ := Outcome.bind_eq_ok.mp hrest
  cases hfound
  obtain ⟨-, rfl⟩ := Action.require_eq_ok.mp hcheck
  exact lookupEntry_eq_ok hlookup

theorem dispatch_debug_eq_ok {w u : World τ} {found : Found}
    (h : dispatch E .debug w = .ok found u) :
    found = (decodedHash E w.core.instr, visitorOf E (decodedHash E w.core.instr)) ∧
      u = (w.setCore (beginStep w.core)).audited E := by
  have hassert : assertAligned E w = .ok () w := by
    simp only [dispatch, Action.bind_apply] at h
    obtain ⟨_, v, hassert, -⟩ := Outcome.bind_eq_ok.mp h
    obtain ⟨-, rfl⟩ := Action.require_eq_ok.mp hassert
    exact hassert
  rw [dispatch_debug_eq E hassert] at h
  simp only at h
  split_ifs at h
  cases h
  exact ⟨rfl, rfl⟩

theorem dispatch_begun {track : Track} {w u : World τ} {found : Found}
    (h : dispatch E track w = .ok found u) :
    Begun w u := by
  cases track with
  | cache =>
      obtain ⟨curRange, rfl⟩ := dispatch_cache_begun h
      exact ⟨curRange, _, rfl⟩
  | debug => exact ⟨_, _, (dispatch_debug_eq_ok h).2⟩

/-! ## What comes after it -/

theorem checkMovprfx_eq_ok {wasMovprfx : Bool} {w v : World τ} {u : Unit}
    (h : checkMovprfx E wasMovprfx w = .ok u v) :
    v = w := by
  cases wasMovprfx with
  | false =>
      cases h
      rfl
  | true =>
      simp only [checkMovprfx, if_true] at h
      obtain ⟨_, x, hassert, hpair⟩ := Outcome.bind_eq_ok.mp h
      obtain ⟨-, rfl⟩ := Action.require_eq_ok.mp hassert
      exact (Action.require_eq_ok.mp hpair).2

theorem stepTail_eq_ok {wasMovprfx : Bool} {x v : World τ}
    (h : stepTail E wasMovprfx x = .ok () v) :
    v = x.setCore (finishStep x.core) := by
  simp only [stepTail, Action.bind_apply] at h
  obtain ⟨_, y, hcheck, hfinish⟩ := Outcome.bind_eq_ok.mp h
  obtain rfl := checkMovprfx_eq_ok hcheck
  cases hfinish
  rfl

theorem settle_eq_ok {track : Track} {x v : World τ} (h : settle track x = .ok () v) :
    v = x := by
  cases track with
  | cache =>
      cases h
      rfl
  | debug => exact (Action.require_eq_ok.mp h).2

theorem runVisitor_commit {v : Visitor} {word : Word} {w : World τ} {target : Addr} {c : Core}
    (h : v.branchStep E word w.core = some (.commit target c)) :
    runVisitor E H nested v word w = gabyHookedWritePc E H nested target (w.setCore c) := by
  rw [runVisitor_branch E H nested h]
  rfl

/-- The tail of the step and the check of its track. -/
def conclude (E : Env) (track : Track) (wasMovprfx : Bool) : Act τ Bool := do
  stepTail E wasMovprfx
  settle track
  pure true

theorem stepOnce_dispatch {w : World τ} (hpc : w.core.pc ≠ 0) (track : Track) :
    stepOnce E H nested track w = (dispatch E track w).bind fun found u =>
      (runVisitor E H nested found.2 u.core.instr
        (u.setCore (u.core.writeFormHash found.1))).bind fun _ x =>
          conclude E track (lastInstrWasMovprfx u.core) x := by
  rw [stepOnce_eq E H nested hpc, execute_eq, Outcome.bind_assoc]
  congr 1
  funext found u
  simp only [visitFound, runForm, Action.bind_apply, modifyCore_apply, Outcome.bind_ok,
    Outcome.bind_assoc]
  rfl

/-- The interpreter state in which the visitor of a form runs. -/
def visitCore (c : Core) (hash : FormHash) : Core := (beginStep c).writeFormHash hash

theorem stepOnce_visit {track : Track} {w u : World τ} {found : Found} (hpc : w.core.pc ≠ 0)
    (hfound : dispatch E track w = .ok found u) :
    stepOnce E H nested track w =
      (runVisitor E H nested found.2 w.core.instr
        (u.setCore (visitCore w.core found.1))).bind fun _ x =>
          conclude E track (lastInstrWasMovprfx w.core) x := by
  rw [stepOnce_dispatch hpc, hfound, Outcome.bind_ok, (dispatch_begun hfound).core]
  rfl

theorem conclude_eq_ok {track : Track} {wasMovprfx more : Bool} {x v : World τ}
    (h : conclude E track wasMovprfx x = .ok more v) :
    v = x.setCore (finishStep x.core) := by
  simp only [conclude, Action.bind_apply] at h
  obtain ⟨_, y, htail, hrest⟩ := Outcome.bind_eq_ok.mp h
  obtain ⟨_, z, hsettle, hdone⟩ := Outcome.bind_eq_ok.mp hrest
  cases hdone
  rw [settle_eq_ok hsettle, stepTail_eq_ok htail]

/-- A step that ends normally ran one visitor and finished the step. -/
theorem stepOnce_eq_ok {track : Track} {w v : World τ}
    (h : stepOnce E H nested track w = .ok true v) :
    w.core.pc ≠ 0 ∧ ∃ found u x, dispatch E track w = .ok found u ∧
      runVisitor E H nested found.2 w.core.instr (u.setCore (visitCore w.core found.1)) =
        .ok () x ∧
      v = x.setCore (finishStep x.core) := by
  have hpc : w.core.pc ≠ 0 := by
    intro hpc
    simp [stepOnce, Core.isSimulationFinished, hpc] at h
  refine ⟨hpc, ?_⟩
  have hrun := h
  rw [stepOnce_dispatch hpc] at hrun
  obtain ⟨found, u, hfound, -⟩ := Outcome.bind_eq_ok.mp hrun
  rw [stepOnce_visit hpc hfound] at h
  obtain ⟨_, x, hvisitor, hend⟩ := Outcome.bind_eq_ok.mp h
  exact ⟨found, u, x, hfound, hvisitor, conclude_eq_ok hend⟩

/-- The checks that end a step abort for no other reason. -/
theorem conclude_aborts (track : Track) (wasMovprfx : Bool) (x : World τ) :
    (conclude E track wasMovprfx x).Ensures (fun _ _ => True)
      (fun reason _ => ∃ condition, reason = .check condition) := by
  have hrequire (b : Bool) (condition : String) (y : World τ) :
      ((Action.require b (.check condition) : Act τ Unit) y).Ensures (fun _ _ => True)
        (fun reason _ => ∃ condition, reason = .check condition) :=
    Action.require_ensures b _ (fun _ => trivial) (fun _ => ⟨condition, rfl⟩)
  have htail : (stepTail E wasMovprfx x).Ensures (fun _ _ => True)
      (fun reason _ => ∃ condition, reason = .check condition) := by
    refine Outcome.Ensures.bind (P := fun _ _ => True) ?_ (fun _ _ _ => trivial)
    cases wasMovprfx with
    | false => trivial
    | true => exact (hrequire _ _ _).bind fun _ _ _ => hrequire _ _ _
  refine htail.bind fun _ y _ => ?_
  refine Outcome.Ensures.bind (P := fun _ _ => True) ?_ (fun _ _ _ => trivial)
  cases track with
  | cache => trivial
  | debug => exact hrequire _ _ y

/-! ## Invariants -/

/-- What survives callbacks and leaves, a step keeps as long as its start does. -/
theorem StepInvariant.stepOnce {calls : ExecCall → Prop} {writes : RegisterWrite → Prop}
    {P : World τ → Prop} (h : StepInvariant E writes P (fun _ _ => True))
    (hH : H.Within calls writes)
    (hcalls : ∀ call, calls call → ∀ w, P w →
      (nested call w).Ensures (fun _ w' => P w') (fun _ _ => True))
    (track : Track)
    (hdispatch : ∀ w found u, dispatch E track w = .ok found u → P w → P u)
    (hlog : ∀ w event, P w → P (w.log (.branch event))) {w : World τ} (hw : P w) :
    (stepOnce E H nested track w).Ensures (fun _ v => P v) (fun _ _ => True) := by
  by_cases hpc : w.core.pc = 0
  · simp only [Engine.stepOnce, Core.isSimulationFinished, hpc, BEq.rfl, if_true]
    exact hw
  cases hfound : dispatch E track w with
  | ok found u =>
      rw [stepOnce_visit hpc hfound]
      have hu := h.setCore u (visitCore w.core found.1) (hdispatch w found u hfound hw)
      refine (h.runVisitor hH hcalls found.2 w.core.instr hu fun _ => hlog).bind ?_
      intro _ x hx
      cases hend : conclude E track (lastInstrWasMovprfx w.core) x with
      | ok more v =>
          rw [conclude_eq_ok hend]
          exact h.setCore x _ hx
      | abort reason v => trivial
      | timeout => trivial
  | abort reason u =>
      rw [stepOnce_dispatch hpc, hfound]
      trivial
  | timeout =>
      rw [stepOnce_dispatch hpc, hfound]
      trivial

/-! ## Related worlds -/

namespace WorldRel

variable {R Q : World τ → World τ → Prop}

theorem dispatch (h : WorldRel R Q)
    (hlookup : ∀ w w', R w w' → Outcome.Rel R Q (lookupEntry w) (lookupEntry w'))
    (haudit : ∀ w w' f, R w w' →
      R { w with sim := { w.sim with lastInstruction := f } }
        { w' with sim := { w'.sim with lastInstruction := f } })
    (track : Track) {w w' : World τ} (hw : R w w') :
    Outcome.Rel R Q (dispatch E track w) (dispatch E track w') := by
  have hrequire (b : Bool) (e : Abort) {u u' : World τ} (hu : R u u') :
      Outcome.Rel R Q ((Action.require b e : Act τ Unit) u)
        ((Action.require b e : Act τ Unit) u') :=
    Action.require_rel b e hu (h.aborted u u' hu)
  have hassert : Outcome.Rel R Q (assertAligned E w) (assertAligned E w') := by
    simp only [assertAligned, h.core w w' hw]
    exact hrequire _ _ hw
  cases track with
  | cache =>
      refine hassert.bind ?_
      intro _ u u' _ _ hu
      refine (h.modifyCore beginStep hu).bind ?_
      intro _ v v' _ _ hv
      refine (hlookup v v' hv).bind ?_
      intro entry x x' _ _ hx
      simp only [Action.bind_apply, requireEntryBType, h.core x x' hx]
      refine (hrequire _ _ hx).bind ?_
      intro _ y y' _ _ hy
      exact .ok hy
  | debug =>
      refine hassert.bind ?_
      intro _ u u' _ _ hu
      refine (h.modifyCore beginStep hu).bind ?_
      intro _ v v' _ _ hv
      simp only [Action.bind_apply, requireBType, h.core v v' hv]
      refine (hrequire _ _ hv).bind ?_
      intro _ x x' _ _ hx
      simp only [Action.get_apply, Outcome.bind_ok, h.core x x' hx, auditorVisit,
        Action.modify_apply]
      have haudited := haudit x x' (E.instructionFeatures x'.core.instr) hx
      split_ifs
      · exact .abort (h.aborted _ _ haudited)
      · exact .ok haudited

/-- Related worlds in which the auditor's result is accepted alike end a step alike. -/
theorem conclude (h : WorldRel R Q) (track : Track) (wasMovprfx : Bool) {w w' : World τ}
    (hw : R w w')
    (havailable : ∀ v v', R v v' → v = w.setCore (finishStep w.core) →
      v' = w'.setCore (finishStep w'.core) → track = .debug →
        v.sim.instructionIsAvailable = v'.sim.instructionIsAvailable) :
    Outcome.Rel R Q (conclude E track wasMovprfx w) (conclude E track wasMovprfx w') := by
  refine (h.stepTail wasMovprfx hw).bind ?_
  intro _ v v' hv hv' hvv'
  refine Outcome.Rel.bind (R := R) ?_ (fun _ _ _ _ _ hx => .ok hx)
  cases track with
  | cache => exact .ok hvv'
  | debug =>
      simp only [settle, checkAvailable,
        havailable v v' hvv' (stepTail_eq_ok hv) (stepTail_eq_ok hv') rfl]
      exact Action.require_rel _ _ hvv' (h.aborted v v' hvv')

theorem stepOnce {nested' : ExecCall → Act τ Bool} (h : WorldRel R Q)
    (hobs : ObserversRel E H H nested nested' R Q) (hhook : HookRel E H nested nested' R Q)
    {track : Track}
    (hdispatch : ∀ w w', R w w' →
      Outcome.Rel R Q (Engine.dispatch E track w) (Engine.dispatch E track w'))
    (havailable : ∀ v v', R v v' →
      v.sim.instructionIsAvailable = v'.sim.instructionIsAvailable)
    {w w' : World τ} (hw : R w w') :
    Outcome.Rel R Q (stepOnce E H nested track w) (stepOnce E H nested' track w') := by
  have hcore := h.core w w' hw
  by_cases hpc : w.core.pc = 0
  · have hpc' : w'.core.pc = 0 := by rw [← hcore, hpc]
    simp only [Engine.stepOnce, Core.isSimulationFinished, hpc, hpc', BEq.rfl, if_true]
    exact .ok hw
  · have hpc' : w'.core.pc ≠ 0 := by rwa [← hcore]
    rw [stepOnce_dispatch hpc, stepOnce_dispatch hpc']
    refine (hdispatch w w' hw).bind ?_
    intro found u u' _ _ hu
    have hstarted : R (u.setCore (u.core.writeFormHash found.1))
        (u'.setCore (u'.core.writeFormHash found.1)) := by
      rw [← h.core u u' hu]
      exact h.setCore u u' _ hu
    rw [← h.core u u' hu]
    rw [← h.core u u' hu] at hstarted
    refine (h.runVisitor hobs found.2 u.core.instr hstarted ?_).bind ?_
    · intro target c _
      exact h.gabyHookedWritePc hhook target (h.setCore _ _ c hstarted)
    · intro _ x x' _ _ hx
      exact h.conclude track _ hx fun v v' hv _ _ _ => havailable v v' hv

end WorldRel

/-- A relation that also survives what a step does before it runs a visitor. -/
structure VisitRel (E : Env) (R Q : World τ → World τ → Prop) : Prop
    extends HostRel E R Q where
  cache : ∀ w w', R w w' → w.cache = w'.cache
  curRange : ∀ w w', R w w' → w.sim.curRange = w'.sim.curRange
  setRange : ∀ w w' r, R w w' →
    R { w with sim := { w.sim with curRange := r } }
      { w' with sim := { w'.sim with curRange := r } }
  setAudit : ∀ w w' f, R w w' →
    R { w with sim := { w.sim with lastInstruction := f } }
      { w' with sim := { w'.sim with lastInstruction := f } }

namespace VisitRel

variable {R Q : World τ → World τ → Prop}

theorem lookupEntry (h : VisitRel E R Q) {w w' : World τ} (hw : R w w') :
    Outcome.Rel R Q (lookupEntry w) (lookupEntry w') := by
  have hrange := h.curRange w w' hw
  have hcore := h.core w w' hw
  cases hcache : w.cache with
  | none =>
      have hcache' : w'.cache = none := by rw [← h.cache w w' hw, hcache]
      simp only [Engine.lookupEntry, hcache, hcache']
      exact .abort (h.aborted w w' hw)
  | some cache =>
      have hcache' : w'.cache = some cache := by rw [← h.cache w w' hw, hcache]
      cases hentry : cache.selectEntry w.sim.curRange w.core.pc with
      | none =>
          simp only [Engine.lookupEntry, hcache, hcache', ← hrange, ← hcore, hentry]
          exact .abort (h.aborted w w' hw)
      | some entry =>
          have hentry' : cache.selectEntry w'.sim.curRange w'.core.pc = some entry := by
            rw [← hrange, ← hcore, hentry]
          rw [lookupEntry_eq hcache hentry, lookupEntry_eq hcache' hentry', ← hrange, ← hcore]
          exact .ok (h.setRange w w' _ hw)

theorem dispatch (h : VisitRel E R Q) (track : Track) {w w' : World τ} (hw : R w w') :
    Outcome.Rel R Q (dispatch E track w) (dispatch E track w') :=
  h.toWorldRel.dispatch (fun _ _ hv => h.lookupEntry hv) h.setAudit track hw

/-- With the same callbacks, a step takes related worlds to related worlds. -/
theorem stepOnce {nested' : ExecCall → Act τ Bool} {calls : ExecCall → Prop}
    {writes : RegisterWrite → Prop} (h : VisitRel E R Q) (hH : H.Within calls writes)
    (hcalls : ∀ call, calls call → ∀ w w', R w w' →
      Outcome.Rel R Q (nested call w) (nested' call w'))
    (havailable : ∀ v v', R v v' →
      v.sim.instructionIsAvailable = v'.sim.instructionIsAvailable)
    (track : Track) {w w' : World τ} (hw : R w w') :
    Outcome.Rel R Q (stepOnce E H nested track w) (stepOnce E H nested' track w') :=
  h.toWorldRel.stepOnce (h.observers hH rfl hcalls) (h.hook hH hcalls)
    (fun _ _ hv => h.dispatch track hv) havailable hw

end VisitRel

/-! ## What a step asks -/

/-- The target and the world with which a step asks its hook. -/
def asked (E : Env) (track : Track) (w : World τ) : Option (Addr × World τ) :=
  (dispatch E track w).result?.bind fun r =>
    match r.1.2.branchStep E w.core.instr (visitCore w.core r.1.1) with
    | some (.commit target c) =>
        some (target, (r.2.setCore c).log (.branch (branchEvent (r.2.setCore c) target)))
    | _ => none

theorem asked_eq_some {E : Env} {track : Track} {w u : World τ} {target : Addr} :
    asked E track w = some (target, u) ↔
      ∃ found x c, dispatch E track w = .ok found x ∧
        found.2.branchStep E w.core.instr (visitCore w.core found.1) =
          some (.commit target c) ∧
        u = (x.setCore c).log (.branch (branchEvent (x.setCore c) target)) := by
  constructor
  · intro h
    obtain ⟨⟨found, x⟩, hfound, hmatch⟩ := Option.bind_eq_some_iff.mp h
    have hdispatch := Outcome.eq_ok_of_result?_eq hfound
    split at hmatch
    · rename_i target' c hbranch
      cases hmatch
      exact ⟨found, x, c, hdispatch, hbranch, rfl⟩
    · cases hmatch
  · rintro ⟨found, x, c, hdispatch, hbranch, rfl⟩
    simp [asked, hdispatch, Outcome.result?, hbranch]

end GabyVm.Engine
