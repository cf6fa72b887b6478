import GabyVm.Engine.Step

/-!
# Rules for steps with callbacks

A callback may do anything that a host program can do, so a fact about a step
needs to be one that no host operation breaks.  `HostInvariant` lists what a
property of worlds has to survive, `HostRel` what a relation between two
worlds has to survive.  Each is then carried once through host programs,
leaves, branch commits and visitors.
-/

namespace GabyVm.Engine

open GabyVm.Aarch64
open GabyVm.Cache
open GabyVm.Foundation

variable {τ : Type} {α : Type} {E : Env} {H H' : Host τ}
  {nested nested' : ExecCall → Act τ Bool}
  {calls : ExecCall → Prop} {writes : RegisterWrite → Prop}

/-! ## Invariants -/

/-- Host operations keep `P`, and a register write that aborts gives `Q`. -/
structure HostInvariant (E : Env) (writes : RegisterWrite → Prop) (P : World τ → Prop)
    (Q : Abort → World τ → Prop) : Prop where
  setHost : ∀ w t, P w → P { w with host := t }
  write : ∀ r w, writes r → P w → (writeRegister r w).Ensures (fun _ w' => P w') Q
  writeByte : ∀ w a b, P w → P (w.writeByte a b)
  register : ∀ w start sizeBytes alloc, P w → P (w.register E start sizeBytes alloc).2
  setTraceParameters : ∀ w parameters, P w → P (w.setTraceParameters parameters)

section Invariants

variable {P : World τ → Prop} {Q : Abort → World τ → Prop}

def ofRegisterWrite : Abort → Bool
  | .gpRegisterOutOfRange _ => true
  | .vRegisterOutOfRange _ => true
  | .sysRegisterOutOfRange _ => true
  | .btypeOutOfRange _ => true
  | _ => false

/-! ### Register writes -/

/-- What a register write does, whatever the state. -/
inductive WriteEffect where
  | core (f : Core → Core)
  | fpsr (value : BitVec 32)
  | rejected (reason : Abort)

def RegisterWrite.effect : RegisterWrite → WriteEffect
  | .gp code value =>
      if code ≤ gpSP then .core (·.writeRegister (Core.registerIndex code.toNat) value)
      else if code = gpPC then .core (·.writePc value)
      else .rejected (.gpRegisterOutOfRange code.toNat)
  | .v code value =>
      if code ≤ 31 then
        let i : Fin 32 := Core.registerIndex code.toNat
        .core fun c => { c with
          vregisters := fun j => if j = i then (c.vregisters i).writeQ value else c.vregisters j }
      else .rejected (.vRegisterOutOfRange code.toNat)
  | .sys code value =>
      if code = sysNZCV then .core fun c => { c with nzcv := c.nzcv.setRawValue value }
      else if code = sysFPCR then .core fun c => { c with fpcr := c.fpcr.setRawValue value }
      else if code = sysFPSR then .fpsr value
      else if code = sysBType then
        match btypeOfBits (value.setWidth 8) with
        | some b => .core fun c => (c.writeNextBType b).updateBType
        | none => .rejected (.btypeOutOfRange (value.setWidth 8).toNat)
      else .rejected (.sysRegisterOutOfRange code.toNat)

theorem Sim.write_eq_effect (s : Sim) (r : RegisterWrite) :
    s.write r = match r.effect with
      | .core f => .ok (s.setCore (f s.core))
      | .fpsr value => .ok { s with fpsrStorage := value }
      | .rejected reason => .error reason := by
  cases r with
  | gp code value =>
      simp only [Sim.write, Sim.writeGp, RegisterWrite.effect]
      split_ifs <;> rfl
  | v code value =>
      simp only [Sim.write, Sim.writeV, RegisterWrite.effect]
      split_ifs <;> rfl
  | sys code value =>
      simp only [Sim.write, Sim.writeSys, RegisterWrite.effect]
      split_ifs
      · rfl
      · rfl
      · rfl
      · cases btypeOfBits (value.setWidth 8) <;> rfl
      · rfl

theorem writeRegister_eq_effect (r : RegisterWrite) (w : World τ) :
    writeRegister r w = match r.effect with
      | .core f => .ok () (w.setCore (f w.core))
      | .fpsr value => .ok () { w with sim := { w.sim with fpsrStorage := value } }
      | .rejected reason => .abort reason w := by
  rw [writeRegister, Sim.write_eq_effect]
  cases r.effect <;> rfl

theorem RegisterWrite.effect_rejected {r : RegisterWrite} {reason : Abort}
    (h : r.effect = .rejected reason) : ofRegisterWrite reason = true := by
  cases r with
  | gp code value =>
      simp only [effect] at h
      split_ifs at h
      cases h
      rfl
  | v code value =>
      simp only [effect] at h
      split_ifs at h
      cases h
      rfl
  | sys code value =>
      simp only [effect] at h
      split_ifs at h
      · split at h
        · cases h
        · cases h
          rfl
      · cases h
        rfl

/-- The part of the interpreter state that register writes reach. -/
structure Writable where
  registers : Fin 32 → BitVec 64
  vregisters : Fin 32 → SimVRegister
  nzcv : SimSystemRegister
  fpcr : SimSystemRegister
  pc : Addr
  pcModified : Bool
  btype : BType
  nextBtype : BType

def rewritten (c : Core) (x : Writable) : Core :=
  { c with
    registers := x.registers
    vregisters := x.vregisters
    nzcv := x.nzcv
    fpcr := x.fpcr
    pc := x.pc
    pcModified := x.pcModified
    btype := x.btype
    nextBtype := x.nextBtype }

structure Writable.SamePosition (x : Writable) (c : Core) : Prop where
  pc : x.pc = c.pc
  pcModified : x.pcModified = c.pcModified
  btype : x.btype = c.btype
  nextBtype : x.nextBtype = c.nextBtype

theorem RegisterWrite.effect_core {r : RegisterWrite} {f : Core → Core} (h : r.effect = .core f)
    (c : Core) :
    ∃ x : Writable, f c = rewritten c x ∧ (r.KeepsPosition → x.SamePosition c) ∧
      (x.nextBtype = c.nextBtype ∨ x.nextBtype = .default) := by
  cases r with
  | gp code value =>
      simp only [effect] at h
      split_ifs at h with hsp hpc
      · cases h
        exact ⟨⟨_, _, _, _, _, _, _, _⟩, rfl, fun _ => ⟨rfl, rfl, rfl, rfl⟩, .inl rfl⟩
      · cases h
        exact ⟨⟨_, _, _, _, _, _, _, _⟩, rfl, fun hkeeps => absurd hpc hkeeps, .inl rfl⟩
  | v code value =>
      simp only [effect] at h
      split_ifs at h
      cases h
      exact ⟨⟨_, _, _, _, _, _, _, _⟩, rfl, fun _ => ⟨rfl, rfl, rfl, rfl⟩, .inl rfl⟩
  | sys code value =>
      simp only [effect] at h
      split_ifs at h with _ _ _ hbtype
      · cases h
        exact ⟨⟨_, _, _, _, _, _, _, _⟩, rfl, fun _ => ⟨rfl, rfl, rfl, rfl⟩, .inl rfl⟩
      · cases h
        exact ⟨⟨_, _, _, _, _, _, _, _⟩, rfl, fun _ => ⟨rfl, rfl, rfl, rfl⟩, .inl rfl⟩
      · split at h
        · cases h
          exact ⟨⟨_, _, _, _, _, _, _, _⟩, rfl, fun hkeeps => absurd hbtype hkeeps, .inr rfl⟩
        · cases h

theorem writeRegister_frame (r : RegisterWrite) {w : World τ}
    (hcore : ∀ x : Writable, (r.KeepsPosition → x.SamePosition w.core) →
      x.nextBtype = w.core.nextBtype ∨ x.nextBtype = .default → P (w.setCore (rewritten w.core x)))
    (hfpsr : ∀ value, P { w with sim := { w.sim with fpsrStorage := value } })
    (habort : ∀ reason, ofRegisterWrite reason = true → Q reason w) :
    (writeRegister r w).Ensures (fun _ w' => P w') Q := by
  rw [writeRegister_eq_effect]
  cases heffect : r.effect with
  | core f =>
      obtain ⟨x, hx, hposition, hstaged⟩ := RegisterWrite.effect_core heffect w.core
      simp only [Outcome.ensures_ok, hx]
      exact hcore x hposition hstaged
  | fpsr value => exact hfpsr value
  | rejected reason => exact habort reason (RegisterWrite.effect_rejected heffect)

theorem writeRegister_ensures (r : RegisterWrite) {w : World τ}
    (hcore : ∀ c, P (w.setCore c))
    (hfpsr : ∀ value, P { w with sim := { w.sim with fpsrStorage := value } })
    (habort : ∀ reason, ofRegisterWrite reason = true → Q reason w) :
    (writeRegister r w).Ensures (fun _ w' => P w') Q :=
  writeRegister_frame r (fun _ _ _ => hcore _) hfpsr habort

theorem HostInvariant.run (h : HostInvariant E writes P Q) {p : HostProg τ α}
    (hp : p.Within calls writes)
    (hcalls : ∀ call, calls call → ∀ w, P w → (nested call w).Ensures (fun _ w' => P w') Q)
    {w : World τ} (hw : P w) :
    (p.run E nested w).Ensures (fun _ w' => P w') Q := by
  induction hp generalizing w with
  | ret a => exact hw
  | getHost _ ih => exact ih w.host hw
  | setHost _ ih => exact ih (h.setHost w _ hw)
  | readAll _ ih => exact ih w.sim.readAll hw
  | write hr _ ih =>
      apply (h.write _ w hr hw).bind
      intro _ w' hw'
      exact ih hw'
  | readMemory _ ih => exact ih (w.core.memory _) hw
  | writeMemory _ ih => exact ih (h.writeByte w _ _ hw)
  | exec hcall _ ih =>
      apply (hcalls _ hcall w hw).bind
      intro more w' hw'
      exact ih more hw'
  | registerCodeRange _ ih => exact ih _ (h.register w _ _ _ hw)
  | setTraceParameters _ ih => exact ih (h.setTraceParameters w _ hw)

/-- `P` does not depend on the interpreter state, nor on the stores reported. -/
structure StepInvariant (E : Env) (writes : RegisterWrite → Prop) (P : World τ → Prop)
    (Q : Abort → World τ → Prop) : Prop extends HostInvariant E writes P Q where
  setCore : ∀ w c, P w → P (w.setCore c)
  logStore : ∀ w event, P w → P (w.log (.memoryWrite event))
  aborted : ∀ e w, e ≠ .wrongBType → P w → Q e w

namespace StepInvariant

theorem notifyStore (h : StepInvariant E writes P Q) (hH : H.Within calls writes)
    (hcalls : ∀ call, calls call → ∀ w, P w → (nested call w).Ensures (fun _ w' => P w') Q)
    (event : MemoryWriteEvent) {w : World τ} (hw : P w) :
    (notifyStore E H nested event w).Ensures (fun _ w' => P w') Q := by
  unfold Engine.notifyStore
  cases hobs : H.memoryWriteObserver with
  | none => exact hw
  | some observer =>
      exact h.toHostInvariant.run (hH.observer observer hobs event) hcalls (h.logStore w _ hw)

theorem runLeaf (h : StepInvariant E writes P Q) (hH : H.Within calls writes)
    (hcalls : ∀ call, calls call → ∀ w, P w → (nested call w).Ensures (fun _ w' => P w') Q)
    (p : LeafProg) {w : World τ} (hw : P w) :
    (runLeaf E H nested p w).Ensures (fun _ w' => P w') Q := by
  induction p generalizing w with
  | done c => exact h.setCore w c hw
  | abort message c => exact h.aborted _ _ (by simp) (h.setCore w c hw)
  | store event c next ih =>
      apply (h.notifyStore hH hcalls event (h.setCore w c hw)).bind
      intro _ w' hw'
      exact ih w'.core hw'

theorem gabyHookedWritePc (h : StepInvariant E writes P Q) (hH : H.Within calls writes)
    (hcalls : ∀ call, calls call → ∀ w, P w → (nested call w).Ensures (fun _ w' => P w') Q)
    (hlog : ∀ w event, P w → P (w.log (.branch event)))
    (target : Addr) {w : World τ} (hw : P w) :
    (gabyHookedWritePc E H nested target w).Ensures (fun _ w' => P w') Q := by
  unfold Engine.gabyHookedWritePc
  cases hhook : H.branchHook with
  | none => exact h.setCore w _ hw
  | some hook =>
      apply (h.toHostInvariant.run (hH.branchHook hook hhook target) hcalls
        (hlog w _ hw)).bind
      intro next w' hw'
      cases isWordAligned next with
      | true => exact h.setCore w' _ hw'
      | false => exact h.aborted _ w' (by simp) hw'

theorem runVisitor (h : StepInvariant E writes P Q) (hH : H.Within calls writes)
    (hcalls : ∀ call, calls call → ∀ w, P w → (nested call w).Ensures (fun _ w' => P w') Q)
    (v : Visitor) (word : Word) {w : World τ} (hw : P w)
    (hlog : v.branchStep E word w.core ≠ none → ∀ w event, P w → P (w.log (.branch event))) :
    (runVisitor E H nested v word w).Ensures (fun _ w' => P w') Q := by
  cases hstep : v.branchStep E word w.core with
  | some step =>
      rw [runVisitor_branch E H nested hstep]
      cases step with
      | fallThrough c => exact h.setCore w c hw
      | commit target c =>
          exact h.gabyHookedWritePc hH hcalls (hlog (by simp [hstep])) target
            (h.setCore w c hw)
      | abort reason c => exact h.aborted _ _ (branchStep_reason hstep) (h.setCore w c hw)
  | none =>
      cases v with
      | unimplemented =>
          exact Action.require_ensures _ _ (fun _ => hw) (fun _ => h.aborted _ w (by simp) hw)
      | unallocated => exact h.aborted _ w (by simp) hw
      | leaf leaf => exact h.runLeaf hH hcalls (leaf word w.core) hw
      | _ => simp [Visitor.branchStep] at hstep

theorem checkMovprfx (h : StepInvariant E writes P Q) (wasMovprfx : Bool) {w : World τ}
    (hw : P w) :
    (checkMovprfx E wasMovprfx w).Ensures (fun _ w' => P w') Q := by
  have hcheck (b : Bool) (condition : String) {v : World τ} (hv : P v) :
      ((Action.require b (.check condition) : Act τ Unit) v).Ensures (fun _ w' => P w') Q :=
    Action.require_ensures b _ (fun _ => hv) (fun _ => h.aborted _ v (by simp) hv)
  cases wasMovprfx with
  | false => exact hw
  | true =>
      apply (hcheck _ _ hw).bind
      intro _ w' hw'
      exact hcheck _ _ hw'

theorem stepTail (h : StepInvariant E writes P Q) (wasMovprfx : Bool) {w : World τ}
    (hw : P w) :
    (stepTail E wasMovprfx w).Ensures (fun _ w' => P w') Q := by
  apply (h.checkMovprfx wasMovprfx hw).bind
  intro _ w' hw'
  exact h.setCore w' _ hw'

end StepInvariant

end Invariants

/-! ## The callbacks of a leaf -/

/-- `ok` holds of every store that the leaf reports, in the world that reports it. -/
def LeafCallbacks (E : Env) (H : Host τ) (nested : ExecCall → Act τ Bool)
    (ok : MemoryWriteEvent → World τ → Prop) : LeafProg → World τ → Prop
  | .done _, _ => True
  | .abort _ _, _ => True
  | .store event c next, w => ok event (w.setCore c) ∧
      ∀ v, notifyStore E H nested event (w.setCore c) = .ok () v →
        LeafCallbacks E H nested ok (next v.core) v

theorem leafCallbacks_of {nested : ExecCall → Act τ Bool} {ok : MemoryWriteEvent → World τ → Prop}
    (hok : ∀ event w, ok event w) (p : LeafProg) (w : World τ) :
    LeafCallbacks E H nested ok p w := by
  induction p generalizing w with
  | done c => trivial
  | abort message c => trivial
  | store event c next ih => exact ⟨hok event _, fun v _ => ih v.core v⟩

/-! ## Relations -/

theorem writeRegister_rel {R Q : World τ → World τ → Prop} (r : RegisterWrite) {w w' : World τ}
    (hcore : w.core = w'.core) (hset : ∀ c, R (w.setCore c) (w'.setCore c))
    (hfpsr : ∀ value, R { w with sim := { w.sim with fpsrStorage := value } }
      { w' with sim := { w'.sim with fpsrStorage := value } })
    (habort : Q w w') :
    Outcome.Rel R Q (writeRegister r w) (writeRegister r w') := by
  rw [writeRegister_eq_effect, writeRegister_eq_effect, hcore]
  cases r.effect with
  | core f => exact .ok (hset _)
  | fpsr value => exact .ok (hfpsr value)
  | rejected reason => exact .abort habort

/-- What the interpreter itself does takes worlds related by `R` to such worlds. -/
structure WorldRel (R Q : World τ → World τ → Prop) : Prop where
  core : ∀ w w', R w w' → w.core = w'.core
  readAll : ∀ w w', R w w' → w.sim.readAll = w'.sim.readAll
  setCore : ∀ w w' c, R w w' → R (w.setCore c) (w'.setCore c)
  log : ∀ w w' e, R w w' → R (w.log e) (w'.log e)
  aborted : ∀ w w', R w w' → Q w w'

/-- The observers are the same, and do the same in worlds related by `R`. -/
structure ObserversRel (E : Env) (H H' : Host τ) (nested nested' : ExecCall → Act τ Bool)
    (R Q : World τ → World τ → Prop) : Prop where
  same : H'.memoryWriteObserver = H.memoryWriteObserver
  run : ∀ observer, H.memoryWriteObserver = some observer → ∀ event w w', R w w' →
    Outcome.Rel R Q ((observer event).run E nested w) ((observer event).run E nested' w')

/-- The hook does the same in worlds related by `R`. -/
def HookRel (E : Env) (H : Host τ) (nested nested' : ExecCall → Act τ Bool)
    (R Q : World τ → World τ → Prop) : Prop :=
  ∀ hook, H.branchHook = some hook → ∀ target w w', R w w' →
    Outcome.Rel R Q ((hook target).run E nested w) ((hook target).run E nested' w')

namespace WorldRel

variable {R Q : World τ → World τ → Prop}

theorem modifyCore (h : WorldRel R Q) (f : Core → Core) {w w' : World τ} (hw : R w w') :
    Outcome.Rel R Q (modifyCore f w) (modifyCore f w') := by
  simp only [modifyCore_apply, h.core w w' hw]
  exact .ok (h.setCore w w' _ hw)

theorem notifyStore (h : WorldRel R Q) (hobs : ObserversRel E H H' nested nested' R Q)
    (event : MemoryWriteEvent) {w w' : World τ} (hw : R w w') :
    Outcome.Rel R Q (notifyStore E H nested event w)
      (notifyStore E H' nested' event w') := by
  simp only [Engine.notifyStore, hobs.same]
  cases hobserver : H.memoryWriteObserver with
  | none => exact .ok hw
  | some observer => exact hobs.run observer hobserver event _ _ (h.log w w' _ hw)

theorem runLeaf (h : WorldRel R Q) (hobs : ObserversRel E H H' nested nested' R Q)
    (p : LeafProg) {w w' : World τ} (hw : R w w') :
    Outcome.Rel R Q (runLeaf E H nested p w) (runLeaf E H' nested' p w') := by
  induction p generalizing w w' with
  | done c => exact h.modifyCore _ hw
  | abort message c => exact .abort (h.aborted _ _ (h.setCore w w' c hw))
  | store event c next ih =>
      apply (h.notifyStore hobs event (h.setCore w w' c hw)).bind
      intro _ v v' _ _ hv
      simp only [h.core v v' hv]
      exact ih v'.core hv

theorem branchEvent (h : WorldRel R Q) (target : Addr) {w w' : World τ} (hw : R w w') :
    branchEvent w target = branchEvent w' target := by
  simp only [Engine.branchEvent, h.core w w' hw, h.readAll w w' hw]

theorem gabyHookedWritePc (h : WorldRel R Q) (hhook : HookRel E H nested nested' R Q)
    (target : Addr) {w w' : World τ} (hw : R w w') :
    Outcome.Rel R Q (gabyHookedWritePc E H nested target w)
      (gabyHookedWritePc E H nested' target w') := by
  unfold Engine.gabyHookedWritePc
  cases hinstalled : H.branchHook with
  | none => exact h.modifyCore _ hw
  | some hook =>
      simp only [h.branchEvent target hw]
      apply (hhook hook hinstalled target _ _ (h.log w w' _ hw)).bind
      intro next v v' _ _ hv
      cases isWordAligned next with
      | true => exact h.modifyCore (·.writePc next) hv
      | false => exact .abort (h.aborted _ _ hv)

/-- Equal states take equal branch steps, so only the commit has to be compared. -/
theorem runVisitor (h : WorldRel R Q) (hobs : ObserversRel E H H' nested nested' R Q)
    (v : Visitor) (word : Word) {w w' : World τ} (hw : R w w')
    (hcommit : ∀ target c, v.branchStep E word w.core = some (.commit target c) →
      Outcome.Rel R Q (Engine.gabyHookedWritePc E H nested target (w.setCore c))
        (Engine.gabyHookedWritePc E H' nested' target (w'.setCore c))) :
    Outcome.Rel R Q (runVisitor E H nested v word w)
      (runVisitor E H' nested' v word w') := by
  have hcore := h.core w w' hw
  cases hstep : v.branchStep E word w.core with
  | some step =>
      rw [runVisitor_branch E H nested hstep, runVisitor_branch E H' nested' (hcore ▸ hstep)]
      cases step with
      | fallThrough c => exact .ok (h.setCore w w' c hw)
      | commit target c => exact hcommit target c hstep
      | abort reason c => exact .abort (h.aborted _ _ (h.setCore w w' c hw))
  | none =>
      cases v with
      | unimplemented =>
          exact Action.require_rel _ _ hw (h.aborted w w' hw)
      | unallocated => exact .abort (h.aborted w w' hw)
      | leaf leaf =>
          simp only [Engine.runVisitor, hcore]
          exact h.runLeaf hobs (leaf word w'.core) hw
      | _ => simp [Visitor.branchStep] at hstep

theorem checkMovprfx (h : WorldRel R Q) (wasMovprfx : Bool) {w w' : World τ}
    (hw : R w w') :
    Outcome.Rel R Q (checkMovprfx E wasMovprfx w) (checkMovprfx E wasMovprfx w') := by
  cases wasMovprfx with
  | false => exact .ok hw
  | true =>
      simp only [Engine.checkMovprfx, h.core w w' hw, if_true]
      apply (Action.require_rel _ _ hw (h.aborted w w' hw)).bind
      intro _ v v' _ _ hv
      simp only [h.core v v' hv]
      exact Action.require_rel _ _ hv (h.aborted v v' hv)

theorem stepTail (h : WorldRel R Q) (wasMovprfx : Bool) {w w' : World τ} (hw : R w w') :
    Outcome.Rel R Q (stepTail E wasMovprfx w) (stepTail E wasMovprfx w') := by
  apply (h.checkMovprfx wasMovprfx hw).bind
  intro _ v v' _ _ hv
  exact h.modifyCore _ hv

end WorldRel

/--
What a host program does takes worlds related by `R` to such worlds.  It reads
and writes registers and memory, and nothing else of the interpreter.
-/
structure ProgRel (E : Env) (R Q : World τ → World τ → Prop) : Prop where
  host : ∀ w w', R w w' → w.host = w'.host
  readAll : ∀ w w', R w w' → w.sim.readAll = w'.sim.readAll
  memory : ∀ w w', R w w' → w.core.memory = w'.core.memory
  setHost : ∀ w w' t, R w w' → R { w with host := t } { w' with host := t }
  write : ∀ r w w', R w w' → Outcome.Rel R Q (writeRegister r w) (writeRegister r w')
  writeByte : ∀ w w' a b, R w w' → R (w.writeByte a b) (w'.writeByte a b)
  register : ∀ w w' start sizeBytes alloc, R w w' →
    (w.register E start sizeBytes alloc).1 = (w'.register E start sizeBytes alloc).1 ∧
      R (w.register E start sizeBytes alloc).2 (w'.register E start sizeBytes alloc).2
  setTraceParameters : ∀ w w' parameters, R w w' →
    R (w.setTraceParameters parameters) (w'.setTraceParameters parameters)

theorem ProgRel.run {R Q : World τ → World τ → Prop} (h : ProgRel E R Q) {p : HostProg τ α}
    (hp : p.Within calls writes)
    (hcalls : ∀ call, calls call → ∀ w w', R w w' →
      Outcome.Rel R Q (nested call w) (nested' call w'))
    {w w' : World τ} (hw : R w w') :
    Outcome.Rel R Q (p.run E nested w) (p.run E nested' w') := by
  induction hp generalizing w w' with
  | ret a => exact .ok hw
  | getHost _ ih =>
      simp only [HostProg.run, h.host w w' hw]
      exact ih w'.host hw
  | setHost _ ih => exact ih (h.setHost w w' _ hw)
  | readAll _ ih =>
      simp only [HostProg.run, h.readAll w w' hw]
      exact ih w'.sim.readAll hw
  | write _ _ ih =>
      apply (h.write _ w w' hw).bind
      intro _ v v' _ _ hv
      exact ih hv
  | readMemory _ ih =>
      simp only [HostProg.run, h.memory w w' hw]
      exact ih (w'.core.memory _) hw
  | writeMemory _ ih => exact ih (h.writeByte w w' _ _ hw)
  | exec hcall _ ih =>
      apply (hcalls _ hcall w w' hw).bind
      intro more v v' _ _ hv
      exact ih more hv
  | @registerCodeRange start sizeBytes alloc _ _ ih =>
      obtain ⟨hstatus, hnext⟩ := h.register w w' start sizeBytes alloc hw
      simp only [HostProg.run, hstatus]
      exact ih _ hnext
  | setTraceParameters _ ih => exact ih (h.setTraceParameters w w' _ hw)

/-- Host operations take worlds related by `R` to such worlds. -/
structure HostRel (E : Env) (R Q : World τ → World τ → Prop) : Prop where
  core : ∀ w w', R w w' → w.core = w'.core
  host : ∀ w w', R w w' → w.host = w'.host
  readAll : ∀ w w', R w w' → w.sim.readAll = w'.sim.readAll
  setCore : ∀ w w' c, R w w' → R (w.setCore c) (w'.setCore c)
  setHost : ∀ w w' t, R w w' → R { w with host := t } { w' with host := t }
  write : ∀ r w w', R w w' → Outcome.Rel R Q (writeRegister r w) (writeRegister r w')
  register : ∀ w w' start sizeBytes alloc, R w w' →
    (w.register E start sizeBytes alloc).1 = (w'.register E start sizeBytes alloc).1 ∧
      R (w.register E start sizeBytes alloc).2 (w'.register E start sizeBytes alloc).2
  setTraceParameters : ∀ w w' parameters, R w w' →
    R (w.setTraceParameters parameters) (w'.setTraceParameters parameters)
  log : ∀ w w' e, R w w' → R (w.log e) (w'.log e)
  aborted : ∀ w w', R w w' → Q w w'

namespace HostRel

variable {R Q : World τ → World τ → Prop}

theorem toProgRel (h : HostRel E R Q) : ProgRel E R Q where
  host := h.host
  readAll := h.readAll
  memory w w' hw := congrArg Core.memory (h.core w w' hw)
  setHost := h.setHost
  write := h.write
  writeByte w w' a b hw := by
    simp only [World.writeByte, h.core w w' hw]
    exact h.setCore w w' _ hw
  register := h.register
  setTraceParameters := h.setTraceParameters

theorem run (h : HostRel E R Q) {p : HostProg τ α} (hp : p.Within calls writes)
    (hcalls : ∀ call, calls call → ∀ w w', R w w' →
      Outcome.Rel R Q (nested call w) (nested' call w'))
    {w w' : World τ} (hw : R w w') :
    Outcome.Rel R Q (p.run E nested w) (p.run E nested' w') :=
  h.toProgRel.run hp hcalls hw

theorem toWorldRel (h : HostRel E R Q) : WorldRel R Q :=
  ⟨h.core, h.readAll, h.setCore, h.log, h.aborted⟩

theorem observers (h : HostRel E R Q) (hH : H.Within calls writes)
    (hobs : H'.memoryWriteObserver = H.memoryWriteObserver)
    (hcalls : ∀ call, calls call → ∀ w w', R w w' →
      Outcome.Rel R Q (nested call w) (nested' call w')) :
    ObserversRel E H H' nested nested' R Q where
  same := hobs
  run observer hobserver event _ _ hw := h.run (hH.observer observer hobserver event) hcalls hw

theorem hook (h : HostRel E R Q) (hH : H.Within calls writes)
    (hcalls : ∀ call, calls call → ∀ w w', R w w' →
      Outcome.Rel R Q (nested call w) (nested' call w')) :
    HookRel E H nested nested' R Q :=
  fun hook hhook target _ _ hw => h.run (hH.branchHook hook hhook target) hcalls hw

theorem modifyCore (h : HostRel E R Q) (f : Core → Core) {w w' : World τ} (hw : R w w') :
    Outcome.Rel R Q (modifyCore f w) (modifyCore f w') :=
  h.toWorldRel.modifyCore f hw

theorem branchEvent (h : HostRel E R Q) (target : Addr) {w w' : World τ} (hw : R w w') :
    branchEvent w target = branchEvent w' target :=
  h.toWorldRel.branchEvent target hw

theorem gabyHookedWritePc (h : HostRel E R Q) (hH : H.Within calls writes)
    (hcalls : ∀ call, calls call → ∀ w w', R w w' →
      Outcome.Rel R Q (nested call w) (nested' call w'))
    (target : Addr) {w w' : World τ} (hw : R w w') :
    Outcome.Rel R Q (gabyHookedWritePc E H nested target w)
      (gabyHookedWritePc E H nested' target w') :=
  h.toWorldRel.gabyHookedWritePc (h.hook hH hcalls) target hw

theorem runVisitor (h : HostRel E R Q) (hH : H.Within calls writes)
    (hobs : H'.memoryWriteObserver = H.memoryWriteObserver)
    (hcalls : ∀ call, calls call → ∀ w w', R w w' →
      Outcome.Rel R Q (nested call w) (nested' call w'))
    (v : Visitor) (word : Word) {w w' : World τ} (hw : R w w')
    (hcommit : ∀ target c, v.branchStep E word w.core = some (.commit target c) →
      Outcome.Rel R Q (Engine.gabyHookedWritePc E H nested target (w.setCore c))
        (Engine.gabyHookedWritePc E H' nested' target (w'.setCore c))) :
    Outcome.Rel R Q (runVisitor E H nested v word w)
      (runVisitor E H' nested' v word w') :=
  h.toWorldRel.runVisitor (h.observers hH hobs hcalls) v word hw hcommit

theorem stepTail (h : HostRel E R Q) (wasMovprfx : Bool) {w w' : World τ} (hw : R w w') :
    Outcome.Rel R Q (stepTail E wasMovprfx w) (stepTail E wasMovprfx w') :=
  h.toWorldRel.stepTail wasMovprfx hw

end HostRel

end GabyVm.Engine
