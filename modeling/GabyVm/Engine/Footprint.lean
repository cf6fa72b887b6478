import GabyVm.Aarch64.Footprint
import GabyVm.Engine.Visits

/-!
# The memory a step touches

`TouchesOnly` says of an action that it changes own memory only and that what
it does cannot be told from what it does with other bytes in foreign memory.
A step touches no more than its visitor does, as long as the instruction is
not fetched from foreign memory.
-/

namespace GabyVm.Engine

open GabyVm.Aarch64
open GabyVm.Cache
open GabyVm.Foundation

variable {τ α : Type} {E : Env} {H : Host τ} {nested : ExecCall → Act τ Bool}
variable {own foreign : Region}

/-! ## Worlds that differ in foreign memory -/

/-- The second world differs in foreign memory only. -/
def SameBut (foreign : Region) (w w' : World τ) : Prop :=
  ∃ mem, AgreeOutside foreign w.core.memory mem ∧ w' = w.setCore (w.core.withMemory mem)

namespace SameBut

variable {w w' : World τ}

theorem core (h : SameBut foreign w w') : SameCore foreign w.core w'.core := by
  obtain ⟨mem, hmem, rfl⟩ := h
  exact ⟨mem, hmem, rfl⟩

theorem setCore (h : SameBut foreign w w') {c c' : Core} (hc : SameCore foreign c c') :
    SameBut foreign (w.setCore c) (w'.setCore c') := by
  obtain ⟨mem, -, rfl⟩ := h
  obtain ⟨mem', hmem', rfl⟩ := hc
  exact ⟨mem', hmem', rfl⟩

theorem modify (h : SameBut foreign w w') (f : Core → Core)
    (hf : ∀ c mem, f (c.withMemory mem) = (f c).withMemory mem)
    (hmem : ∀ c, (f c).memory = c.memory) :
    SameBut foreign (w.setCore (f w.core)) (w'.setCore (f w'.core)) :=
  h.setCore (h.core.map f hf hmem)

theorem wrongBType (h : SameBut foreign w w') (hfetch : Fetched foreign w.core.pc) :
    wrongBType w'.core = wrongBType w.core := by
  have hinstr := h.core.instr hfetch
  obtain ⟨mem, -, rfl⟩ := h
  have hguard : ((w.setCore (w.core.withMemory mem)).core).guardPages = w.core.guardPages := rfl
  have hbtype : ((w.setCore (w.core.withMemory mem)).core).btype = w.core.btype := rfl
  simp only [Engine.wrongBType, hinstr, hguard, hbtype]

theorem require (h : SameBut foreign w w') (b : Bool) (e : Abort) :
    Outcome.Rel (SameBut foreign) (SameBut foreign) ((Action.require b e : Act τ Unit) w)
      ((Action.require b e : Act τ Unit) w') :=
  Action.require_rel b e h h

end SameBut

/-! ## Register writes -/

theorem effect_withMemory {r : RegisterWrite} {f : Core → Core} (h : r.effect = .core f)
    (c : Core) (mem : Memory) : f (c.withMemory mem) = (f c).withMemory mem := by
  cases r with
  | gp code value =>
      simp only [RegisterWrite.effect] at h
      split_ifs at h <;> cases h <;> rfl
  | v code value =>
      simp only [RegisterWrite.effect] at h
      split_ifs at h
      cases h
      rfl
  | sys code value =>
      simp only [RegisterWrite.effect] at h
      split_ifs at h
      · cases h
        rfl
      · cases h
        rfl
      · split at h <;> cases h
        rfl

theorem writeRegister_sameBut (r : RegisterWrite) {w w' : World τ} (h : SameBut foreign w w') :
    Outcome.Rel (SameBut foreign) (SameBut foreign) (writeRegister r w) (writeRegister r w') := by
  rw [writeRegister_eq_effect, writeRegister_eq_effect]
  cases heffect : r.effect with
  | core f =>
      have hmem (c : Core) : (f c).memory = c.memory := by
        obtain ⟨x, hx, -, -⟩ := RegisterWrite.effect_core heffect c
        rw [hx]
        rfl
      exact .ok (h.modify f (effect_withMemory heffect) hmem)
  | fpsr value =>
      obtain ⟨mem, hmem, rfl⟩ := h
      exact .ok ⟨mem, hmem, rfl⟩
  | rejected reason => exact .abort h

theorem writeRegister_memory {r : RegisterWrite} {w v : World τ} (h : writeRegister r w = .ok () v) :
    v.core.memory = w.core.memory :=
  (writeRegister_frame (P := fun u => u.core.memory = w.core.memory) (Q := fun _ _ => True) r
    (fun _ _ _ => rfl) (fun _ => rfl) (fun _ _ => trivial)).of_eq_ok h

/-! ## Footprints -/

structure TouchesOnly (own foreign : Region) (x : Act τ α) (w : World τ) : Prop where
  writes : ∀ a v, x w = .ok a v → AgreeOutside own w.core.memory v.core.memory
  reads : ∀ w', SameBut foreign w w' →
    Outcome.Rel (SameBut foreign) (SameBut foreign) (x w) (x w')

/-! ### Before and after the visit -/

theorem lookupEntry_sameBut {w w' : World τ} (h : SameBut foreign w w') :
    Outcome.Rel (SameBut foreign) (SameBut foreign) (lookupEntry w) (lookupEntry w') := by
  have hsame := h
  obtain ⟨mem, hmem, hw'⟩ := h
  have hcache' : w'.cache = w.cache := by rw [hw']; rfl
  have hrange' : w'.sim.curRange = w.sim.curRange := by rw [hw']; rfl
  have hpc' : w'.core.pc = w.core.pc := by rw [hw']; rfl
  cases hcache : w.cache with
  | none =>
      simp only [lookupEntry, hcache', hcache]
      exact .abort hsame
  | some cache =>
      cases hentry : cache.selectEntry w.sim.curRange w.core.pc with
      | none =>
          rw [lookupEntry_eq_abort hcache hentry,
            lookupEntry_eq_abort (hcache'.trans hcache) (by rw [hrange', hpc', hentry]), hpc']
          exact .abort hsame
      | some entry =>
          rw [lookupEntry_eq hcache hentry,
            lookupEntry_eq (hcache'.trans hcache) (by rw [hrange', hpc', hentry])]
          subst hw'
          exact .ok ⟨mem, hmem, rfl⟩

theorem dispatch_sameBut (track : Track) {w w' : World τ} (h : SameBut foreign w w')
    (hfetch : Fetched foreign w.core.pc) :
    Outcome.Rel (SameBut foreign) (SameBut foreign) (dispatch E track w)
      (dispatch E track w') := by
  have hbegun := h.modify beginStep (fun _ _ => rfl) fun _ => rfl
  have hassert : Outcome.Rel (fun u u' => u = w ∧ u' = w') (SameBut foreign)
      (assertAligned E w) (assertAligned E w') := by
    have hpc' : w'.core.pc = w.core.pc := by
      obtain ⟨mem, -, rfl⟩ := h
      rfl
    simp only [assertAligned, hpc']
    exact Action.require_rel _ _ ⟨rfl, rfl⟩ h
  cases track with
  | cache =>
      refine hassert.bind ?_
      rintro _ u u' _ _ ⟨rfl, rfl⟩
      simp only [modifyCore_apply, Action.bind_apply, Outcome.bind_ok]
      refine (lookupEntry_sameBut hbegun).bind ?_
      intro entry x x' hx _ hsame
      have hpc : x.core.pc = u.core.pc := by
        obtain ⟨curRange, hx⟩ := lookupEntry_eq_ok hx
        rw [hx]
        rfl
      simp only [requireEntryBType, hsame.wrongBType (hpc ▸ hfetch)]
      refine (hsame.require _ _).bind ?_
      intro _ y y' _ _ hy
      exact .ok hy
  | debug =>
      refine hassert.bind ?_
      rintro _ u u' _ _ ⟨rfl, rfl⟩
      simp only [modifyCore_apply, Action.bind_apply, Outcome.bind_ok, requireBType,
        hbegun.wrongBType hfetch]
      refine (hbegun.require _ _).bind ?_
      intro _ x x' hx _ hsame
      obtain ⟨-, rfl⟩ := Action.require_eq_ok.mp hx
      simp only [Action.get_apply, Outcome.bind_ok, hsame.core.instr hfetch, auditorVisit,
        Action.modify_apply]
      have haudited : SameBut foreign
          { u.setCore (beginStep u.core) with sim := { (u.setCore (beginStep u.core)).sim with
            lastInstruction := E.instructionFeatures (u.setCore (beginStep u.core)).core.instr } }
          { x' with sim := { x'.sim with
            lastInstruction := E.instructionFeatures (u.setCore (beginStep u.core)).core.instr } } := by
        obtain ⟨mem, hmem, rfl⟩ := hsame
        exact ⟨mem, hmem, rfl⟩
      split_ifs
      · exact .abort haudited
      · exact .ok haudited

theorem checkMovprfx_sameBut {wasMovprfx : Bool} {w w' : World τ} (h : SameBut foreign w w')
    (hfetch : wasMovprfx = true → Fetched foreign w.core.pc ∧ Fetched foreign w.core.lastInstr) :
    Outcome.Rel (SameBut foreign) (SameBut foreign) (checkMovprfx E wasMovprfx w)
      (checkMovprfx E wasMovprfx w') := by
  cases wasMovprfx with
  | false => exact .ok h
  | true =>
      obtain ⟨hpc, hlast⟩ := hfetch rfl
      have hinstr := h.core.instr hpc
      have hlastInstr : readWord w'.core.memory w'.core.lastInstr =
          readWord w.core.memory w.core.lastInstr := by
        obtain ⟨mem, hmem, rfl⟩ := h
        exact hlast.readWord hmem
      have hnull : w'.core.lastInstr = w.core.lastInstr ∧ w'.core.formHash = w.core.formHash := by
        obtain ⟨mem, -, rfl⟩ := h
        exact ⟨rfl, rfl⟩
      simp only [checkMovprfx, if_true, vixlAssert, hnull.1]
      refine (h.require _ _).bind ?_
      intro _ u u' hu hu' huu'
      obtain ⟨-, rfl⟩ := Action.require_eq_ok.mp hu
      obtain ⟨-, rfl⟩ := Action.require_eq_ok.mp hu'
      rw [hinstr, hlastInstr, hnull.2]
      exact h.require _ _

theorem finishStep_withMemory (c : Core) (mem : Memory) :
    finishStep (c.withMemory mem) = (finishStep c).withMemory mem := by
  have hmodified : (c.withMemory mem).pcModified = c.pcModified := rfl
  simp only [finishStep, Core.incrementPc, hmodified]
  split_ifs <;> rfl

theorem finishStep_keepsMemory (c : Core) : (finishStep c).memory = c.memory := by
  simp only [finishStep, Core.incrementPc]
  split_ifs <;> rfl

theorem conclude_sameBut (track : Track) {wasMovprfx : Bool} {w w' : World τ}
    (h : SameBut foreign w w')
    (hfetch : wasMovprfx = true → Fetched foreign w.core.pc ∧ Fetched foreign w.core.lastInstr) :
    Outcome.Rel (SameBut foreign) (SameBut foreign) (conclude E track wasMovprfx w)
      (conclude E track wasMovprfx w') := by
  have htail : Outcome.Rel (SameBut foreign) (SameBut foreign) (stepTail E wasMovprfx w)
      (stepTail E wasMovprfx w') := by
    refine (checkMovprfx_sameBut h hfetch).bind ?_
    intro _ u u' _ _ hu
    exact .ok (hu.modify finishStep finishStep_withMemory finishStep_keepsMemory)
  refine htail.bind ?_
  intro _ u u' _ _ hu
  refine Outcome.Rel.bind (R := SameBut foreign) ?_ (fun _ _ _ _ _ hx => .ok hx)
  cases track with
  | cache => exact .ok hu
  | debug =>
      have havailable : u'.sim.instructionIsAvailable = u.sim.instructionIsAvailable := by
        obtain ⟨mem, -, rfl⟩ := hu
        rfl
      simp only [settle, checkAvailable, havailable]
      exact hu.require _ _

/-! ### Visitors -/

theorem runLeaf_sameBut (hobs : H.memoryWriteObserver = none) {mem : Memory} {p p' : LeafProg}
    (hp : LeafTouches own foreign mem p p') {w w' : World τ} (h : SameBut foreign w w') :
    Outcome.Rel (SameBut foreign) (SameBut foreign) (runLeaf E H nested p w)
        (runLeaf E H nested p' w') ∧
      ∀ v, runLeaf E H nested p w = .ok () v → AgreeOutside own mem v.core.memory := by
  induction hp generalizing w w' with
  | done hc hown =>
      refine ⟨.ok (h.setCore hc), fun v hv => ?_⟩
      simp only [runLeaf, modifyCore_apply] at hv
      cases hv
      exact hown
  | abort hc =>
      refine ⟨.abort (h.setCore hc), fun v hv => ?_⟩
      simp only [runLeaf] at hv
      cases hv
  | store hc _ ih =>
      have hsilent (event : MemoryWriteEvent) (x : World τ) :
          notifyStore E H nested event x = .ok () x := by
        simp only [notifyStore, hobs]
        rfl
      simp only [runLeaf, hsilent, Outcome.bind_ok]
      exact ih (h.setCore hc)

theorem leaf_touchesOnly (hobs : H.memoryWriteObserver = none) {run : Leaf} {word : Word}
    {w : World τ}
    (hleaf : ∀ c', SameCore foreign w.core c' →
      LeafTouches own foreign w.core.memory (run word w.core) (run word c')) :
    TouchesOnly own foreign (runVisitor E H nested (.leaf run) word) w where
  writes _ v hv := by
    have hself : SameBut foreign w w := ⟨w.core.memory, .refl _ _, rfl⟩
    exact (runLeaf_sameBut hobs (hleaf w.core hself.core) hself).2 v hv
  reads w' h := (runLeaf_sameBut hobs (hleaf w'.core h.core) h).1

theorem branch_touchesOnly (hhook : H.branchHook = none) {v : Visitor} {word : Word}
    {w : World τ} {step : BranchStep} (hstep : v.branchStep E word w.core = some step) :
    TouchesOnly own foreign (runVisitor E H nested v word) w where
  writes _ x hx := by
    have hmem := branchStep_memory hstep
    rw [runVisitor_branch E H nested hstep] at hx
    have hkept : x.core.memory = w.core.memory := by
      cases step with
      | fallThrough c =>
          cases hx
          exact hmem
      | commit target c =>
          simp only [runBranch, gabyHookedWritePc, hhook] at hx
          cases hx
          exact hmem
      | abort reason c => cases hx
    rw [hkept]
    exact .refl own _
  reads w' h := by
    obtain ⟨mem, hagree, rfl⟩ := h
    have hmem := branchStep_memory hstep
    have hstep' : v.branchStep E word (w.setCore (w.core.withMemory mem)).core =
        some (step.withMemory mem) := by
      rw [World.core_setCore, branchStep_withMemory, hstep]
      rfl
    have hsame (c : Core) (hc : c.memory = w.core.memory) :
        SameBut foreign (w.setCore c) (w.setCore (c.withMemory mem)) :=
      ⟨mem, by rw [World.core_setCore, hc]; exact hagree, rfl⟩
    rw [runVisitor_branch E H nested hstep, runVisitor_branch E H nested hstep']
    cases step with
    | fallThrough c => exact .ok (hsame c hmem)
    | commit target c =>
        simp only [runBranch, BranchStep.withMemory, gabyHookedWritePc, hhook]
        exact .ok (hsame (c.writePc target) hmem)
    | abort reason c => exact .abort (hsame c hmem)

/-! ### Steps -/

theorem stepOnce_touchesOnly {track : Track} {w : World τ} (hfetch : Fetched foreign w.core.pc)
    (hpair : lastInstrWasMovprfx w.core = false)
    (hvisit : ∀ found u, dispatch E track w = .ok found u →
      TouchesOnly own foreign (runVisitor E H nested found.2 w.core.instr)
        (u.setCore (visitCore w.core found.1))) :
    TouchesOnly own foreign (stepOnce E H nested track) w where
  writes more v hv := by
    cases more with
    | false =>
        obtain rfl : v = w := by
          simp only [stepOnce] at hv
          split at hv
          · cases hv
            rfl
          · obtain ⟨_, _, _, hmore⟩ := Outcome.bind_eq_ok.mp hv
            cases hmore
        exact .refl own _
    | true =>
        obtain ⟨-, found, u, x, hfound, hx, rfl⟩ := stepOnce_eq_ok hv
        have hown := (hvisit found u hfound).writes () x hx
        intro a ha
        rw [World.core_setCore, finishStep_keepsMemory]
        exact hown a ha
  reads w' h := by
    have hpc' : w'.core.pc = w.core.pc := by
      obtain ⟨mem, -, rfl⟩ := h
      rfl
    by_cases hpc : w.core.pc = 0
    · simp only [stepOnce, Core.isSimulationFinished, hpc', hpc, BEq.rfl, if_true]
      exact .ok h
    rw [stepOnce_dispatch hpc, stepOnce_dispatch (hpc' ▸ hpc)]
    refine (dispatch_sameBut track h hfetch).bind ?_
    intro found u u' hu hu' hsame
    have hcore := (dispatch_begun hu).core
    have hmovprfx : lastInstrWasMovprfx u.core = false := by rw [hcore, ← hpair]; rfl
    have hmovprfx' : lastInstrWasMovprfx u'.core = false := by
      rw [← hmovprfx]
      obtain ⟨mem, -, rfl⟩ := hsame
      rfl
    have hinstr : u.core.instr = w.core.instr := by rw [hcore]; rfl
    have hinstr' : u'.core.instr = u.core.instr :=
      hsame.core.instr (by rw [hcore]; exact hfetch)
    have hvisited := (hvisit found u hu).reads (u'.setCore (u'.core.writeFormHash found.1)) <| by
      rw [visitCore, ← hcore]
      exact hsame.modify (·.writeFormHash found.1) (fun _ _ => rfl) fun _ => rfl
    rw [hinstr', hinstr, hmovprfx, hmovprfx', hcore]
    refine hvisited.bind ?_
    intro _ x x' _ _ hx
    exact conclude_sameBut track hx (by simp)

end GabyVm.Engine
