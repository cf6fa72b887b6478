import GabyVm.Aarch64.Hidden
import GabyVm.Engine.Frames
import GabyVm.Engine.StoreEvents

/-!
# Runs that differ in hidden state

Two worlds with the same guest, the one in a run with callbacks that may change
the hidden state and the other in a run with callbacks that do not.  What a
step does before and after its visit does not depend on hidden state, nor does
a branch.  A leaf may, and says so by what it does with a state in between.
-/

namespace GabyVm.Engine

open GabyVm.Aarch64
open GabyVm.Cache
open GabyVm.Foundation

variable {τ : Type}
variable {E : Env} {H : Host τ} {nested : ExecCall → Act τ Bool}

/-! ## Two runs -/

/--
The worlds differ at most in the hidden state, which is `g` in the second one,
the callbacks made and the auditor's last result.
-/
def SameRun (g : Hidden) (w w' : World τ) : Prop :=
  ∃ events lastInstruction, w' = { w with
    sim := { w.sim with core := w.core.withHidden g, lastInstruction := lastInstruction }
    events := events }

/-- The worlds differ at most in the hidden state, whatever it is, and the rest. -/
def SameButHidden (w w' : World τ) : Prop := ∃ g, SameRun g w w'

namespace SameRun

variable {g : Hidden} {w w' : World τ}

theorem refl (w : World τ) : SameRun w.core.hidden w w := ⟨_, _, rfl⟩

theorem core (h : SameRun g w w') : w'.core = w.core.withHidden g := by
  obtain ⟨_, _, rfl⟩ := h
  rfl

theorem setCore (h : SameRun g w w') {c c' : Core} (hc : c' = c.withHidden c'.hidden) :
    SameRun c'.hidden (w.setCore c) (w'.setCore c') := by
  obtain ⟨events, lastInstruction, rfl⟩ := h
  refine ⟨events, lastInstruction, ?_⟩
  rw [World.core_setCore, ← hc]
  rfl

theorem withHidden (h : SameRun g w w') (c : Core) :
    SameRun g (w.setCore c) (w'.setCore (c.withHidden g)) := h.setCore rfl

theorem modify (h : SameRun g w w') (f : Core → Core)
    (hf : ∀ c, f (c.withHidden g) = (f c).withHidden g) :
    SameRun g (w.setCore (f w.core)) (w'.setCore (f w'.core)) := by
  rw [h.core, hf]
  exact h.withHidden _

theorem log (h : SameRun g w w') (e : HostEvent) : SameRun g (w.log e) (w'.log e) := by
  obtain ⟨_, _, rfl⟩ := h
  exact ⟨_, _, rfl⟩

theorem require (h : SameRun g w w') (b : Bool) (e : Abort) :
    Outcome.Rel (SameRun g) (SameRun g) ((Action.require b e : Act τ Unit) w)
      ((Action.require b e : Act τ Unit) w') :=
  Action.require_rel b e h h

theorem branchEvent (h : SameRun g w w') (target : Addr) :
    branchEvent w' target = branchEvent w target := by
  obtain ⟨_, _, rfl⟩ := h
  rfl

end SameRun

/-! ### Callbacks without execution calls -/

theorem effect_withHidden {r : RegisterWrite} {f : Core → Core} (h : r.effect = .core f)
    (c : Core) (g : Hidden) : f (c.withHidden g) = (f c).withHidden g := by
  cases r with
  | gp code value =>
      simp only [RegisterWrite.effect] at h
      split_ifs at h <;> cases h <;> rfl
  | v code value =>
      simp only [RegisterWrite.effect] at h
      split_ifs at h
      cases h
      rfl
  | sys code value =>
      simp only [RegisterWrite.effect] at h
      split_ifs at h
      · cases h
        rfl
      · cases h
        rfl
      · split at h <;> cases h
        rfl

theorem writeRegister_sameRun {g : Hidden} (r : RegisterWrite) {w w' : World τ}
    (h : SameRun g w w') :
    Outcome.Rel (SameRun g) (SameRun g) (writeRegister r w) (writeRegister r w') := by
  rw [writeRegister_eq_effect, writeRegister_eq_effect]
  cases heffect : r.effect with
  | core f => exact .ok (h.modify f fun c => effect_withHidden heffect c g)
  | fpsr value =>
      obtain ⟨_, _, rfl⟩ := h
      exact .ok ⟨_, _, rfl⟩
  | rejected reason => exact .abort h

theorem sameRun_progRel (E : Env) (g : Hidden) :
    ProgRel E (SameRun (τ := τ) g) (SameRun g) where
  host w w' h := by
    obtain ⟨_, _, rfl⟩ := h
    rfl
  readAll w w' h := by
    obtain ⟨_, _, rfl⟩ := h
    rfl
  memory w w' h := by
    obtain ⟨_, _, rfl⟩ := h
    rfl
  setHost w w' t h := by
    obtain ⟨_, _, rfl⟩ := h
    exact ⟨_, _, rfl⟩
  write r w w' h := writeRegister_sameRun r h
  writeByte w w' a b h := by
    obtain ⟨_, _, rfl⟩ := h
    exact ⟨_, _, rfl⟩
  register w w' start sizeBytes alloc h := by
    obtain ⟨_, _, rfl⟩ := h
    obtain ⟨sim, cache, host, events⟩ := w
    cases cache with
    | none => exact ⟨rfl, _, _, rfl⟩
    | some cache => exact ⟨rfl, _, _, rfl⟩
  setTraceParameters w w' parameters h := by
    obtain ⟨_, _, rfl⟩ := h
    exact ⟨_, _, rfl⟩

/-! ### Before and after the visit -/

theorem wrongBType_sameRun {g : Hidden} {w w' : World τ} (h : SameRun g w w') :
    wrongBType w'.core = wrongBType w.core := by
  rw [h.core]
  rfl

theorem lookupEntry_sameRun {g : Hidden} {w w' : World τ} (h : SameRun g w w') :
    Outcome.Rel (SameRun g) (SameRun g) (lookupEntry w) (lookupEntry w') := by
  have hsame := h
  obtain ⟨events, lastInstruction, hw'⟩ := h
  have hcache' : w'.cache = w.cache := by rw [hw']
  have hrange' : w'.sim.curRange = w.sim.curRange := by rw [hw']
  have hpc' : w'.core.pc = w.core.pc := by
    rw [hw']
    rfl
  cases hcache : w.cache with
  | none =>
      simp only [lookupEntry, hcache', hcache]
      exact .abort hsame
  | some cache =>
      cases hentry : cache.selectEntry w.sim.curRange w.core.pc with
      | none =>
          rw [lookupEntry_eq_abort hcache hentry,
            lookupEntry_eq_abort (hcache'.trans hcache) (by rw [hrange', hpc', hentry]), hpc']
          exact .abort hsame
      | some entry =>
          rw [lookupEntry_eq hcache hentry,
            lookupEntry_eq (hcache'.trans hcache) (by rw [hrange', hpc', hentry])]
          subst hw'
          exact .ok ⟨_, _, rfl⟩

theorem dispatch_sameRun {g : Hidden} (track : Track) {w w' : World τ} (h : SameRun g w w') :
    Outcome.Rel (SameRun g) (SameRun g) (dispatch E track w) (dispatch E track w') := by
  have hassert : Outcome.Rel (SameRun g) (SameRun g) (assertAligned E w) (assertAligned E w') := by
    have hpc' : w'.core.pc = w.core.pc := by
      rw [h.core]
      rfl
    simp only [assertAligned, hpc']
    exact h.require _ _
  cases track with
  | cache =>
      refine hassert.bind ?_
      intro _ u u' _ _ hu
      refine (lookupEntry_sameRun (hu.modify beginStep fun _ => rfl)).bind ?_
      intro entry x x' _ _ hx
      simp only [Action.bind_apply, requireEntryBType, wrongBType_sameRun hx]
      refine (hx.require _ _).bind ?_
      intro _ y y' _ _ hy
      exact .ok hy
  | debug =>
      refine hassert.bind ?_
      intro _ u u' _ _ hu
      have hv := hu.modify beginStep fun _ => rfl
      simp only [modifyCore_apply, Action.bind_apply, Outcome.bind_ok, requireBType,
        wrongBType_sameRun hv]
      refine (hv.require _ _).bind ?_
      intro _ x x' _ _ hx
      have hinstr : x'.core.instr = x.core.instr := by
        rw [hx.core]
        rfl
      simp only [Action.get_apply, Outcome.bind_ok, hinstr, auditorVisit, Action.modify_apply]
      have haudited : SameRun g
          { x with sim := { x.sim with lastInstruction := E.instructionFeatures x.core.instr } }
          { x' with sim := { x'.sim with
            lastInstruction := E.instructionFeatures x.core.instr } } := by
        obtain ⟨_, _, rfl⟩ := hx
        exact ⟨_, _, rfl⟩
      split_ifs
      · exact .abort haudited
      · exact .ok haudited

theorem checkMovprfx_sameRun {g : Hidden} (wasMovprfx : Bool) {w w' : World τ}
    (h : SameRun g w w') :
    Outcome.Rel (SameRun g) (SameRun g) (checkMovprfx E wasMovprfx w)
      (checkMovprfx E wasMovprfx w') := by
  cases wasMovprfx with
  | false => exact .ok h
  | true =>
      have hlast {u u' : World τ} (hu : SameRun g u u') : u'.core.lastInstr = u.core.lastInstr ∧
          u'.core.instr = u.core.instr ∧ u'.core.formHash = u.core.formHash ∧
          u'.core.memory = u.core.memory := by
        rw [hu.core]
        exact ⟨rfl, rfl, rfl, rfl⟩
      simp only [checkMovprfx, if_true, vixlAssert, (hlast h).1]
      refine (h.require _ _).bind ?_
      intro _ v v' _ _ hv
      obtain ⟨hlastInstr, hinstr, hform, hmemory⟩ := hlast hv
      simp only [hlastInstr, hinstr, hform, hmemory]
      exact hv.require _ _

theorem finishStep_withHidden (c : Core) (g : Hidden) :
    finishStep (c.withHidden g) = (finishStep c).withHidden g := by
  have hmodified : (c.withHidden g).pcModified = c.pcModified := rfl
  simp only [finishStep, Core.updateBType, Core.incrementPc, hmodified]
  split_ifs <;> rfl

/-- The worlds end the step alike when the auditor's result is accepted alike. -/
theorem conclude_sameRun {g : Hidden} (track : Track) (wasMovprfx : Bool) {w w' : World τ}
    (h : SameRun g w w')
    (havailable : track = .debug →
      w.sim.instructionIsAvailable = w'.sim.instructionIsAvailable) :
    Outcome.Rel (SameRun g) (SameRun g) (conclude E track wasMovprfx w)
      (conclude E track wasMovprfx w') := by
  have htail : Outcome.Rel (SameRun g) (SameRun g) (stepTail E wasMovprfx w)
      (stepTail E wasMovprfx w') := by
    refine (checkMovprfx_sameRun wasMovprfx h).bind ?_
    intro _ v v' _ _ hv
    exact .ok (hv.modify finishStep fun c => finishStep_withHidden c g)
  refine htail.bind ?_
  intro _ v v' hv hv' hvv'
  refine Outcome.Rel.bind (R := SameRun g) ?_ (fun _ _ _ _ _ hx => .ok hx)
  cases track with
  | cache => exact .ok hvv'
  | debug =>
      have hfinish (x : World τ) : (x.setCore (finishStep x.core)).sim.instructionIsAvailable =
          x.sim.instructionIsAvailable :=
        congrArg (·.has x.sim.lastInstruction) (finishStep_cpuFeatures x.core)
      have hsame : v.sim.instructionIsAvailable = v'.sim.instructionIsAvailable := by
        rw [stepTail_eq_ok hv, stepTail_eq_ok hv', hfinish, hfinish, havailable rfl]
      simp only [settle, checkAvailable, hsame]
      exact hvv'.require _ _

/-! ## What leaves make of hidden state -/

section Leaves

variable (E : Env) (H : Host τ) (nested : ExecCall → Act τ Bool)

/--
Two leaves do the same but for the hidden state: `p` in a run with callbacks
that may change it, `p'` in a run with callbacks that do not.
-/
inductive LeafAgrees : LeafProg → LeafProg → World τ → Prop where
  | done {c c' : Core} {w : World τ} (h : c' = c.withHidden c'.hidden) :
      LeafAgrees (.done c) (.done c') w
  | abort {message : String} {c c' : Core} {w : World τ} (h : c' = c.withHidden c'.hidden) :
      LeafAgrees (.abort message c) (.abort message c') w
  | store {event : MemoryWriteEvent} {c c' : Core} {next next' : Core → LeafProg} {w : World τ}
      (h : c' = c.withHidden c'.hidden)
      (hnext : ∀ v, notifyStore E H nested event (w.setCore c) = .ok () v →
        LeafAgrees (next v.core) (next' (v.core.withHidden c'.hidden)) v) :
      LeafAgrees (.store event c next) (.store event c' next') w

/-- The hidden state that the second leaf ends in. -/
def leafHidden : LeafProg → LeafProg → World τ → Hidden
  | .store event c next, .store _ c' next', w =>
      match notifyStore E H nested event (w.setCore c) with
      | .ok () v => leafHidden (next v.core) (next' (v.core.withHidden c'.hidden)) v
      | .abort _ _ => c'.hidden
      | .timeout => c'.hidden
  | _, .done c', _ => c'.hidden
  | _, .abort _ c', _ => c'.hidden
  | _, .store _ c' _, _ => c'.hidden

/-- The leaf depends on nothing in which the hidden state of the world differs from `g`. -/
def IgnoresHidden (run : Leaf) (word : Word) (g : Hidden) (w : World τ) : Prop :=
  ∀ t : Hidden, t.Between w.core.hidden g →
    LeafAgrees E H nested (run word w.core) (run word (w.core.withHidden t)) w

/-- The hidden state after a visit that begins with `g` and without execution calls. -/
def visitHidden (v : Visitor) (word : Word) (g : Hidden) (w : World τ) : Hidden :=
  match v with
  | .leaf run => leafHidden E H nested (run word w.core) (run word (w.core.withHidden g)) w
  | _ => g

/-- The hidden state after a step that begins with `g` and without execution calls. -/
def nextHidden (track : Track) (g : Hidden) (w : World τ) : Hidden :=
  if w.core.isSimulationFinished then g
  else
    match dispatch E track w with
    | .ok found u =>
        visitHidden E H nested found.2 w.core.instr g (u.setCore (visitCore w.core found.1))
    | .abort _ _ => g
    | .timeout => g

end Leaves

theorem visitHidden_branch {v : Visitor} {word : Word} {g : Hidden} {w : World τ} {c : Core}
    {step : BranchStep} (h : v.branchStep E word c = some step) :
    visitHidden E H nested v word g w = g := by
  cases v <;> first | rfl | cases h

theorem nextHidden_eq {track : Track} {g : Hidden} {w u : World τ} {found : Found}
    (hpc : w.core.pc ≠ 0) (hfound : dispatch E track w = .ok found u) :
    nextHidden E H nested track g w =
      visitHidden E H nested found.2 w.core.instr g (u.setCore (visitCore w.core found.1)) := by
  have hrunning : w.core.isSimulationFinished = false := by
    rw [Core.isSimulationFinished, beq_eq_false_iff_ne]
    exact hpc
  simp only [nextHidden, hrunning, hfound, Bool.false_eq_true, if_false]

/-! ### Stores -/

section Stores

variable {m : AccessChecks} {op : StoreOp} {g t : Hidden} {w : World τ}

theorem maybeClear_withHidden (c : Core) (t : Hidden) :
    maybeClearLocalMonitor (c.withHidden t) = (maybeClearLocalMonitor c).withHidden
      (maybeClearLocalMonitor (c.withHidden t)).hidden := by
  obtain ⟨monitor, hmonitor⟩ := maybeClearLocalMonitor_frame c
  obtain ⟨monitor', hmonitor'⟩ := maybeClearLocalMonitor_frame (c.withHidden t)
  rw [hmonitor, hmonitor']
  rfl

theorem addressModeHelper_agrees {rn : BitVec 5} {offset : Addr} {mode : AddrMode} {c : Core}
    {next : Addr → Core → LeafProg}
    (hnext : ∀ d, d.mteTags = c.mteTags → d.pc = c.pc →
      LeafAgrees E H nested (next (addressMode c rn offset mode) d)
        (next (addressMode c rn offset mode) (d.withHidden t)) w) :
    LeafAgrees E H nested (addressModeHelper m rn offset mode c next)
      (addressModeHelper m rn offset mode (c.withHidden t) next) w := by
  have hbase : readBase (c.withHidden t) rn = readBase c rn := rfl
  have haddress : addressMode (c.withHidden t) rn offset mode = addressMode c rn offset mode := rfl
  simp only [addressModeHelper, LeafM.bind_apply, LeafM.get_apply, LeafM.check, hbase, haddress]
  split_ifs
  · cases mode with
    | offset => exact hnext _ rfl rfl
    | preIndex => exact hnext _ rfl rfl
    | postIndex => exact hnext _ rfl rfl
  · exact .abort rfl
  · exact .abort rfl

theorem loadStoreHelper_agrees {word : Word} {offset : Addr} {mode : AddrMode} {c : Core}
    (hverdict : m.write (c.withHidden t) c.pc (addressMode c word.getRn offset mode) op.size =
      m.write c c.pc (addressMode c word.getRn offset mode) op.size) :
    LeafAgrees E H nested ((loadStoreHelper m op word offset mode).run c)
      ((loadStoreHelper m op word offset mode).run (c.withHidden t)) w := by
  refine addressModeHelper_agrees ?_
  intro d htags hpc
  have hvalue : op.value (d.withHidden t) word.getRt = op.value d word.getRt := rfl
  have hwrite : m.write (d.withHidden t) (d.withHidden t).pc
      (addressMode c word.getRn offset mode) op.size =
        m.write d d.pc (addressMode c word.getRn offset mode) op.size := by
    have hpc' : (d.withHidden t).pc = c.pc := hpc
    simp only [AccessChecks.write] at hverdict
    simp only [AccessChecks.write, htags]
    rw [hpc', hpc]
    exact hverdict
  simp only [storeRegister, LeafM.bind_apply, LeafM.get_apply, LeafM.memWrite, hvalue, hwrite]
  cases m.write d d.pc (addressMode c word.getRn offset mode) op.size with
  | granted =>
      refine .store rfl fun v _ => .done ?_
      exact maybeClear_withHidden v.core t
  | failed => exact .done rfl
  | aborts message => exact .abort rfl

/-- With the same tagging, or none, a single store depends on no hidden state. -/
theorem loadStore_ignoresHidden (m : AccessChecks) (op : StoreOp) (v : LoadStoreVisitor)
    (word : Word) (htagging : w.core.tagging = g.tagging ∨
      w.core.mteActive = false ∧ g.tagging.active = false) :
    IgnoresHidden E H nested
      (fun word c => (loadStoreHelper (m.under c) op word (v.offset word c) v.mode).run c) word g
      w := by
  intro t ht
  have hactive : t.tagging.active = w.core.mteActive := by
    refine ht.tagging.active ?_
    rcases htagging with hsame | ⟨hoff, hoff'⟩
    · exact congrArg Tagging.active hsame
    · exact hoff.trans hoff'.symm
  have hoffset : v.offset word (w.core.withHidden t) = v.offset word w.core := rfl
  have hunder : m.under (w.core.withHidden t) = m.under w.core :=
    congrArg (fun active => { m with mteActive := active }) hactive
  simp only [hoffset, hunder]
  refine loadStoreHelper_agrees ?_
  rcases htagging with hsame | ⟨hoff, -⟩
  · have htags : t.tagging.tags = w.core.mteTags := funext fun key =>
      ht.tagging.tags key (congrFun (congrArg Tagging.tags hsame) key)
    exact congrArg (fun tags => (m.under w.core).verdict tags _ _ _ _) htags
  · simp only [AccessChecks.write, AccessChecks.verdict, AccessChecks.under, hoff, Bool.false_and,
      Bool.false_eq_true, if_false]

end Stores

end GabyVm.Engine
