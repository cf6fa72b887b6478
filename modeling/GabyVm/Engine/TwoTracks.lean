import GabyVm.Engine.Reachable

/-!
# The tracks agree on registered code

`SameGuest` relates worlds that differ at most in the held range and in the
bookkeeping of the trace configuration and the auditor.  On registered code
with guarded pages off, a step on either track has the meaning of `formStep`,
so the tracks can be exchanged at every step of a run.
-/

namespace GabyVm.Engine

open GabyVm.Aarch64
open GabyVm.Cache
open GabyVm.Foundation

variable {τ : Type}

/-! ## The relation -/

/-- The worlds differ at most in the held range, the trace and the auditor's result. -/
def SameGuest (w w' : World τ) : Prop :=
  ∃ curRange trace lastInstruction, w' = { w with sim := { w.sim with
    curRange := curRange, trace := trace, lastInstruction := lastInstruction } }

/-- After an abort the form may differ too: not every abort has set it. -/
def SameButForm (w w' : World τ) : Prop :=
  ∃ hash, SameGuest (w.setCore (w.core.writeFormHash hash)) w'

namespace SameGuest

theorem refl (w : World τ) : SameGuest w w := ⟨_, _, _, rfl⟩

theorem symm {w w' : World τ} (h : SameGuest w w') : SameGuest w' w := by
  obtain ⟨curRange, trace, lastInstruction, rfl⟩ := h
  exact ⟨_, _, _, rfl⟩

theorem trans {u v w : World τ} (h : SameGuest u v) (h' : SameGuest v w) :
    SameGuest u w := by
  obtain ⟨_, _, _, rfl⟩ := h
  obtain ⟨_, _, _, rfl⟩ := h'
  exact ⟨_, _, _, rfl⟩

theorem core {w w' : World τ} (h : SameGuest w w') : w'.core = w.core := by
  obtain ⟨_, _, _, rfl⟩ := h
  rfl

theorem cache {w w' : World τ} (h : SameGuest w w') : w'.cache = w.cache := by
  obtain ⟨_, _, _, rfl⟩ := h
  rfl

theorem sameButForm {w w' : World τ} (h : SameGuest w w') : SameButForm w w' := by
  obtain ⟨_, _, _, rfl⟩ := h
  exact ⟨_, _, _, _, rfl⟩

theorem writeFormHash (hash : FormHash) {w w' : World τ} (h : SameGuest w w') :
    SameButForm (w.setCore (w.core.writeFormHash hash)) w' := by
  obtain ⟨curRange, trace, lastInstruction, rfl⟩ := h
  exact ⟨w.core.formHash, curRange, trace, lastInstruction, rfl⟩

theorem write (r : RegisterWrite) {w w' : World τ} (h : SameGuest w w') :
    Outcome.Rel SameGuest SameButForm (writeRegister r w) (writeRegister r w') := by
  obtain ⟨curRange, trace, lastInstruction, rfl⟩ := h
  exact writeRegister_rel r rfl (fun _ => ⟨_, _, _, rfl⟩) (fun _ => ⟨_, _, _, rfl⟩)
    ⟨_, _, _, _, rfl⟩

end SameGuest

theorem SameButForm.symm {w w' : World τ} (h : SameButForm w w') : SameButForm w' w := by
  obtain ⟨_, _, _, _, rfl⟩ := h
  exact ⟨w.core.formHash, _, _, _, rfl⟩

theorem SameButForm.trans {u v w : World τ} (h : SameButForm u v) (h' : SameButForm v w) :
    SameButForm u w := by
  obtain ⟨_, _, _, _, rfl⟩ := h
  obtain ⟨hash, _, _, _, rfl⟩ := h'
  exact ⟨hash, _, _, _, rfl⟩

/-- Both results are normal and the guest is the same, or both abort, or both go on. -/
abbrev Agree {α : Type} (o o' : Outcome Abort (World τ) α) : Prop :=
  Outcome.Rel SameGuest SameButForm o o'

theorem Agree.symm {α : Type} {o o' : Outcome Abort (World τ) α} (h : Agree o o') :
    Agree o' o :=
  Outcome.Rel.symm h (fun _ _ h => h.symm) (fun _ _ h => h.symm)

theorem Agree.trans {α : Type} {o o' o'' : Outcome Abort (World τ) α} (h : Agree o o')
    (h' : Agree o' o'') :
    Agree o o'' :=
  Outcome.Rel.trans (fun _ _ _ => SameGuest.trans) (fun _ _ _ => SameButForm.trans) h h'

theorem sameGuest_hostRel (E : Env) :
    HostRel E (SameGuest (τ := τ)) SameButForm where
  core w w' h := h.core.symm
  host w w' h := by
    obtain ⟨_, _, _, rfl⟩ := h
    rfl
  readAll w w' h := by
    obtain ⟨_, _, _, rfl⟩ := h
    rfl
  setCore w w' c h := by
    obtain ⟨_, _, _, rfl⟩ := h
    exact ⟨_, _, _, rfl⟩
  setHost w w' t h := by
    obtain ⟨_, _, _, rfl⟩ := h
    exact ⟨_, _, _, rfl⟩
  write r w w' h := h.write r
  register w w' start sizeBytes alloc h := by
    obtain ⟨_, _, _, rfl⟩ := h
    obtain ⟨sim, cache, host, events⟩ := w
    cases cache with
    | none => exact ⟨rfl, _, _, _, rfl⟩
    | some cache => exact ⟨rfl, _, _, _, rfl⟩
  setTraceParameters w w' parameters h := by
    obtain ⟨_, _, _, rfl⟩ := h
    exact ⟨_, _, _, rfl⟩
  log w w' e h := by
    obtain ⟨_, _, _, rfl⟩ := h
    exact ⟨_, _, _, rfl⟩
  aborted w w' h := h.sameButForm

/-! ## One step -/

section Step

variable (E : Env) (H : Host τ) (nested : ExecCall → Act τ Bool)

/-- What a step in registered code means, whatever the track. -/
def formStep : Act τ Unit := fun w =>
  let begun := w.setCore (beginStep w.core)
  let word := w.core.instr
  if (E.decode word).unallocated then .abort .unallocated begun
  else runForm E H nested (lastInstrWasMovprfx w.core) (decodedHash E word)
    (visitorOf E (decodedHash E word)) word begun

/-- Registered code, without the guarded-page check. -/
structure InCode (w : World τ) : Prop extends OnRegisteredCode E w where
  guardPages : w.core.guardPages = false

/-- The step leaves the simulator with all features, where the cache track checks none. -/
def KeepsFeatures (w : World τ) : Prop :=
  ∀ u v, executeInstructionCached E H nested w = .ok u v → v.core.cpuFeatures = .all

variable {E H nested}

theorem InCode.congr {w w' : World τ} (h : InCode E w) (hww' : SameGuest w w') :
    InCode E w' := by
  obtain ⟨curRange, trace, lastInstruction, rfl⟩ := hww'
  exact ⟨⟨h.aligned, h.registered⟩, h.guardPages⟩

theorem InCode.wrongBType {w : World τ} (h : InCode E w) : wrongBType w.core = false := by
  simp [Engine.wrongBType, h.guardPages]

/-- The shared part of a step sees neither the held range nor the auditor. -/
theorem runForm_rel (hH : H.NoExec) (wasMovprfx : Bool) (hash : FormHash) (v : Visitor)
    (word : Word) {w w' : World τ} (h : SameGuest w w') :
    Agree (runForm E H nested wasMovprfx hash v word w)
      (runForm E H nested wasMovprfx hash v word w') := by
  have hrel := sameGuest_hostRel (τ := τ) E
  have hcalls : ∀ call, False → ∀ w w', SameGuest w w' →
      Outcome.Rel SameGuest SameButForm (nested call w) (nested call w') := by
    intro _ hfalse
    exact hfalse.elim
  simp only [runForm, Action.bind_apply]
  apply (hrel.modifyCore _ h).bind
  intro _ u u' _ _ hu
  apply (hrel.runVisitor hH rfl hcalls v word hu ?_).bind
  · intro _ x x' _ _ hx
    exact hrel.stepTail wasMovprfx hx
  · intro target c _
    exact hrel.gabyHookedWritePc hH hcalls target (hrel.setCore u u' c hu)

theorem formStep_rel (hH : H.NoExec) {w w' : World τ} (h : SameGuest w w') :
    Agree (formStep E H nested w) (formStep E H nested w') := by
  have hbegun := (sameGuest_hostRel E).setCore w w' (beginStep w.core) h
  simp only [formStep, h.core]
  split_ifs
  · exact .abort hbegun.sameButForm
  · exact runForm_rel hH _ _ _ _ hbegun

theorem cached_formStep (hH : H.NoExec) {w : World τ} (h : InCode E w) :
    Agree (executeInstructionCached E H nested w) (formStep E H nested w) := by
  obtain ⟨cache, hcached⟩ := h.executeInstructionCached_eq H nested
  have hbegun : SameGuest (w.beginCached cache) (w.setCore (beginStep w.core)) :=
    ⟨_, _, _, rfl⟩
  rw [hcached]
  simp only [h.wrongBType, Bool.and_false, Bool.false_eq_true, if_false, formStep]
  cases hdecode : (E.decode w.core.instr).unallocated with
  | true =>
      rw [predecodeWord_of_unallocated hdecode, PredecodeCache.dataInStreamEntry,
        runForm_unallocated, if_pos rfl]
      exact .abort (hbegun.writeFormHash 0)
  | false =>
      simp only [predecodeWord_of_allocated hdecode, Bool.false_eq_true, if_false]
      exact runForm_rel hH _ _ _ _ hbegun

/-- The feature check that ends a debug-track step succeeds. -/
theorem debug_formStep (hH : H.NoExec) {w : World τ} (h : InCode E w)
    (hkeeps : KeepsFeatures E H nested w) :
    Agree (executeInstruction E H nested w) (formStep E H nested w) := by
  have hbegun : SameGuest ((w.setCore (beginStep w.core)).audited E)
      (w.setCore (beginStep w.core)) := ⟨_, _, _, rfl⟩
  have hcached : Agree (executeInstructionCached E H nested w) _ := cached_formStep hH h
  rw [executeInstruction_eq E H nested (assertAligned_ok E h.aligned)]
  simp only [h.wrongBType, Bool.false_eq_true, if_false]
  simp only [formStep] at hcached ⊢
  cases hdecode : (E.decode w.core.instr).unallocated with
  | true => exact .abort hbegun.sameButForm
  | false =>
      simp only [hdecode, Bool.false_eq_true, if_false] at hcached ⊢
      rw [← Outcome.bind_ok_self (runForm E H nested _ _ _ _ (w.setCore _))]
      apply (runForm_rel hH _ _ _ _ hbegun).bind
      intro _ u v _ hv huv
      obtain ⟨v', hv', hvv'⟩ := (Agree.symm hcached).ok_right hv
      have hfeatures : u.core.cpuFeatures = .all := by
        rw [← huv.core, ← hvv'.core]
        exact hkeeps _ _ hv'
      have havailable : u.sim.instructionIsAvailable = true := by
        rw [Sim.instructionIsAvailable]
        exact hfeatures ▸ CPUFeatures.all_has _
      simp only [checkAvailable, havailable, Action.require_true]
      exact .ok huv

theorem KeepsFeatures.congr (hH : H.NoExec) {w w' : World τ} (h : InCode E w)
    (hww' : SameGuest w w') (hkeeps : KeepsFeatures E H nested w) :
    KeepsFeatures E H nested w' := by
  intro u v' hv'
  have hagree : Agree (executeInstructionCached E H nested w')
      (executeInstructionCached E H nested w) :=
    ((cached_formStep hH (h.congr hww')).trans (formStep_rel hH hww'.symm)).trans
      (cached_formStep hH h).symm
  obtain ⟨v, hv, hvv'⟩ := hagree.ok_right hv'
  rw [← hvv'.core]
  exact hkeeps u v hv

/-! ## Runs -/

variable (E H nested) in
/-- A cache is attached, and a step from here runs unchanged registered code. -/
structure Ready (w : World τ) : Prop where
  attached : w.cache.isSome = true
  inCode : w.core.pc ≠ 0 → InCode E w ∧ KeepsFeatures E H nested w

theorem Ready.congr (hH : H.NoExec) {w w' : World τ} (hww' : SameGuest w w')
    (h : Ready E H nested w) : Ready E H nested w' := by
  refine ⟨?_, fun hpc => ?_⟩
  · obtain ⟨_, _, _, rfl⟩ := hww'
    exact h.attached
  · obtain ⟨hcode, hkeeps⟩ := h.inCode (hww'.core ▸ hpc)
    exact ⟨hcode.congr hww', hkeeps.congr hH hcode hww'⟩

theorem execute_formStep (hH : H.NoExec) (track : Track) {w : World τ} (h : InCode E w)
    (hkeeps : KeepsFeatures E H nested w) :
    Agree (execute E H nested track w) (formStep E H nested w) := by
  cases track with
  | cache => exact cached_formStep hH h
  | debug => exact debug_formStep hH h hkeeps

theorem stepOnce_agree (hH : H.NoExec) (track track' : Track) {w w' : World τ}
    (hready : Ready E H nested w) (hww' : SameGuest w w') :
    Agree (stepOnce E H nested track w) (stepOnce E H nested track' w') := by
  simp only [stepOnce, hww'.core, Core.isSimulationFinished, beq_iff_eq]
  split_ifs with hpc
  · exact .ok hww'
  · obtain ⟨hcode, hkeeps⟩ := hready.inCode hpc
    have hexecute : Agree (execute E H nested track w) (execute E H nested track' w') :=
      ((execute_formStep hH track hcode hkeeps).trans (formStep_rel hH hww')).trans
        (execute_formStep hH track' (hcode.congr hww') (hkeeps.congr hH hcode hww')).symm
    apply hexecute.bind
    intro _ v v' _ _ hv
    exact .ok hv

/-- A run that is ready all along on the cache track is ready all along on any tracks. -/
theorem Ready.onTracks (hH : H.NoExec) {tracks : List Track} {w w' u : World τ}
    (hww' : SameGuest w w')
    (hready : ∀ n v, Reaches (List.replicate n (stepOnce E H nested .cache)) w v →
      Ready E H nested v)
    (h : Reaches (tracks.map (stepOnce E H nested)) w' u) : Ready E H nested u := by
  induction tracks generalizing w w' with
  | nil =>
      cases h
      exact (hready 0 w (.refl w)).congr hH hww'
  | cons track tracks ih =>
      cases h with
      | step hstep hrest =>
          have hagree : Agree (stepOnce E H nested .cache w) (stepOnce E H nested track w') :=
            stepOnce_agree hH .cache track (hready 0 w (.refl w)) hww'
          obtain ⟨x, hx, hxx'⟩ := (Agree.symm hagree).ok_right hstep
          exact ih hxx'.symm (fun n v hv => hready (n + 1) v (.step hx hv)) hrest

theorem runSchedule_agree (hH : H.NoExec) {tracks tracks' : List Track}
    (hlength : tracks.length = tracks'.length) {w : World τ}
    (hready : ∀ pre, pre <+: tracks → ∀ u,
      Reaches (pre.map (stepOnce E H nested)) w u → Ready E H nested u) :
    Agree (runSchedule (tracks.map (stepOnce E H nested)) w)
      (runSchedule (tracks'.map (stepOnce E H nested)) w) := by
  apply runSchedule_rel (P := Ready E H nested) _ (SameGuest.refl w)
  · intro pre hpre u hu
    obtain ⟨pre', hpre', rfl⟩ := List.prefix_map_iff.mp hpre
    exact hready pre' hpre' u hu
  · rw [List.forall₂_map_left_iff, List.forall₂_map_right_iff, List.forall₂_iff_zip]
    refine ⟨hlength, ?_⟩
    intro track track' _ u v hu huv
    exact stepOnce_agree hH track track' hu huv

theorem leave_sameGuest (s : Sim) {w w' : World τ} (h : SameGuest w w') :
    SameGuest { w with sim := w.sim.leave s } { w' with sim := w'.sim.leave s } := by
  obtain ⟨_, _, _, rfl⟩ := h
  unfold Sim.leave
  split_ifs <;> exact ⟨_, _, _, rfl⟩

theorem runFrom_agree (hH : H.NoExec) (fuel : Nat) (entry : Addr) {w : World τ}
    (hready : ∀ n u, Reaches (List.replicate n (stepOnce E H nested .cache))
      (w.seated .cache entry) u → Ready E H nested u) :
    Agree (execCall E H nested fuel (.runFrom .cache entry) w)
      (execCall E H nested fuel (.runFrom .debug entry) w) := by
  have hattached : w.cache.isSome = true := (hready 0 _ (.refl _)).attached
  have hstart : SameGuest (w.seated .cache entry) (w.seated .debug entry) :=
    ⟨_, _, _, rfl⟩
  have hloop : Agree
      (loop (stepOnce E H nested .cache) fuel (w.seated .cache entry))
      (loop (stepOnce E H nested .debug) fuel (w.seated .debug entry)) :=
    loop_rel (fun _ _ hs hst => stepOnce_agree hH .cache .debug hs hst) fuel hstart hready
  simp only [execCall, ExecCall.track, Option.isNone_iff_eq_none]
  rw [if_neg (by simp [Option.isSome_iff_ne_none.mp hattached]), if_neg (by simp)]
  change Agree (((loop _ fuel (w.seated .cache entry)).bind fun _ v => .ok true v).bind _)
    (((loop _ fuel (w.seated .debug entry)).bind fun _ v => .ok true v).bind _)
  rw [Outcome.bind_assoc, Outcome.bind_assoc]
  apply hloop.bind
  intro _ v v' _ _ hv
  exact .ok (leave_sameGuest w.sim hv)

/--
The two tracks agree on registered code: one step from one state, any choice of
track at each step of a run, and whole runs at every bound on their length.
-/
theorem tracks_agree {E : Env} {H : Host τ} (hH : H.NoExec) :
    (∀ nested w, InCode E w → KeepsFeatures E H nested w →
      Agree (executeInstructionCached E H nested w) (executeInstruction E H nested w)) ∧
    (∀ nested (tracks tracks' : List Track) w, tracks.length = tracks'.length →
      (∀ pre, pre <+: tracks → ∀ u, Reaches (pre.map (stepOnce E H nested)) w u →
        Ready E H nested u) →
      Agree (runSchedule (tracks.map (stepOnce E H nested)) w)
        (runSchedule (tracks'.map (stepOnce E H nested)) w)) ∧
    (∀ fuel entry w,
      (∀ n u, Reaches (List.replicate n (stepOnce E H (runCall E H fuel) .cache))
        (w.seated .cache entry) u → Ready E H (runCall E H fuel) u) →
      Agree (runCall E H (fuel + 1) (.runFrom .cache entry) w)
        (runCall E H (fuel + 1) (.runFrom .debug entry) w)) := by
  refine ⟨?_, ?_, ?_⟩
  · intro nested w hcode hkeeps
    exact (cached_formStep hH hcode).trans (debug_formStep hH hcode hkeeps).symm
  · intro nested tracks tracks' w hlength hready
    exact runSchedule_agree hH hlength hready
  · intro fuel entry w hready
    exact runFrom_agree hH fuel entry hready

end Step

/-! ## A program with a call -/

section Program

/-- A hook, if there is one, lets every branch go where it goes. -/
def Host.LetsGo (H : Host τ) : Prop :=
  ∀ hook, H.branchHook = some hook → ∀ target, hook target = .ret target

theorem Host.none_letsGo : (Host.none τ).LetsGo := by
  intro hook h
  cases h

variable {vixlDebug : Bool} {H : Host τ} {nested : ExecCall → Act τ Bool}

/-- The program is loaded and registered, and nothing has changed that a step checks. -/
structure InProgram (vixlDebug : Bool) (words : List Word) (w : World τ) : Prop where
  cache : w.cache =
    some (PredecodeCache.empty.registerCall (smallEnv vixlDebug) (registerWords 0x1000 words)).2
  memory : w.core.memory = memoryOfWords 0x1000 words
  guardPages : w.core.guardPages = false
  features : w.core.cpuFeatures = .all

theorem InProgram.of_core {words : List Word} {w : World τ} (h : InProgram vixlDebug words w)
    {c : Core} (hmem : c.memory = w.core.memory) (hguard : c.guardPages = w.core.guardPages)
    (hfeatures : c.cpuFeatures = w.core.cpuFeatures) :
    InProgram vixlDebug words (w.setCore c) :=
  ⟨h.cache, hmem.trans h.memory, hguard.trans h.guardPages, hfeatures.trans h.features⟩

theorem InProgram.runVisitor (hH : H.LetsGo) {words : List Word} {w x : World τ} {v : Visitor}
    {word : Word} (h : InProgram vixlDebug words w)
    (hleaf : ∀ run, v = .leaf run → run = visitOrrShifted)
    (hrun : runVisitor (smallEnv vixlDebug) H nested v word w = .ok () x) :
    InProgram vixlDebug words x := by
  cases hstep : v.branchStep (smallEnv vixlDebug) word w.core with
  | some step =>
      rw [runVisitor_branch _ _ _ hstep] at hrun
      cases step with
      | fallThrough c =>
          cases hrun
          obtain rfl := branchStep_fallThrough hstep
          exact h
      | commit target c =>
          have hcommit : InProgram vixlDebug words (w.setCore c) := by
            obtain ⟨_, _, _, rfl⟩ := branchStep_frame hstep
            exact h.of_core rfl rfl rfl
          simp only [runBranch, gabyHookedWritePc] at hrun
          cases hhook : H.branchHook with
          | none =>
              rw [hhook] at hrun
              cases hrun
              exact hcommit.of_core rfl rfl rfl
          | some hook =>
              have hlets := hH hook hhook target
              simp only [hhook, hlets, HostProg.run, Action.pure_apply, Outcome.bind_ok] at hrun
              split_ifs at hrun
              cases hrun
              exact ⟨hcommit.cache, hcommit.memory, hcommit.guardPages, hcommit.features⟩
      | abort reason c => cases hrun
  | none =>
      cases v with
      | leaf run =>
          obtain rfl := hleaf run rfl
          cases hrun
          exact h.of_core (by dsimp only; split_ifs <;> rfl) (by dsimp only; split_ifs <;> rfl)
            (by dsimp only; split_ifs <;> rfl)
      | unimplemented =>
          obtain ⟨-, rfl⟩ := Action.require_eq_ok.mp hrun
          exact h
      | unallocated => cases hrun
      | _ => cases hstep

theorem InProgram.step (hH : H.LetsGo) {words : List Word} {track : Track} {w v : World τ}
    (h : InProgram vixlDebug words w)
    (hstep : stepOnce (smallEnv vixlDebug) H nested track w = .ok true v) :
    InProgram vixlDebug words v := by
  obtain ⟨-, ⟨hash, visitor⟩, u, x, hfound, hx, rfl⟩ := stepOnce_eq_ok hstep
  have hdecodes : w.Decodes (smallEnv vixlDebug) := by
    intro cache hcache
    rw [h.cache] at hcache
    cases hcache
    exact registerAll_decodes (smallEnv vixlDebug) [registerWords 0x1000 words]
  have hvisited : InProgram vixlDebug words (u.setCore (visitCore w.core hash)) := by
    obtain ⟨_, _, rfl⟩ := dispatch_begun hfound
    exact ⟨h.cache, h.memory, h.guardPages, h.features⟩
  have hrun := hvisited.runVisitor hH (fun run hrun => ?_) hx
  · obtain ⟨pc, hfinish⟩ := finishStep_position x.core
    rw [hfinish]
    exact hrun.of_core rfl rfl rfl
  · subst hrun
    obtain ⟨hash', hrun⟩ := dispatch_leaf hdecodes hfound
    simp only [smallEnv] at hrun
    split_ifs at hrun
    exact (Option.some.inj hrun).symm

def inWords (words : List Word) (pc : Addr) : Bool :=
  isWordAligned pc && decide ((pc - 0x1000).toNat < 4 * words.length)

theorem InProgram.ready (hH : H.LetsGo) {words : List Word} {w : World τ}
    (h : InProgram vixlDebug words w)
    (hwrap : (0x1000 : Addr).toNat + 4 * words.length < 2 ^ 64)
    (hpc : (w.core.pc == 0 || inWords words w.core.pc) = true) :
    Ready (smallEnv vixlDebug) H nested w := by
  refine ⟨by rw [h.cache]; rfl, fun hne => ?_⟩
  rw [beq_eq_false_iff_ne.mpr hne, Bool.false_or, inWords, Bool.and_eq_true,
    decide_eq_true_eq] at hpc
  refine ⟨⟨World.load_registered (by decide) hwrap h.cache h.memory hpc.1 hpc.2, h.guardPages⟩, ?_⟩
  intro u v hv
  have hstep : stepOnce (smallEnv vixlDebug) H nested .cache w = .ok true v := by
    simp only [stepOnce, Core.isSimulationFinished, beq_eq_false_iff_ne.mpr hne]
    exact Outcome.bind_eq_ok.mpr ⟨u, v, hv, rfl⟩
  exact (h.step hH hstep).features

/-- A run on the cache track stays in the words until it is finished. -/
def staysIn (step : Act τ Bool) (words : List Word) : Nat → World τ → Bool
  | 0, _ => false
  | fuel + 1, w => (w.core.pc == 0 || inWords words w.core.pc) &&
      match step w with
      | .ok true v => staysIn step words fuel v
      | _ => true

theorem InProgram.run (hH : H.LetsGo) {words : List Word}
    (hwrap : (0x1000 : Addr).toNat + 4 * words.length < 2 ^ 64) {fuel : Nat} {w : World τ}
    (h : InProgram vixlDebug words w)
    (hstays : staysIn (stepOnce (smallEnv vixlDebug) H nested .cache) words fuel w = true)
    (n : Nat) (u : World τ)
    (hu : Reaches (List.replicate n (stepOnce (smallEnv vixlDebug) H nested .cache)) w u) :
    Ready (smallEnv vixlDebug) H nested u := by
  induction n generalizing fuel w with
  | zero =>
      cases hu
      cases fuel with
      | zero => cases hstays
      | succ fuel => exact h.ready hH hwrap (Bool.and_eq_true_iff.mp hstays).1
  | succ n ih =>
      cases hu with
      | step hstep hrest =>
          cases fuel with
          | zero => cases hstays
          | succ fuel =>
              have hnext := (Bool.and_eq_true_iff.mp hstays).2
              rw [hstep] at hnext
              exact ih (h.step hH hstep) hnext hrest

end Program

/-- `MOV X9, X30; BL +12; MOV X30, X9; RET` and a function that moves a register. -/
def callingWords : List Word :=
  [0xaa1e03e9, 0x94000003, 0xaa0903fe, 0xd65f03c0, 0xaa0103e0, 0xd65f03c0]

def callLoaded : World Unit := World.load (smallEnv true) 0x1000 callingWords ()

def callNested : ExecCall → Act Unit Bool := runCall (smallEnv true) (Host.none Unit) 9

theorem callLoaded_inProgram (entry : Addr) :
    InProgram true callingWords (callLoaded.seated .cache entry) := ⟨rfl, rfl, rfl, rfl⟩

theorem callLoaded_ready (n : Nat) (u : World Unit)
    (hu : Reaches (List.replicate n (stepOnce (smallEnv true) (Host.none Unit) callNested .cache))
      (callLoaded.seated .cache 0x1000) u) :
    Ready (smallEnv true) (Host.none Unit) callNested u := by
  have hstays : staysIn (stepOnce (smallEnv true) (Host.none Unit) callNested .cache) callingWords 8
      (callLoaded.seated .cache 0x1000) = true := by decide +kernel
  exact (callLoaded_inProgram 0x1000).run Host.none_letsGo (by decide) hstays n u hu

theorem tracks_agree_call :
    Agree (executeInstructionCached (smallEnv true) (Host.none Unit) callNested
        (callLoaded.seated .cache 0x1000))
      (executeInstruction (smallEnv true) (Host.none Unit) callNested
        (callLoaded.seated .cache 0x1000)) ∧
    Agree
      (runSchedule ([.cache, .debug, .cache, .debug, .debug, .cache].map
        (stepOnce (smallEnv true) (Host.none Unit) callNested)) (callLoaded.seated .cache 0x1000))
      (runSchedule ([.debug, .debug, .cache, .cache, .cache, .debug].map
        (stepOnce (smallEnv true) (Host.none Unit) callNested))
        (callLoaded.seated .cache 0x1000)) ∧
    Agree (runCall (smallEnv true) (Host.none Unit) 10 (.runFrom .cache 0x1000) callLoaded)
      (runCall (smallEnv true) (Host.none Unit) 10 (.runFrom .debug 0x1000) callLoaded) := by
  obtain ⟨hstep, hschedule, hrun⟩ :=
    tracks_agree (E := smallEnv true) (Host.none_noExec Unit)
  obtain ⟨hcode, hkeeps⟩ := (callLoaded_ready 0 _ (.refl _)).inCode (by decide)
  refine ⟨hstep _ _ hcode hkeeps, hschedule callNested _ _ _ rfl ?_,
    hrun 9 0x1000 _ callLoaded_ready⟩
  intro pre _ u hu
  exact Ready.onTracks (Host.none_noExec Unit) (.refl _) callLoaded_ready hu

end GabyVm.Engine
