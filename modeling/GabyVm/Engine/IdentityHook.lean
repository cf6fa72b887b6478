import GabyVm.Engine.Initial
import GabyVm.Engine.Visits

/-!
# A hook that returns its target

Without a hook a taken branch commits whatever target it has.  With one, what
the hook returns must be word-aligned, and this check is made even of a target
that the hook only passes through.  So the hook goes unnoticed exactly as long
as no branch is taken to a misaligned target.
-/

namespace GabyVm.Engine

open GabyVm.Aarch64
open GabyVm.Cache
open GabyVm.Foundation

variable {τ : Type} {E : Env} {nested nested' : ExecCall → Act τ Bool}
  {obs : Option (MemoryWriteEvent → HostProg τ Unit)}

def Host.unhooked (obs : Option (MemoryWriteEvent → HostProg τ Unit)) : Host τ := ⟨Option.none, obs⟩

/-! ## The relation -/

/-- The worlds differ at most in the callbacks made so far. -/
def SameButCalls (w w' : World τ) : Prop := ∃ events, w' = { w with events := events }

theorem SameButCalls.refl (w : World τ) : SameButCalls w w := ⟨_, rfl⟩

theorem sameButCalls_visitRel (E : Env) :
    VisitRel E (SameButCalls (τ := τ)) SameButCalls where
  core w w' h := by
    obtain ⟨_, rfl⟩ := h
    rfl
  host w w' h := by
    obtain ⟨_, rfl⟩ := h
    rfl
  readAll w w' h := by
    obtain ⟨_, rfl⟩ := h
    rfl
  setCore w w' c h := by
    obtain ⟨_, rfl⟩ := h
    exact ⟨_, rfl⟩
  setHost w w' t h := by
    obtain ⟨_, rfl⟩ := h
    exact ⟨_, rfl⟩
  write r w w' h := by
    obtain ⟨_, rfl⟩ := h
    simp only [writeRegister]
    cases w.sim.write r with
    | ok s => exact .ok ⟨_, rfl⟩
    | error e => exact .abort ⟨_, rfl⟩
  register w w' start sizeBytes alloc h := by
    obtain ⟨_, rfl⟩ := h
    obtain ⟨sim, cache, host, events⟩ := w
    cases cache with
    | none => exact ⟨rfl, _, rfl⟩
    | some cache => exact ⟨rfl, _, rfl⟩
  setTraceParameters w w' parameters h := by
    obtain ⟨_, rfl⟩ := h
    exact ⟨_, rfl⟩
  log w w' e h := by
    obtain ⟨_, rfl⟩ := h
    exact ⟨_, rfl⟩
  aborted w w' h := h
  cache w w' h := by
    obtain ⟨_, rfl⟩ := h
    rfl
  curRange w w' h := by
    obtain ⟨_, rfl⟩ := h
    rfl
  setRange w w' r h := by
    obtain ⟨_, rfl⟩ := h
    exact ⟨_, rfl⟩
  setAudit w w' f h := by
    obtain ⟨_, rfl⟩ := h
    exact ⟨_, rfl⟩

/-! ## One step -/

variable (E) in
/-- The step from here commits a branch target that is not word-aligned. -/
def CommitsMisaligned (track : Track) (w : World τ) : Prop :=
  w.core.pc ≠ 0 ∧ ∃ found u target c, dispatch E track w = .ok found u ∧
    found.2.branchStep E w.core.instr (visitCore w.core found.1) = some (.commit target c) ∧
    isWordAligned target = false

theorem passThrough_commit {target : Addr} (halign : isWordAligned target = true) {w w' : World τ}
    (h : SameButCalls w w') :
    Outcome.Rel SameButCalls SameButCalls
      (gabyHookedWritePc E (Host.unhooked obs) nested target w)
      (gabyHookedWritePc E (Host.passThrough obs) nested' target w') := by
  obtain ⟨_, rfl⟩ := h
  simp only [gabyHookedWritePc, Host.unhooked, Host.passThrough, HostProg.run,
    Action.pure_apply, Outcome.bind_ok, halign, if_true]
  exact .ok ⟨_, rfl⟩

theorem passThrough_misaligned {target : Addr} (halign : isWordAligned target = false)
    (w : World τ) :
    ∃ v, gabyHookedWritePc E (Host.passThrough obs) nested' target w =
      .abort .misalignedHookPc v := by
  simp only [gabyHookedWritePc, Host.passThrough, HostProg.run, Action.pure_apply,
    Outcome.bind_ok, halign, Bool.false_eq_true, if_false]
  exact ⟨_, rfl⟩

/-- A step that commits no misaligned target does not notice the hook. -/
theorem passThrough_step (hobs : (Host.unhooked obs).NoExec) (track : Track) {w w' : World τ}
    (h : SameButCalls w w') (haligned : ¬CommitsMisaligned E track w) :
    Outcome.Rel SameButCalls SameButCalls
      (stepOnce E (Host.unhooked obs) nested track w)
      (stepOnce E (Host.passThrough obs) nested' track w') := by
  have hrel := sameButCalls_visitRel (τ := τ) E
  have hsame : (Host.passThrough obs).memoryWriteObserver =
      (Host.unhooked obs).memoryWriteObserver := rfl
  have hcalls : ∀ call, False → ∀ w w', SameButCalls w w' →
      Outcome.Rel SameButCalls SameButCalls (nested call w) (nested' call w') := by
    intro _ hfalse
    exact hfalse.elim
  by_cases hpc : w.core.pc = 0
  · have hpc' : w'.core.pc = 0 := by rw [← hrel.core w w' h, hpc]
    simp only [stepOnce, Core.isSimulationFinished, hpc, hpc', BEq.rfl, if_true]
    exact .ok h
  rw [stepOnce_dispatch hpc, stepOnce_dispatch (hrel.core w w' h ▸ hpc)]
  refine (hrel.dispatch track h).bind ?_
  intro found u u' hfound _ hu
  simp only [← hrel.core u u' hu]
  refine Outcome.Rel.bind (R := SameButCalls) ?_ ?_
  · refine hrel.runVisitor hobs hsame hcalls found.2 _ (hrel.setCore u u' _ hu) ?_
    intro target c hstep
    refine passThrough_commit ?_ (hrel.setCore _ _ c (hrel.setCore u u' _ hu))
    rw [← Bool.not_eq_false]
    intro halign
    refine haligned ⟨hpc, found, u, target, c, hfound, ?_, halign⟩
    rw [World.core_setCore, (dispatch_begun hfound).core] at hstep
    exact hstep
  · intro _ x x' _ _ hx
    refine hrel.toWorldRel.conclude track _ hx ?_
    rintro v _ ⟨events, rfl⟩ _ _ _
    rfl

/-- Without a hook a commit is followed only by the checks that end the step. -/
theorem unhooked_commit {track : Track} {w : World τ} (h : CommitsMisaligned E track w)
    (reason : Abort) (v : World τ)
    (hstep : stepOnce E (Host.unhooked obs) nested track w = .abort reason v) :
    reason ≠ .misalignedHookPc := by
  obtain ⟨hpc, found, u, target, c, hfound, hbranch, -⟩ := h
  have hensures : (stepOnce E (Host.unhooked obs) nested track w).Ensures (fun _ _ => True)
      (fun reason _ => ∃ condition, reason = .check condition) := by
    rw [stepOnce_visit hpc hfound,
      runVisitor_commit (w := u.setCore (visitCore w.core found.1)) hbranch]
    exact conclude_aborts track _ _
  obtain ⟨condition, rfl⟩ := hensures.of_eq_abort hstep
  simp

/-- At a misaligned target the hooked step aborts for a reason of its own. -/
theorem passThrough_notices {track : Track} {w w' : World τ} (h : SameButCalls w w')
    (hmisaligned : CommitsMisaligned E track w) :
    ¬Outcome.Rel SameButCalls SameButCalls
      (stepOnce E (Host.unhooked obs) nested track w)
      (stepOnce E (Host.passThrough obs) nested' track w') := by
  have hrel := sameButCalls_visitRel (τ := τ) E
  obtain ⟨hpc, found, u, target, c, hfound, hbranch, halign⟩ := hmisaligned
  have hdispatch := hrel.dispatch track h
  obtain ⟨u', hfound', hu⟩ := hdispatch.ok_right hfound
  have hpc' : w'.core.pc ≠ 0 := hrel.core w w' h ▸ hpc
  have hbranch' : found.2.branchStep E w'.core.instr (visitCore w'.core found.1) =
      some (.commit target c) := hrel.core w w' h ▸ hbranch
  obtain ⟨v, hhook⟩ : ∃ v, gabyHookedWritePc E (Host.passThrough obs) nested' target
      ((u'.setCore (visitCore w'.core found.1)).setCore c) = .abort .misalignedHookPc v :=
    passThrough_misaligned halign _
  have habort : stepOnce E (Host.passThrough obs) nested' track w' =
      .abort .misalignedHookPc v := by
    rw [stepOnce_visit hpc' hfound',
      runVisitor_commit (w := u'.setCore (visitCore w'.core found.1)) hbranch', hhook,
      Outcome.bind_abort]
  intro hsteps
  rw [habort] at hsteps
  generalize hplain : stepOnce E (Host.unhooked obs) nested track w = o at hsteps
  cases hsteps with
  | abort _ =>
      exact unhooked_commit ⟨hpc, found, u, target, c, hfound, hbranch, halign⟩ _ _ hplain rfl

/-! ## Runs -/

/--
A run with the hook installed is step by step the run without it exactly when
no step of the latter commits a misaligned target.
-/
theorem identityHook_invisible_iff (hobs : (Host.unhooked obs).NoExec) (tracks : List Track)
    (w : World τ) :
    (∀ pre, pre <+: tracks → Outcome.Rel SameButCalls SameButCalls
      (runSchedule (pre.map (stepOnce E (Host.unhooked obs) nested)) w)
      (runSchedule (pre.map (stepOnce E (Host.passThrough obs) nested')) w)) ↔
    ∀ pre track, pre ++ [track] <+: tracks →
      ∀ u, Reaches (pre.map (stepOnce E (Host.unhooked obs) nested)) w u →
        ¬CommitsMisaligned E track u :=
  runSchedule_rel_iff (P := fun track u => ¬CommitsMisaligned E track u)
    (fun track _ _ h haligned => passThrough_step hobs track h haligned)
    (fun _ _ _ h hmisaligned => passThrough_notices h (not_not.mp hmisaligned))
    tracks (SameButCalls.refl w)

/-! ## A branch through a register -/

/-- BR X0 with the value that X0 has on construction, which is odd. -/
def branchAway : World Unit :=
  (World.load (smallEnv true) 0x1000 [0xd61f0000] ()).seated .cache 0x1000

theorem identityHook_invisible_iff_branchAway :
    (∀ pre, pre <+: [Track.debug] → Outcome.Rel SameButCalls SameButCalls
      (runSchedule (pre.map (stepOnce (smallEnv true) (Host.unhooked none)
        (fun _ => Action.timeout))) branchAway)
      (runSchedule (pre.map (stepOnce (smallEnv true) (Host.passThrough none)
        (fun _ => Action.timeout))) branchAway)) ↔
    ∀ pre track, pre ++ [track] <+: [Track.debug] →
      ∀ u, Reaches (pre.map (stepOnce (smallEnv true) (Host.unhooked none)
        (fun _ => Action.timeout))) branchAway u →
        ¬CommitsMisaligned (smallEnv true) track u :=
  identityHook_invisible_iff (Host.none_noExec Unit) [Track.debug] branchAway

def branchAwayRun (H : Host Unit) (track : Track) : Outcome Abort (World Unit) Nat :=
  runSchedule [stepOnce (smallEnv true) H (fun _ => Action.timeout) track] branchAway

/-- On both tracks the hooked run aborts where the other goes on. -/
theorem branchAway_noticed :
    ¬Outcome.Rel SameButCalls SameButCalls (branchAwayRun (Host.unhooked none) .cache)
        (branchAwayRun (Host.passThrough none) .cache) ∧
      ¬Outcome.Rel SameButCalls SameButCalls (branchAwayRun (Host.unhooked none) .debug)
        (branchAwayRun (Host.passThrough none) .debug) := by
  have hplain (track : Track) :
      (branchAwayRun (Host.unhooked none) track).result?.isSome = true := by
    cases track <;> decide +kernel
  have hhooked (track : Track) :
      (branchAwayRun (Host.passThrough none) track).result?.isSome = false := by
    cases track <;> decide +kernel
  have hnot (track : Track) : ¬Outcome.Rel SameButCalls SameButCalls
      (branchAwayRun (Host.unhooked none) track)
      (branchAwayRun (Host.passThrough none) track) := by
    intro h
    have hends := h.result?_isSome
    rw [hplain, hhooked] at hends
    cases hends
  exact ⟨hnot .cache, hnot .debug⟩

end GabyVm.Engine
