import GabyVm.Engine.Initial
import GabyVm.Engine.Visits

/-!
# The position of the interpreter across nested calls

A call made while another is in progress returns with the cursor it was
entered with, and with registers and memory as the nested code left them.  So
the step that was interrupted goes on as if nothing had moved the interpreter:
it commits what its hook returned, or falls through after an observed store.
The outermost call restores nothing, and leaves its progress behind.
-/

namespace GabyVm.Engine

open GabyVm.Aarch64
open GabyVm.Cache
open GabyVm.Foundation

variable {τ : Type} {E : Env} {H : Host τ} {nested : ExecCall → Act τ Bool} {fuel : Nat}

/-! ## Inside a scope -/

def World.entered (w : World τ) (call : ExecCall) : World τ :=
  { w with sim := w.sim.enter (traceMask call.track w) }

theorem leave_enter (s : Sim) (parameters : BitVec 32) :
    (s.enter parameters).leave s = s := by
  have htrace : (s.trace.set parameters).set s.trace.parameters = s.trace :=
    Tracing.ext_parameters rfl
  obtain ⟨core, curRange, trace, lastInstruction, busy, traceParameters, fpsrStorage⟩ := s
  simp only at htrace
  simp only [Sim.leave, Sim.enter, htrace]
  cases busy <;> rfl

/-- A call that returns ran its body inside the scope. -/
theorem execCall_eq_ok {call : ExecCall} {w w' : World τ} {more : Bool}
    (h : execCall E H nested fuel call w = .ok more w') :
    ∃ v, callBody E H nested fuel call (w.entered call) = .ok more v ∧
      w' = { v with sim := v.sim.leave w.sim } := by
  simp only [execCall] at h
  split_ifs at h
  simp only [executionScope] at h
  obtain ⟨_, v, hbody, hleave⟩ := Outcome.bind_eq_ok.mp h
  cases hleave
  exact ⟨v, hbody, rfl⟩

/-- A call on a simulator that is attached, if its track needs a cache. -/
theorem runCall_attached {call : ExecCall} {w : World τ}
    (hcache : call.track = .cache → w.cache.isSome = true) :
    runCall E H (fuel + 1) call w =
      (callBody E H (runCall E H fuel) fuel call (w.entered call)).bind fun more v =>
        .ok more { v with sim := v.sim.leave w.sim } := by
  have hattached : ¬(call.track = .cache ∧ w.cache.isNone = true) := by
    rintro ⟨htrack, hnone⟩
    rw [Option.isNone_iff_eq_none] at hnone
    rw [hnone] at hcache
    exact absurd (hcache htrack) (by simp)
  rw [runCall, execCall, if_neg hattached]
  rfl

theorem callBody_ensures {P : World τ → Prop} {Q : Abort → World τ → Prop} (call : ExecCall)
    (hstep : ∀ w, P w → (stepOnce E H nested call.track w).Ensures (fun _ v => P v) Q)
    (hseat : ∀ w entry, P w → P (w.setCore (w.core.writePc entry))) {w : World τ} (hw : P w) :
    (callBody E H nested fuel call w).Ensures (fun _ v => P v) Q := by
  cases call with
  | runFrom track entry =>
      refine Outcome.Ensures.bind (P := fun _ v => P v)
        (loop_ensures hstep fuel (hseat w _ hw)) ?_
      intro _ v hv
      exact hv
  | stepOnce track => exact hstep w hw
  | stepOnceFrom track entry => exact hstep _ (hseat w _ hw)

/-! ## The busy flag -/

theorem keepsBusy (E : Env) :
    StepInvariant E (fun _ => True) (fun w : World τ => w.sim.busy = true)
      (fun _ _ => True) where
  setHost w t h := h
  write r w _ h := writeRegister_ensures r (fun _ => h) (fun _ => h) (fun _ _ => trivial)
  writeByte w a b h := h
  register w start sizeBytes alloc h := by
    unfold World.register
    cases w.cache <;> exact h
  setTraceParameters w parameters h := h
  setCore w c h := h
  logStore w event h := h
  aborted e w _ _ := trivial

theorem stepOnce_busy (hcalls : ∀ call w, w.sim.busy = true →
      (nested call w).Ensures (fun _ v => v.sim.busy = true) (fun _ _ => True))
    (track : Track) {w : World τ} (hw : w.sim.busy = true) :
    (stepOnce E H nested track w).Ensures (fun _ v => v.sim.busy = true) (fun _ _ => True) :=
  (keepsBusy E).stepOnce H.within_true (fun call _ => hcalls call) track
    (fun _ _ _ hfound hu => (dispatch_begun hfound).busy.trans hu) (fun _ _ hu => hu) hw

/-- A nested call leaves the simulator busy, whatever its callbacks do. -/
theorem runCall_busy (E : Env) (H : Host τ) (fuel : Nat) (call : ExecCall) {w : World τ}
    (hw : w.sim.busy = true) :
    (runCall E H fuel call w).Ensures (fun _ v => v.sim.busy = true) (fun _ _ => True) := by
  induction fuel generalizing call w with
  | zero => trivial
  | succ fuel ih =>
      have hstep (track : Track) (u : World τ) (hu : u.sim.busy = true) :=
        stepOnce_busy (E := E) (H := H) (fun call _ hv => ih call hv) track hu
      have hbody : (callBody E H (runCall E H fuel) fuel call (w.entered call)).Ensures
          (fun _ v => v.sim.busy = true) (fun _ _ => True) :=
        callBody_ensures call (hstep call.track) (fun _ _ hv => hv) rfl
      cases hcall : runCall E H (fuel + 1) call w with
      | ok more w' =>
          obtain ⟨v, hv, rfl⟩ := execCall_eq_ok hcall
          simp only [Outcome.ensures_ok, Sim.leave, hw, if_true]
          exact hbody.of_eq_ok hv
      | abort reason w' => trivial
      | timeout => trivial

theorem reaches_busy {tracks : List Track} {w v : World τ}
    (h : Reaches (tracks.map (stepOnce E H (runCall E H fuel))) w v) (hw : w.sim.busy = true) :
    v.sim.busy = true := by
  have hsteps : ∀ step ∈ tracks.map (stepOnce E H (runCall E H fuel)), ∀ u x : World τ,
      u.sim.busy = true → step u = .ok true x → x.sim.busy = true := by
    intro step hstep u x hu hx
    obtain ⟨track, -, rfl⟩ := List.mem_map.mp hstep
    exact (stepOnce_busy (fun call _ hv => runCall_busy E H fuel call hv) track hu).of_eq_ok hx
  exact h.invariant hsteps hw

/-! ## Nested and outermost calls -/

/--
What a nested call returns to: the cursor of its caller, the busy flag set, and
registers and memory as its body left them.  The run of an entry form ends at
the null program counter, which the caller does not see.
-/
structure ReturnsNested (E : Env) (H : Host τ) (fuel : Nat) (call : ExecCall) (w : World τ)
    (more : Bool) (w' : World τ) : Prop where
  cursor : w'.sim.saveCursor = w.sim.saveCursor
  busy : w'.sim.busy = true
  body : ∃ v, callBody E H (runCall E H fuel) fuel call (w.entered call) = .ok more v ∧
    v.core.SameData w'.core ∧ w'.host = v.host ∧ w'.cache = v.cache ∧
    ∀ track entry, call = .runFrom track entry → v.core.pc = 0

theorem runFrom_finished {track : Track} {entry : Addr} {w v : World τ} {more : Bool}
    (h : callBody E H nested fuel (.runFrom track entry) w = .ok more v) :
    v.core.pc = 0 := by
  simp only [callBody, Action.bind_apply, modifyCore_apply, Outcome.bind_ok] at h
  obtain ⟨_, u, hloop, hend⟩ := Outcome.bind_eq_ok.mp h
  cases hend
  obtain ⟨_, x, -, hlast⟩ := loop_eq_ok hloop
  simp only [stepOnce] at hlast
  split_ifs at hlast with hpc
  · cases hlast
    simpa [Core.isSimulationFinished] using hpc
  · obtain ⟨_, _, _, hmore⟩ := Outcome.bind_eq_ok.mp hlast
    cases hmore

theorem runCall_nested {call : ExecCall} {w w' : World τ} {more : Bool}
    (hbusy : w.sim.busy = true) (h : runCall E H (fuel + 1) call w = .ok more w') :
    ReturnsNested E H fuel call w more w' := by
  have hstill := (runCall_busy E H (fuel + 1) call hbusy).of_eq_ok h
  obtain ⟨v, hbody, rfl⟩ := execCall_eq_ok h
  refine ⟨?_, hstill, v, hbody, ?_, rfl, rfl, ?_⟩
  · simp only [Sim.leave, hbusy, if_true]
    rfl
  · simp only [World.core, Sim.leave, hbusy, if_true]
    exact ⟨rfl, rfl, rfl, rfl, rfl, rfl, rfl⟩
  · rintro track entry rfl
    exact runFrom_finished hbody

/-- What the outermost call leaves: a simulator at rest where its body ended. -/
structure ReturnsOutermost (E : Env) (H : Host τ) (fuel : Nat) (call : ExecCall) (w : World τ)
    (more : Bool) (w' : World τ) : Prop where
  busy : w'.sim.busy = false
  body : ∃ v, callBody E H (runCall E H fuel) fuel call (w.entered call) = .ok more v ∧
    w'.core = v.core ∧ w'.sim.curRange = v.sim.curRange

theorem runCall_outermost {call : ExecCall} {w w' : World τ} {more : Bool}
    (hbusy : w.sim.busy = false) (h : runCall E H (fuel + 1) call w = .ok more w') :
    ReturnsOutermost E H fuel call w more w' := by
  obtain ⟨v, hbody, rfl⟩ := execCall_eq_ok h
  refine ⟨?_, v, hbody, ?_, ?_⟩
  · simp [Sim.leave, hbusy]
  · simp [World.core, Sim.leave, hbusy]
  · simp [Sim.leave, hbusy]

/-! ## The interrupted step -/

/-- Nothing that a callback may do moves the cursor. -/
theorem keepsCursor (E : Env) (cursor : Cursor) :
    HostInvariant E RegisterWrite.KeepsPosition
      (fun w : World τ => w.sim.saveCursor = cursor ∧ w.sim.busy = true) (fun _ _ => True) where
  setHost w t h := h
  write r w hr h := by
    refine writeRegister_frame r (fun x hkept _ => ⟨?_, h.2⟩) (fun _ => h) (fun _ _ => trivial)
    obtain ⟨hpc, hmodified, hbtype, hnext⟩ := hkept hr
    rw [← h.1]
    simp only [Sim.saveCursor, World.setCore, Sim.setCore, rewritten, hpc, hmodified, hbtype, hnext]
    rfl
  writeByte w a b h := h
  register w start sizeBytes alloc h := by
    unfold World.register
    cases w.cache <;> exact h
  setTraceParameters w parameters h := h

theorem callback_keepsCursor {α : Type} {calls : ExecCall → Prop} {p : HostProg τ α}
    (hp : p.Within calls RegisterWrite.KeepsPosition) {w : World τ} (hbusy : w.sim.busy = true) :
    (p.run E (runCall E H fuel) w).Ensures
      (fun _ v => v.sim.saveCursor = w.sim.saveCursor ∧ v.sim.busy = true)
      (fun _ _ => True) := by
  refine (keepsCursor E w.sim.saveCursor).run hp ?_ ⟨rfl, hbusy⟩
  rintro call - u ⟨hcursor, hstill⟩
  cases fuel with
  | zero => trivial
  | succ fuel =>
      cases hcall : runCall E H (fuel + 1) call u with
      | ok more v =>
          have hreturns := runCall_nested hstill hcall
          exact ⟨hreturns.cursor.trans hcursor, hreturns.busy⟩
      | abort reason v => trivial
      | timeout => trivial

/-- What the hook answers is committed without its tag, or aborts the step. -/
theorem hooked_commit {hook : Addr → HostProg τ Addr} (hhook : H.branchHook = some hook)
    {target : Addr} {w v : World τ} (h : gabyHookedWritePc E H nested target w = .ok () v) :
    ∃ next u, (hook target).run E nested (w.log (.branch (branchEvent w target))) = .ok next u ∧
      isWordAligned next = true ∧ v = u.setCore (u.core.writePc next) := by
  simp only [gabyHookedWritePc, hhook] at h
  obtain ⟨next, u, hrun, hcommit⟩ := Outcome.bind_eq_ok.mp h
  split_ifs at hcommit with halign
  cases hcommit
  exact ⟨next, u, hrun, halign, rfl⟩

/--
The step that took a branch commits what the hook answered there, with the
branch type that the branch had staged before the call.
-/
structure CommitsAnswer (E : Env) (nested : ExecCall → Act τ Bool) (answer : HostProg τ Addr)
    (asked v : World τ) : Prop where
  committed : ∃ next u, answer.run E nested asked = .ok next u ∧
    isWordAligned next = true ∧ v.core.pc = addressUntag next
  btype : v.core.btype = asked.core.nextBtype

theorem step_commits {calls : ExecCall → Prop} {hook : Addr → HostProg τ Addr}
    (hhook : H.branchHook = some hook) {target : Addr}
    (hp : (hook target).Within calls RegisterWrite.KeepsPosition) {track : Track}
    {w u v : World τ} {found : Found} {c : Core} (hbusy : w.sim.busy = true)
    (hstep : stepOnce E H (runCall E H fuel) track w = .ok true v)
    (hfound : dispatch E track w = .ok found u)
    (hbranch : found.2.branchStep E w.core.instr (visitCore w.core found.1) =
      some (.commit target c)) :
    CommitsAnswer E (runCall E H fuel) (hook target)
      ((u.setCore c).log (.branch (branchEvent (u.setCore c) target))) v := by
  obtain ⟨hpc, found', u', x, hfound', hvisitor, rfl⟩ := stepOnce_eq_ok hstep
  rw [hfound] at hfound'
  cases hfound'
  rw [runVisitor_commit (w := u.setCore (visitCore w.core found.1)) hbranch] at hvisitor
  obtain ⟨next, y, hrun, halign, rfl⟩ := hooked_commit hhook hvisitor
  have hu : u.sim.busy = true := (dispatch_begun hfound).busy.trans hbusy
  obtain ⟨hcursor, -⟩ := (callback_keepsCursor hp (by exact hu)).of_eq_ok hrun
  exact ⟨⟨next, y, hrun, halign, rfl⟩, congrArg Cursor.nextBtype hcursor⟩

/-- A leaf that moves the program counter at no store and at no end. -/
inductive LeafKeepsPc (pc : Addr) : LeafProg → Prop where
  | done {c : Core} (hpc : c.pc = pc) (hmodified : c.pcModified = false) :
      LeafKeepsPc pc (.done c)
  | abort (message : String) (c : Core) : LeafKeepsPc pc (.abort message c)
  | store {event : MemoryWriteEvent} {c : Core} {next : Core → LeafProg} (hpc : c.pc = pc)
      (hmodified : c.pcModified = false)
      (h : ∀ c', c'.pc = pc → c'.pcModified = false → LeafKeepsPc pc (next c')) :
      LeafKeepsPc pc (.store event c next)

/-- Observers do not move it either, whatever they run in between. -/
theorem runLeaf_keepsPc (hH : H.Contract) {pc : Addr} {p : LeafProg} (hp : LeafKeepsPc pc p)
    {w : World τ} (hbusy : w.sim.busy = true) :
    (runLeaf E H (runCall E H fuel) p w).Ensures
      (fun _ v => v.core.pc = pc ∧ v.core.pcModified = false) (fun _ _ => True) := by
  induction hp generalizing w with
  | done hpc hmodified => exact ⟨hpc, hmodified⟩
  | abort message c => trivial
  | @store event c next hpc hmodified _ ih =>
      have hnotify : (notifyStore E H (runCall E H fuel) event (w.setCore c)).Ensures
          (fun _ v => v.sim.saveCursor = (w.setCore c).sim.saveCursor ∧ v.sim.busy = true)
          (fun _ _ => True) := by
        unfold notifyStore
        cases hobs : H.memoryWriteObserver with
        | none => exact ⟨rfl, hbusy⟩
        | some observer => exact callback_keepsCursor (hH.observer observer hobs event) hbusy
      refine hnotify.bind ?_
      rintro _ v ⟨hcursor, hstill⟩
      have hvpc : v.core.pc = pc := (congrArg Cursor.pc hcursor).trans hpc
      have hvmodified : v.core.pcModified = false :=
        (congrArg Cursor.pcModified hcursor).trans hmodified
      exact ih v.core hvpc hvmodified hstill

theorem step_fallsThrough (hH : H.Contract) {track : Track} {w u v : World τ} {found : Found}
    {run : Leaf} (hbusy : w.sim.busy = true)
    (hstep : stepOnce E H (runCall E H fuel) track w = .ok true v)
    (hfound : dispatch E track w = .ok found u) (hleaf : found.2 = .leaf run)
    (hkeeps : LeafKeepsPc w.core.pc (run w.core.instr (visitCore w.core found.1))) :
    v.core.pc = w.core.pc + instructionSize := by
  obtain ⟨hpc, found', u', x, hfound', hvisitor, rfl⟩ := stepOnce_eq_ok hstep
  rw [hfound] at hfound'
  cases hfound'
  have hu : u.sim.busy = true := (dispatch_begun hfound).busy.trans hbusy
  rw [hleaf] at hvisitor
  obtain ⟨hx, hmodified⟩ := (runLeaf_keepsPc hH hkeeps (by exact hu)).of_eq_ok hvisitor
  simp only [World.core_setCore, finishStep, Core.incrementPc, hmodified, Bool.false_eq_true,
    if_false, Core.updateBType, Core.getNextInstruction, hx]

/--
The position discipline of re-entrant calls: what a nested call returns to,
what the interrupted step commits, and what the outermost call leaves.
-/
theorem reentry_discipline (hH : H.Contract) (fuel : Nat) :
    (∀ call w more w', w.sim.busy = true → runCall E H (fuel + 1) call w = .ok more w' →
      ReturnsNested E H fuel call w more w') ∧
    (∀ hook track w u v found target c, H.branchHook = some hook → w.sim.busy = true →
      stepOnce E H (runCall E H fuel) track w = .ok true v →
      dispatch E track w = .ok found u →
      found.2.branchStep E w.core.instr (visitCore w.core found.1) = some (.commit target c) →
      CommitsAnswer E (runCall E H fuel) (hook target)
        ((u.setCore c).log (.branch (branchEvent (u.setCore c) target))) v) ∧
    (∀ track w u v found run, w.sim.busy = true →
      stepOnce E H (runCall E H fuel) track w = .ok true v →
      dispatch E track w = .ok found u → found.2 = .leaf run →
      LeafKeepsPc w.core.pc (run w.core.instr (visitCore w.core found.1)) →
      v.core.pc = w.core.pc + instructionSize) ∧
    (∀ call w more w', w.sim.busy = false → runCall E H (fuel + 1) call w = .ok more w' →
      ReturnsOutermost E H fuel call w more w') := by
  refine ⟨?_, ?_, ?_, ?_⟩
  · intro call w more w' hbusy hcall
    exact runCall_nested hbusy hcall
  · intro hook track w u v found target c hhook hbusy hstep hfound hbranch
    exact step_commits hhook (hH.branchHook hook hhook target) hbusy hstep hfound hbranch
  · intro track w u v found run hbusy hstep hfound hleaf hkeeps
    exact step_fallsThrough hH hbusy hstep hfound hleaf hkeeps
  · intro call w more w' hbusy hcall
    exact runCall_outermost hbusy hcall

/-! ## A detour, and an answer with a tag -/

/-- A branch over a return, to another return. -/
def detourWords : List Word := [0x14000002, 0xd65f03c0, 0xd65f03c0]

def detourStart : World Unit := World.load (smallEnv true) 0x1000 detourWords ()

/-- A hook that runs the return in between before it lets the branch go. -/
def detourHost : Host Unit where
  branchHook := some fun target =>
    if target = 0x1008 then .exec (.runFrom .cache 0x1004) fun _ => .ret target
    else .ret target
  memoryWriteObserver := none

theorem detourHost_contract : detourHost.Contract where
  branchHook hook h target := by
    cases h
    dsimp only
    split_ifs
    · exact .exec rfl fun _ => .ret target
    · exact .ret target
  observer obs h := by cases h

def detourCall (call : ExecCall) (w : World Unit) : Outcome Abort (World Unit) Bool :=
  runCall (smallEnv true) detourHost 6 call w

/-- About to move a register. -/
def moveStart : World Unit :=
  (World.load (smallEnv true) 0x1000 [0xaa0103e0] ()).seated .cache 0x1000

/-- A leaf is run here, and ends where it started. -/
def endsInPlace (w : World Unit) : Bool :=
  ((dispatch (smallEnv true) .cache w).result?.map fun r =>
    match r.1.2 with
    | .leaf run =>
        match run w.core.instr (visitCore w.core r.1.1) with
        | .done c => c.pc == w.core.pc && !c.pcModified
        | _ => false
    | _ => false) == some true

theorem leafKeepsPc_of_endsInPlace {w : World Unit} (h : endsInPlace w = true) :
    ∃ found u run, dispatch (smallEnv true) .cache w = .ok found u ∧ found.2 = .leaf run ∧
      LeafKeepsPc w.core.pc (run w.core.instr (visitCore w.core found.1)) := by
  obtain ⟨⟨found, u⟩, hfound, hends⟩ := Option.map_eq_some_iff.mp (eq_of_beq h)
  refine ⟨found, u, ?_⟩
  split at hends
  · next run hrun =>
      split at hends
      · next c hdone =>
          simp only [Bool.and_eq_true, beq_iff_eq, Bool.not_eq_true'] at hends
          exact ⟨run, Outcome.eq_ok_of_result?_eq hfound, hrun, hdone ▸ .done hends.1 hends.2⟩
      · cases hends
  · cases hends

theorem reentry_discipline_detour :
    (∃ more w', detourCall (.runFrom .cache 0x1004) (detourStart.seated .cache 0x1000) =
      .ok more w' ∧
      ReturnsNested (smallEnv true) detourHost 5 (.runFrom .cache 0x1004)
        (detourStart.seated .cache 0x1000) more w') ∧
    (∃ hook target u v, detourHost.branchHook = some hook ∧
      asked (smallEnv true) .cache (detourStart.seated .cache 0x1000) = some (target, u) ∧
      stepOnce (smallEnv true) detourHost (runCall (smallEnv true) detourHost 5) .cache
        (detourStart.seated .cache 0x1000) = .ok true v ∧
      CommitsAnswer (smallEnv true) (runCall (smallEnv true) detourHost 5) (hook target) u v) ∧
    (∃ v, stepOnce (smallEnv true) detourHost (runCall (smallEnv true) detourHost 5) .cache
        moveStart = .ok true v ∧ v.core.pc = moveStart.core.pc + instructionSize) ∧
    ∃ more w', detourCall (.runFrom .cache 0x1000) detourStart = .ok more w' ∧
      ReturnsOutermost (smallEnv true) detourHost 5 (.runFrom .cache 0x1000) detourStart
        more w' := by
  obtain ⟨hnested, hcommits, hfalls, houtermost⟩ :=
    reentry_discipline (E := smallEnv true) detourHost_contract 5
  have hsteps {w : World Unit} (h : (stepOnce (smallEnv true) detourHost
      (runCall (smallEnv true) detourHost 5) .cache w).result?.map Prod.fst = some true) :
      ∃ v, stepOnce (smallEnv true) detourHost (runCall (smallEnv true) detourHost 5) .cache w =
        .ok true v := by
    obtain ⟨⟨more, v⟩, hresult, rfl⟩ := Option.map_eq_some_iff.mp h
    exact ⟨v, Outcome.eq_ok_of_result?_eq hresult⟩
  refine ⟨?_, ?_, ?_, ?_⟩
  · have hends : (detourCall (.runFrom .cache 0x1004)
        (detourStart.seated .cache 0x1000)).result?.isSome = true := by decide +kernel
    obtain ⟨more, w', hcall⟩ := Outcome.eq_ok_of_result? hends
    exact ⟨more, w', hcall, hnested _ _ _ _ rfl hcall⟩
  · have hasks : (asked (smallEnv true) .cache
        (detourStart.seated .cache 0x1000)).isSome = true := by decide +kernel
    obtain ⟨⟨target, u⟩, hasked⟩ := Option.isSome_iff_exists.mp hasks
    obtain ⟨found, x, c, hfound, hbranch, rfl⟩ := asked_eq_some.mp hasked
    obtain ⟨v, hstep⟩ := hsteps (w := detourStart.seated .cache 0x1000) (by decide +kernel)
    exact ⟨_, target, _, v, rfl, hasked, hstep,
      hcommits _ _ _ _ _ _ _ _ rfl rfl hstep hfound hbranch⟩
  · obtain ⟨found, u, run, hfound, hleaf, hkeeps⟩ :=
      leafKeepsPc_of_endsInPlace (w := moveStart) (by decide +kernel)
    obtain ⟨v, hstep⟩ := hsteps (w := moveStart) (by decide +kernel)
    exact ⟨v, hstep, hfalls _ _ _ _ _ _ rfl hstep hfound hleaf hkeeps⟩
  · have hends : (detourCall (.runFrom .cache 0x1000) detourStart).result?.isSome = true := by
      decide +kernel
    obtain ⟨more, w', hcall⟩ := Outcome.eq_ok_of_result? hends
    exact ⟨more, w', hcall, houtermost _ _ _ _ rfl hcall⟩

def taggedAddress : Addr := 0x0100000000001000

def taggingHost : Host Unit := ⟨some fun _ => .ret taggedAddress, none⟩

/-- The tag is removed before the answer is committed. -/
theorem taggedAnswer_untagged :
    ∃ v, stepOnce (smallEnv true) taggingHost (fun _ => Action.timeout) .cache
        (detourStart.seated .cache 0x1000) = .ok true v ∧
      v.core.pc ≠ taggedAddress ∧ v.core.pc = 0x1000 := by
  have hends : (stepOnce (smallEnv true) taggingHost (fun _ => Action.timeout) .cache
      (detourStart.seated .cache 0x1000)).result?.map (fun r => (r.1, r.2.core.pc)) =
        some (true, 0x1000) := by decide +kernel
  obtain ⟨more, v, hstep⟩ := Outcome.eq_ok_of_result? (by rw [← Option.isSome_map, hends]; rfl)
  rw [hstep] at hends
  obtain ⟨rfl, hpc⟩ := Prod.mk.inj (Option.some.inj hends)
  refine ⟨v, hstep, ?_, hpc⟩
  rw [show v.core.pc = 0x1000 from hpc]
  decide

end GabyVm.Engine
