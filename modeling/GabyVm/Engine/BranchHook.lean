import GabyVm.Aarch64.TakenBranch
import GabyVm.Engine.TwoTracks

/-!
# When the branch hook fires

A step that takes a branch calls the hook once, with the program counter still
at the branch and the link register already set; no other step calls it.
Where the tracks agree, the hook sees the same calls on both.
-/

namespace GabyVm.Engine

open GabyVm.Aarch64
open GabyVm.Cache
open GabyVm.Foundation

variable {τ : Type} {E : Env} {H : Host τ} {nested : ExecCall → Act τ Bool}

/-- The hook calls among the callbacks, latest first. -/
def branchEvents (events : List HostEvent) : List BranchEvent :=
  events.filterMap fun
    | .branch event => some event
    | .memoryWrite _ => none

@[simp] theorem branchEvents_branch (event : BranchEvent) (events : List HostEvent) :
    branchEvents (.branch event :: events) = event :: branchEvents events := rfl

@[simp] theorem branchEvents_memoryWrite (event : MemoryWriteEvent) (events : List HostEvent) :
    branchEvents (.memoryWrite event :: events) = branchEvents events := rfl

/-! ## What keeps the hook calls -/

/-- Neither host operations nor leaves call the hook. -/
theorem keepsBranchEvents (E : Env) (events : List BranchEvent) :
    StepInvariant E (fun _ => True) (fun w : World τ => branchEvents w.events = events)
      (fun _ _ => True) where
  setHost w t h := h
  write r w _ h := writeRegister_ensures r (fun _ => h) (fun _ => h) (fun _ _ => trivial)
  writeByte w a b h := h
  register w start sizeBytes alloc h := by
    unfold World.register
    cases w.cache <;> exact h
  setTraceParameters w parameters h := h
  setCore w c h := h
  logStore w event h := h
  aborted e w _ _ := trivial

/-- Without execution calls there is nothing to show about them. -/
theorem noCalls {P : World τ → Prop} {Q : Abort → World τ → Prop} :
    ∀ call, False → ∀ w, P w → (nested call w).Ensures (fun _ w' => P w') Q := by
  intro _ hfalse
  exact hfalse.elim

/-- The commit of a target calls the hook once, in the state that asks for it. -/
theorem gabyHookedWritePc_fires (hH : H.NoExec) {hook : Addr → HostProg τ Addr}
    (hhook : H.branchHook = some hook) (target : Addr) (w : World τ) :
    (gabyHookedWritePc E H nested target w).Ensures
      (fun _ v => branchEvents v.events = branchEvent w target :: branchEvents w.events)
      (fun _ _ => True) := by
  have hkeeps := keepsBranchEvents (τ := τ) E (branchEvent w target :: branchEvents w.events)
  simp only [gabyHookedWritePc, hhook]
  apply (hkeeps.toHostInvariant.run (hH.branchHook hook hhook target) noCalls rfl).bind
  intro next v hv
  cases isWordAligned next with
  | true => exact hv
  | false => trivial

/-! ## One step -/

/-- A step that ends normally ran the visitor of its word, and no hook before that. -/
theorem stepOnce_ran {track : Track} {w v : World τ}
    (hcode : track = .cache → OnRegisteredCode E w)
    (h : stepOnce E H nested track w = .ok true v) :
    ∃ u, u.core = beginStep w.core ∧ u.events = w.events ∧
      (E.decode w.core.instr).unallocated = false ∧
      runForm E H nested (lastInstrWasMovprfx w.core) (decodedHash E w.core.instr)
        (visitorOf E (decodedHash E w.core.instr)) w.core.instr u = .ok () v := by
  have hpc : w.core.pc ≠ 0 := by
    intro hpc
    simp [stepOnce, Core.isSimulationFinished, hpc] at h
  rw [stepOnce_eq E H nested hpc] at h
  obtain ⟨_, v', hexecute, hv⟩ := Outcome.bind_eq_ok.mp h
  cases hv
  cases track with
  | cache =>
      obtain ⟨cache, hcached⟩ := (hcode rfl).executeInstructionCached_eq H nested
      rw [execute, hcached] at hexecute
      simp only at hexecute
      split_ifs at hexecute
      cases hdecode : (E.decode w.core.instr).unallocated with
      | true =>
          rw [predecodeWord_of_unallocated hdecode, PredecodeCache.dataInStreamEntry,
            runForm_unallocated] at hexecute
          cases hexecute
      | false =>
          simp only [predecodeWord_of_allocated hdecode] at hexecute
          exact ⟨w.beginCached cache, rfl, rfl, rfl, hexecute⟩
  | debug =>
      have halign : assertAligned E w = .ok () w := by
        simp only [execute, executeInstruction, Action.bind_apply] at hexecute
        obtain ⟨_, x, hassert, -⟩ := Outcome.bind_eq_ok.mp hexecute
        obtain ⟨-, rfl⟩ := Action.require_eq_ok.mp hassert
        exact hassert
      rw [execute, executeInstruction_eq E H nested halign] at hexecute
      simp only at hexecute
      split_ifs at hexecute with _ hdecode
      obtain ⟨_, x, hform, hcheck⟩ := Outcome.bind_eq_ok.mp hexecute
      simp only [checkAvailable] at hcheck
      obtain ⟨-, rfl⟩ := Action.require_eq_ok.mp hcheck
      rw [Bool.not_eq_true] at hdecode
      exact ⟨(w.setCore (beginStep w.core)).audited E, rfl, rfl, hdecode, hform⟩

/--
One call of the hook, made with the program counter at the branch and, for a
branch that links, with the link register at the following instruction.
-/
def FiresOnce (visitor : Visitor) (w v : World τ) : Prop :=
  ∃ event, branchEvents v.events = event :: branchEvents w.events ∧
    event.pc = w.core.pc ∧ event.file.pc = w.core.pc ∧
    event.target = branchTarget visitor w.core.instr w.core ∧
    (branchLinks visitor w.core.instr = true → event.file.lr = w.core.pc + instructionSize)

/-- What the start of a step changes, no branch condition looks at. -/
theorem branchTaken_begun (v : Visitor) (w : Word) (c : Core) (hash : FormHash) :
    branchTaken v w ((beginStep c).writeFormHash hash) = branchTaken v w c := by
  cases v <;> rfl

theorem branchTarget_begun (v : Visitor) (w : Word) (c : Core) (hash : FormHash) :
    branchTarget v w ((beginStep c).writeFormHash hash) = branchTarget v w c := by
  cases v <;> rfl

theorem runForm_eq_ok {wasMovprfx : Bool} {hash : FormHash} {visitor : Visitor} {word : Word}
    {u v : World τ} (h : runForm E H nested wasMovprfx hash visitor word u = .ok () v) :
    ∃ x, runVisitor E H nested visitor word (u.setCore (u.core.writeFormHash hash)) = .ok () x ∧
      stepTail E wasMovprfx x = .ok () v := by
  simp only [runForm, Action.bind_apply, modifyCore_apply, Outcome.bind_ok] at h
  obtain ⟨_, x, hvisitor, htail⟩ := Outcome.bind_eq_ok.mp h
  exact ⟨x, hvisitor, htail⟩

theorem stepTail_branchEvents {wasMovprfx : Bool} {x v : World τ}
    (h : stepTail E wasMovprfx x = .ok () v) :
    branchEvents v.events = branchEvents x.events :=
  ((keepsBranchEvents E _).stepTail wasMovprfx rfl).of_eq_ok h

theorem branch_step {row : BranchForm} (hrow : row ∈ branchForms) (hH : H.NoExec)
    {hook : Addr → HostProg τ Addr} (hhook : H.branchHook = some hook) {w u v : World τ}
    (hmask : w.core.instr &&& row.mask = row.value) (hcore : u.core = beginStep w.core)
    (hevents : u.events = w.events) {wasMovprfx : Bool}
    (h : runForm E H nested wasMovprfx (formHash row.form) row.visitor w.core.instr u =
      .ok () v) :
    if branchTaken row.visitor w.core.instr w.core then FiresOnce row.visitor w v
    else branchEvents v.events = branchEvents w.events := by
  obtain ⟨x, hvisitor, htail⟩ := runForm_eq_ok h
  obtain ⟨step, hstep, hspec⟩ := branchForm_stepsAs E hrow hmask
    (c := (beginStep w.core).writeFormHash (formHash row.form)) rfl
  rw [hcore, runVisitor_branch E H nested (by exact hstep)] at hvisitor
  have hafter := stepTail_branchEvents htail
  cases step with
  | fallThrough c' =>
      obtain ⟨-, htaken⟩ := hspec
      rw [branchTaken_begun] at htaken
      cases hvisitor
      rw [htaken, if_neg Bool.false_ne_true, hafter]
      exact congrArg branchEvents hevents
  | abort reason c' => cases hvisitor
  | commit target c' =>
      have hlogged := (gabyHookedWritePc_fires hH hhook target _).of_eq_ok hvisitor
      have htaken := hspec.taken
      rw [branchTaken_begun] at htaken
      rw [htaken, if_pos rfl]
      refine ⟨branchEvent (u.setCore c') target, ?_, hspec.pc, hspec.pc, ?_, hspec.link⟩
      · rw [hafter, hlogged, World.setCore_setCore]
        exact congrArg (fun events => _ :: branchEvents events) hevents
      · rw [← branchTarget_begun]
        exact hspec.target_eq

/-- A visitor that is no branch does not call the hook. -/
theorem other_step (hH : H.NoExec) {hash : FormHash} {u v : World τ} {word : Word}
    (hbranch : ∀ row ∈ branchForms, hash ≠ formHash row.form)
    (hreturn : ∀ form ∈ exceptionReturnForms, hash ≠ formHash form) {wasMovprfx : Bool}
    (h : runForm E H nested wasMovprfx hash (visitorOf E hash) word u = .ok () v) :
    branchEvents v.events = branchEvents u.events := by
  obtain ⟨x, hvisitor, htail⟩ := runForm_eq_ok h
  have hother := branchStep_of_other (E := E) hbranch hreturn word
  have hkeeps : (runVisitor E H nested (visitorOf E hash) word
      (u.setCore (u.core.writeFormHash hash))).Ensures
        (fun _ x => branchEvents x.events = branchEvents u.events) (fun _ _ => True) :=
    (keepsBranchEvents E _).runVisitor hH noCalls _ word rfl
      (fun hne => absurd (hother _) hne)
  rw [stepTail_branchEvents htail]
  exact hkeeps.of_eq_ok hvisitor

/-! ## Runs -/

theorem Agree.events {α : Type} {o o' : Outcome Abort (World τ) α} (h : Agree o o') :
    o.state?.map (·.events) = o'.state?.map (·.events) := by
  cases h with
  | ok h =>
      obtain ⟨_, _, _, rfl⟩ := h
      rfl
  | abort h =>
      obtain ⟨_, _, _, _, rfl⟩ := h
      rfl
  | timeout => rfl

variable (E H nested) in
/-- The hook calls of a run of so many steps on one track. -/
def hookCalls (track : Track) (n : Nat) (w : World τ) : Option (List BranchEvent) :=
  (runSchedule (List.replicate n (stepOnce E H nested track)) w).state?.map
    fun v => branchEvents v.events

theorem hookCalls_eq (hH : H.NoExec) (n : Nat) {w : World τ}
    (hready : ∀ m u, Reaches (List.replicate m (stepOnce E H nested .cache)) w u →
      Ready E H nested u) :
    hookCalls E H nested .cache n w = hookCalls E H nested .debug n w := by
  have hagree : Agree
      (runSchedule ((List.replicate n Track.cache).map (stepOnce E H nested)) w)
      (runSchedule ((List.replicate n Track.debug).map (stepOnce E H nested)) w) := by
    refine runSchedule_agree hH (by simp) ?_
    intro pre hpre u hu
    rw [(List.prefix_replicate_iff.mp hpre).2, List.map_replicate] at hu
    exact hready _ u hu
  have hevents := congrArg (Option.map branchEvents) hagree.events
  simp only [Option.map_map, List.map_replicate] at hevents
  exact hevents

/--
The firing discipline of the hook, on both tracks for every step that ends
normally, and the same calls on both tracks along registered code.
-/
theorem branchHook_discipline (hH : H.NoExec) {hook : Addr → HostProg τ Addr}
    (hhook : H.branchHook = some hook) (hnames : E.NamesBranches) :
    (∀ nested track w v, (track = .cache → OnRegisteredCode E w) →
      stepOnce E H nested track w = .ok true v →
      (∀ row ∈ branchForms, (E.decode w.core.instr).form = row.form →
        if branchTaken row.visitor w.core.instr w.core then FiresOnce row.visitor w v
        else branchEvents v.events = branchEvents w.events) ∧
      ((∀ row ∈ branchForms, decodedHash E w.core.instr ≠ formHash row.form) →
        (∀ form ∈ exceptionReturnForms, decodedHash E w.core.instr ≠ formHash form) →
        branchEvents v.events = branchEvents w.events)) ∧
    (∀ nested n w,
      (∀ m u, Reaches (List.replicate m (stepOnce E H nested .cache)) w u →
        Ready E H nested u) →
      hookCalls E H nested .cache n w = hookCalls E H nested .debug n w) := by
  refine ⟨?_, ?_⟩
  · intro nested track w v hcode hstep
    obtain ⟨u, hcore, hevents, -, hform⟩ := stepOnce_ran hcode hstep
    refine ⟨?_, ?_⟩
    · intro row hrow hname
      have hhash : decodedHash E w.core.instr = formHash row.form := by
        rw [decodedHash, hname]
      have hvisitor : visitorOf E (formHash row.form) = row.visitor := by
        rw [visitorOf, resolveLeaf_branch hrow]
        rfl
      rw [hhash, hvisitor] at hform
      exact branch_step hrow hH hhook (hnames row hrow _ hname) hcore hevents hform
    · intro hbranch hreturn
      rw [other_step hH hbranch hreturn hform, hevents]
  · intro nested n w hready
    exact hookCalls_eq hH n hready

/-! ## A call and the hook -/

theorem Host.passThrough_letsGo (observer : Option (MemoryWriteEvent → HostProg τ Unit)) :
    (Host.passThrough observer).LetsGo := by
  intro hook h target
  cases h
  rfl

/-- A step of the program with a call, whose hook lets every branch go. -/
def hookedStep (track : Track) : Act Unit Bool :=
  stepOnce (smallEnv true) (Host.passThrough none) (fun _ => Action.timeout) track

theorem hooked_ready (n : Nat) (u : World Unit)
    (hu : Reaches (List.replicate n (hookedStep .cache)) (callLoaded.seated .cache 0x1000) u) :
    Ready (smallEnv true) (Host.passThrough none) (fun _ => Action.timeout) u := by
  have hstays : staysIn (hookedStep .cache) callingWords 8 (callLoaded.seated .cache 0x1000) =
      true := by decide +kernel
  exact (callLoaded_inProgram 0x1000).run (Host.passThrough_letsGo none) (by decide) hstays n u hu

theorem branchHook_discipline_call :
    (∃ v, hookedStep .cache (callLoaded.seated .cache 0x1004) = .ok true v ∧
      FiresOnce .unconditionalBranch (callLoaded.seated .cache 0x1004) v) ∧
    hookCalls (smallEnv true) (Host.passThrough none) (fun _ => Action.timeout) .cache 6
        (callLoaded.seated .cache 0x1000) =
      hookCalls (smallEnv true) (Host.passThrough none) (fun _ => Action.timeout) .debug 6
        (callLoaded.seated .cache 0x1000) := by
  obtain ⟨hfires, hcalls⟩ := branchHook_discipline (E := smallEnv true)
    (Host.passThrough_noExec Unit) rfl (smallEnv_namesBranches true)
  refine ⟨?_, hcalls _ 6 _ hooked_ready⟩
  have hends : (hookedStep .cache (callLoaded.seated .cache 0x1004)).result?.map (·.1) =
      some true := by decide +kernel
  obtain ⟨more, v, hstep⟩ := Outcome.eq_ok_of_result? (by rw [← Option.isSome_map, hends]; rfl)
  rw [hstep] at hends
  obtain rfl : more = true := Option.some.inj hends
  have hform : (decodeSmall (callLoaded.seated .cache 0x1004).core.instr).form =
      "bl_only_branch_imm" := by decide +kernel
  have hready : Ready (smallEnv true) (Host.passThrough none) (fun _ => Action.timeout)
      (callLoaded.seated .cache 0x1004) :=
    (callLoaded_inProgram 0x1004).ready (Host.passThrough_letsGo none) (by decide)
      (by decide +kernel)
  exact ⟨v, hstep, (hfires _ .cache _ v (fun _ => (hready.inCode (by decide)).1.toOnRegisteredCode)
    hstep).1 ⟨"bl_only_branch_imm", .unconditionalBranch, unconditionalBranchMask, BL⟩
      (by simp [branchForms]) hform⟩

/-- One return instruction, in memory that was not registered. -/
def unregisteredReturn : World Unit :=
  { (World.load (smallEnv true) 0x1000 [0xd65f03c0] ()).seated .cache 0x1000 with
    cache := some .empty }

/-- The debug track calls the hook where the cache track aborts. -/
theorem unregisteredReturn_calls :
    (hookCalls (smallEnv true) (Host.passThrough none) (fun _ => Action.timeout) .cache 1
        unregisteredReturn).map List.length = some 0 ∧
      (hookCalls (smallEnv true) (Host.passThrough none) (fun _ => Action.timeout) .debug 1
        unregisteredReturn).map List.length = some 1 := by
  constructor <;> decide +kernel

theorem unregisteredReturn_differs :
    ¬∀ (E : Env) (H : Host Unit) (hook : Addr → HostProg Unit Addr)
      (nested : ExecCall → Act Unit Bool) (n : Nat) (w : World Unit),
      H.NoExec → H.branchHook = some hook → E.NamesBranches → w.cache.isSome = true →
        hookCalls E H nested .cache n w = hookCalls E H nested .debug n w := by
  intro h
  have hsame := h (smallEnv true) (Host.passThrough none) _ (fun _ => Action.timeout) 1
    unregisteredReturn (Host.passThrough_noExec Unit) rfl (smallEnv_namesBranches true) rfl
  obtain ⟨hcache, hdebug⟩ := unregisteredReturn_calls
  rw [hsame, hdebug] at hcache
  cases hcache

end GabyVm.Engine
