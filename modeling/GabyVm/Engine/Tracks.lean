import GabyVm.Cache.Predecoded
import GabyVm.Engine.HostRules

/-!
# The two tracks side by side

Normal forms of one step on each track.  Both tracks come down to running the
visitor of a form and then the tail of the step; they differ in how they find
the form, in when the guarded-page check is made, and in the feature check at
the end of the debug track.
-/

namespace GabyVm.Engine

open GabyVm.Aarch64
open GabyVm.Cache
open GabyVm.Foundation

variable {τ : Type} (E : Env) (H : Host τ) (nested : ExecCall → Act τ Bool)

/-- The part of a step that the tracks share. -/
def runForm (wasMovprfx : Bool) (hash : FormHash) (v : Visitor) (word : Word) :
    Act τ Unit := do
  modifyCore (·.writeFormHash hash)
  runVisitor E H nested v word
  stepTail E wasMovprfx

def decodedHash (word : Word) : FormHash := formHash (E.decode word).form

theorem runForm_unallocated (wasMovprfx : Bool) (hash : FormHash) (word : Word)
    (w : World τ) :
    runForm E H nested wasMovprfx hash .unallocated word w =
      .abort .unallocated (w.setCore (w.core.writeFormHash hash)) := rfl

/-- The world in which a cache-track step calls its leaf. -/
def World.beginCached (w : World τ) (cache : PredecodeCache) : World τ :=
  { w with sim := { w.sim with
      core := beginStep w.core
      curRange := cache.refreshRange w.sim.curRange w.core.pc } }

/-- The world in which a debug-track step runs its visitor. -/
def World.audited (w : World τ) : World τ :=
  { w with sim := { w.sim with lastInstruction := E.instructionFeatures w.core.instr } }

@[simp] theorem World.core_beginCached (w : World τ) (cache : PredecodeCache) :
    (w.beginCached cache).core = beginStep w.core := rfl

@[simp] theorem World.core_audited (w : World τ) : (w.audited E).core = w.core := rfl

@[simp] theorem instr_beginStep (c : Core) : (beginStep c).instr = c.instr := rfl

@[simp] theorem wrongBType_beginStep (c : Core) : wrongBType (beginStep c) = wrongBType c := rfl

@[simp] theorem lastInstrWasMovprfx_beginStep (c : Core) :
    lastInstrWasMovprfx (beginStep c) = lastInstrWasMovprfx c := rfl

theorem stepOnce_eq {w : World τ} (hpc : w.core.pc ≠ 0) (track : Track) :
    stepOnce E H nested track w =
      (execute E H nested track w).bind fun _ w => .ok true w := by
  have hrunning : w.core.isSimulationFinished = false := by
    rw [Core.isSimulationFinished, beq_eq_false_iff_ne]
    exact hpc
  simp [stepOnce, hrunning]

theorem assertAligned_ok {w : World τ} (halign : isWordAligned w.core.pc = true) :
    assertAligned E w = .ok () w := by
  simp [assertAligned, vixlAssert, halign]

/-! ## The cache track -/

theorem lookupEntry_eq {w : World τ} {cache : PredecodeCache} {entry : PredecodedEntry}
    (hcache : w.cache = some cache)
    (hentry : cache.selectEntry w.sim.curRange w.core.pc = some entry) :
    lookupEntry w = .ok entry { w with sim := { w.sim with
      curRange := cache.refreshRange w.sim.curRange w.core.pc } } := by
  obtain ⟨sim, cache', host, events⟩ := w
  obtain rfl : cache' = some cache := hcache
  simp only [lookupEntry, hentry]

theorem lookupEntry_eq_abort {w : World τ} {cache : PredecodeCache}
    (hcache : w.cache = some cache)
    (hentry : cache.selectEntry w.sim.curRange w.core.pc = none) :
    lookupEntry w = .abort (.notInRegisteredRange w.core.pc) w := by
  obtain ⟨sim, cache', host, events⟩ := w
  obtain rfl : cache' = some cache := hcache
  simp only [lookupEntry, hentry]

theorem executeInstructionCached_eq {w : World τ} {cache : PredecodeCache}
    {entry : PredecodedEntry} (hassert : assertAligned E w = .ok () w)
    (hcache : w.cache = some cache)
    (hentry : cache.selectEntry w.sim.curRange w.core.pc = some entry) :
    executeInstructionCached E H nested w =
      executeEntry E H nested entry (w.beginCached cache) := by
  simp only [executeInstructionCached, Action.bind_apply, hassert, Outcome.bind_ok,
    modifyCore_apply, lookupEntry_eq (w := w.setCore (beginStep w.core))
      hcache hentry]
  rfl

/-- An entry without the flag skips the guarded-page check. -/
theorem executeEntry_eq {w : World τ} {entry : PredecodedEntry} :
    executeEntry E H nested entry w =
      if entry.checksBType && wrongBType w.core then .abort .wrongBType w
      else runForm E H nested (lastInstrWasMovprfx w.core) entry.formHash entry.leaf
        w.core.instr w := by
  cases hflag : entry.checksBType with
  | false => simp [executeEntry, runForm, hflag]
  | true =>
      cases hbtype : wrongBType w.core <;>
        simp [executeEntry, runForm, requireBType, hflag, hbtype]

/-- The program counter lies in code that was registered with the bytes of `mem`. -/
def RegisteredFrom (mem : Memory) (w : World τ) : Prop :=
  ∃ cache, w.cache = some cache ∧ CacheOf E mem cache ∧
    (cache.findRange w.core.pc).isSome = true

variable {E} in
theorem RegisteredFrom.executeInstructionCached_eq {mem : Memory} {w : World τ}
    (h : RegisteredFrom E mem w) (hassert : assertAligned E w = .ok () w) :
    ∃ cache, executeInstructionCached E H nested w =
      let entry := PredecodeCache.predecodeWord E (readWord mem (wordStart w.core.pc))
      if entry.checksBType && wrongBType w.core then .abort .wrongBType (w.beginCached cache)
      else runForm E H nested (lastInstrWasMovprfx w.core) entry.formHash entry.leaf
        w.core.instr (w.beginCached cache) := by
  obtain ⟨cache, hcache, hcode, hfound⟩ := h
  refine ⟨cache, ?_⟩
  rw [Engine.executeInstructionCached_eq E H nested hassert hcache
    (hcode.selectEntry hfound w.sim.curRange), executeEntry_eq]
  rfl

/-- The program counter is aligned and in code that has not changed since its registration. -/
structure OnRegisteredCode (w : World τ) : Prop where
  aligned : isWordAligned w.core.pc = true
  registered : RegisteredFrom E w.core.memory w

variable {E} in
theorem OnRegisteredCode.executeInstructionCached_eq {w : World τ}
    (h : OnRegisteredCode E w) :
    ∃ cache, executeInstructionCached E H nested w =
      let entry := PredecodeCache.predecodeWord E w.core.instr
      if entry.checksBType && wrongBType w.core then .abort .wrongBType (w.beginCached cache)
      else runForm E H nested (lastInstrWasMovprfx w.core) entry.formHash entry.leaf
        w.core.instr (w.beginCached cache) := by
  have hcached := h.registered.executeInstructionCached_eq H nested
    (assertAligned_ok E h.aligned)
  rw [wordStart_of_aligned h.aligned] at hcached
  exact hcached

variable {E} in
theorem predecodeWord_of_unallocated {word : Word} (h : (E.decode word).unallocated = true) :
    PredecodeCache.predecodeWord E word = PredecodeCache.dataInStreamEntry := by
  simp [PredecodeCache.predecodeWord, h]

variable {E} in
/-- The cache audits against all features, so only unallocated words are data. -/
theorem predecodeWord_of_allocated {word : Word} (h : (E.decode word).unallocated = false) :
    PredecodeCache.predecodeWord E word =
      { formHash := decodedHash E word
        flags := if PredecodeCache.isBtiRelevant word then 1 else 0
        leaf := visitorOf E (decodedHash E word) } := by
  simp [PredecodeCache.predecodeWord, PredecodeCache.auditorFeatures, h, decodedHash, visitorOf]

theorem predecodeWord_checksBType (word : Word) :
    (PredecodeCache.predecodeWord E word).checksBType =
      (!(E.decode word).unallocated && PredecodeCache.isBtiRelevant word) := by
  cases hdecode : (E.decode word).unallocated with
  | true => rw [predecodeWord_of_unallocated hdecode]; rfl
  | false =>
      rw [predecodeWord_of_allocated hdecode, PredecodedEntry.checksBType]
      cases PredecodeCache.isBtiRelevant word <;> simp

/-! ## The debug track -/

/-- Every visitor list amounts to the auditor and then the simulator. -/
theorem decodeInstruction_eq (w : World τ) :
    decodeInstruction E H nested w = visit E H nested w.core.instr (w.audited E) := by
  rw [decodeInstruction, w.sim.trace.visitors_eq, visitorsFor]
  cases logDisasm w.sim.trace.parameters <;>
    exact Outcome.bind_ok_self _

theorem visit_eq (word : Word) (w : World τ) :
    visit E H nested word w =
      if (E.decode word).unallocated then .abort .unallocated w
      else runVisitor E H nested (visitorOf E (decodedHash E word)) word
        (w.setCore (w.core.writeFormHash (decodedHash E word))) := by
  cases hdecode : (E.decode word).unallocated <;>
    simp [visit, decodedHash, hdecode]

theorem executeInstruction_eq {w : World τ} (hassert : assertAligned E w = .ok () w) :
    executeInstruction E H nested w =
      let begun := w.setCore (beginStep w.core)
      if wrongBType w.core then .abort .wrongBType begun
      else if (E.decode w.core.instr).unallocated then .abort .unallocated (begun.audited E)
      else (runForm E H nested (lastInstrWasMovprfx w.core)
          (decodedHash E w.core.instr) (visitorOf E (decodedHash E w.core.instr))
          w.core.instr (begun.audited E)).bind fun _ w => checkAvailable w := by
  cases hbtype : wrongBType w.core with
  | true =>
      simp [executeInstruction, hassert, requireBType, hbtype]
  | false =>
      cases hdecode : (E.decode w.core.instr).unallocated <;>
        simp [executeInstruction, hassert, requireBType, hbtype,
          decodeInstruction_eq, visit_eq, runForm, hdecode, Outcome.bind_assoc]

/-! ## Aborts of the shared part -/

variable {E H nested}

/-- Only the check before the dispatch raises the wrong-BType abort. -/
theorem runForm_aborts (hH : H.NoExec) (wasMovprfx : Bool) (hash : FormHash) (v : Visitor)
    (word : Word) (w : World τ) :
    (runForm E H nested wasMovprfx hash v word w).Ensures (fun _ _ => True)
      (fun reason _ => reason ≠ .wrongBType) := by
  have hinv : StepInvariant E (fun _ => True) (fun _ : World τ => True)
      (fun reason _ => reason ≠ .wrongBType) :=
    { setHost := fun _ _ h => h
      write := fun r w _ _ =>
        writeRegister_ensures r (fun _ => trivial) (fun _ => trivial)
          (by rintro _ h rfl; cases h)
      writeByte := fun _ _ _ h => h
      register := fun _ _ _ _ h => h
      setTraceParameters := fun _ _ h => h
      setCore := fun _ _ h => h
      logStore := fun _ _ h => h
      aborted := fun _ _ h _ => h }
  have hcalls : ∀ call, False → ∀ w, True →
      (nested call w).Ensures (fun _ _ => True) (fun reason _ => reason ≠ .wrongBType) := by
    intro _ hfalse
    exact hfalse.elim
  simp only [runForm, Action.bind_apply, modifyCore_apply, Outcome.bind_ok]
  apply (hinv.runVisitor hH hcalls v word trivial fun _ _ _ h => h).bind
  intro _ w' hw'
  exact hinv.stepTail wasMovprfx hw'

end GabyVm.Engine
