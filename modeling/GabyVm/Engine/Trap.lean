import GabyVm.Engine.Initial

/-!
# Words that are no instructions

Registration gives an entry to every word of a range.  A word that is
unallocated, or that the cache's auditor rejects, gets the data sentinel; a
form that is named but has no implementation gets the unimplemented sentinel.
The first always aborts.  The second aborts only in a build with assertions:
without them the step goes on, and ends like any other.
-/

namespace GabyVm.Engine

open GabyVm.Aarch64
open GabyVm.Cache
open GabyVm.Foundation

variable {τ : Type} {E : Env} {H : Host τ} {nested : ExecCall → Act τ Bool}

/-- Unallocated, rejected by the cache's auditor, or without an implementation. -/
def NotDispatchable (E : Env) (word : Word) : Prop :=
  (E.decode word).unallocated = true ∨
    PredecodeCache.auditorFeatures.has (E.instructionFeatures word) = false ∨
    resolveLeaf E (decodedHash E word) = none ∨
    resolveLeaf E (decodedHash E word) = some .unimplemented ∨
    resolveLeaf E (decodedHash E word) = some .unallocated

/-- The guest sees no difference, nor has the program counter moved. -/
structure GuestKept (c c' : Core) : Prop extends c.SameData c' where
  pc : c'.pc = c.pc

variable (E H nested) in
/-- The step aborts and has changed nothing that the guest can see. -/
def Traps (w : World τ) : Prop :=
  ∃ reason v, stepOnce E H nested .cache w = .abort reason v ∧ GuestKept w.core v.core

/--
What makes the step abort: assertions, the data sentinel, the guarded-page
check, or a MOVPRFX before the word that does not pair with it.
-/
def MustTrap (E : Env) (word : Word) (c : Core) : Prop :=
  let entry := PredecodeCache.predecodeWord E word
  E.vixlDebug = true ∨ entry.leaf = .unallocated ∨
    (entry.checksBType = true ∧ wrongBType c = true) ∨
    (lastInstrWasMovprfx c = true ∧
      E.canTakeSVEMovprfx c.instr entry.formHash (readWord c.memory c.lastInstr) = false)

theorem NotDispatchable.leaf {word : Word} (h : NotDispatchable E word) :
    (PredecodeCache.predecodeWord E word).leaf = .unallocated ∨
      (PredecodeCache.predecodeWord E word).leaf = .unimplemented := by
  cases hdecode : (E.decode word).unallocated with
  | true =>
      left
      rw [predecodeWord_of_unallocated hdecode]
      rfl
  | false =>
      rw [predecodeWord_of_allocated hdecode]
      simp only [visitorOf]
      rcases h with h | h | h | h | h
      · simp [hdecode] at h
      · simp [PredecodeCache.auditorFeatures] at h
      · simp [h]
      · simp [h]
      · simp [h]

/-! ## The unimplemented sentinel -/

theorem runForm_unimplemented (wasMovprfx : Bool) (hash : FormHash) (word : Word)
    (w : World τ) :
    runForm E H nested wasMovprfx hash .unimplemented word w =
      let begun := w.setCore (w.core.writeFormHash hash)
      if E.vixlDebug then .abort .unimplemented begun else stepTail E wasMovprfx begun := by
  cases hdebug : E.vixlDebug <;>
    simp [runForm, runVisitor, vixlUnimplemented, hdebug]

/-- Without assertions the tail aborts only over a MOVPRFX that does not pair. -/
theorem stepTail_release (hdebug : E.vixlDebug = false) (wasMovprfx : Bool) (w : World τ) :
    stepTail E wasMovprfx w =
      if wasMovprfx && !E.canTakeSVEMovprfx w.core.instr w.core.formHash
          (readWord w.core.memory w.core.lastInstr) then
        .abort (.check "pc_->CanTakeSVEMovprfx(form_hash_, last_instr_)") w
      else .ok () (w.setCore (finishStep w.core)) := by
  cases wasMovprfx with
  | false => simp [stepTail, checkMovprfx]
  | true =>
      cases hpair : E.canTakeSVEMovprfx w.core.instr w.core.formHash
          (readWord w.core.memory w.core.lastInstr) <;>
        simp [stepTail, checkMovprfx, vixlAssert, hdebug, hpair]

/-! ## The step -/

theorem traps_of_abort {w v : World τ} {reason : Abort} (hpc : w.core.pc ≠ 0)
    (h : executeInstructionCached E H nested w = .abort reason v)
    (hkept : GuestKept w.core v.core) :
    Traps E H nested w :=
  ⟨reason, v, by rw [stepOnce_eq E H nested hpc, execute, h]; rfl, hkept⟩

theorem not_traps_of_ok {w v : World τ} (hpc : w.core.pc ≠ 0)
    (h : executeInstructionCached E H nested w = .ok () v) :
    ¬Traps E H nested w := by
  rintro ⟨reason, v', hstep, -⟩
  rw [stepOnce_eq E H nested hpc, execute, h] at hstep
  cases hstep

theorem unimplemented_traps_iff {word : Word} {w : World τ} {cache : PredecodeCache}
    (hpc : w.core.pc ≠ 0)
    (hcached : executeInstructionCached E H nested w =
      runForm E H nested (lastInstrWasMovprfx w.core)
        (PredecodeCache.predecodeWord E word).formHash .unimplemented w.core.instr
        (w.beginCached cache))
    (hcheck : ((PredecodeCache.predecodeWord E word).checksBType && wrongBType w.core) = false)
    (hleaf : (PredecodeCache.predecodeWord E word).leaf = .unimplemented) :
    Traps E H nested w ↔ MustTrap E word w.core := by
  rw [runForm_unimplemented] at hcached
  simp only at hcached
  cases hdebug : E.vixlDebug with
  | true =>
      rw [hdebug, if_pos rfl] at hcached
      exact iff_of_true
        (traps_of_abort hpc hcached ⟨⟨rfl, rfl, rfl, rfl, rfl, rfl, rfl⟩, rfl⟩) (.inl hdebug)
  | false =>
      rw [hdebug, if_neg Bool.false_ne_true, stepTail_release hdebug] at hcached
      change _ = if lastInstrWasMovprfx w.core && !E.canTakeSVEMovprfx w.core.instr
        (PredecodeCache.predecodeWord E word).formHash
        (readWord w.core.memory w.core.lastInstr) then _ else _ at hcached
      cases hpair : lastInstrWasMovprfx w.core && !E.canTakeSVEMovprfx w.core.instr
          (PredecodeCache.predecodeWord E word).formHash
          (readWord w.core.memory w.core.lastInstr) with
      | true =>
          rw [hpair, if_pos rfl] at hcached
          rw [Bool.and_eq_true, Bool.not_eq_true'] at hpair
          exact iff_of_true
            (traps_of_abort hpc hcached ⟨⟨rfl, rfl, rfl, rfl, rfl, rfl, rfl⟩, rfl⟩)
            (.inr (.inr (.inr hpair)))
      | false =>
          rw [hpair, if_neg Bool.false_ne_true] at hcached
          refine iff_of_false (not_traps_of_ok hpc hcached) ?_
          rintro (h | h | ⟨hchecks, hbtype⟩ | ⟨hwas, htake⟩)
          · simp [hdebug] at h
          · simp [hleaf] at h
          · simp [hchecks, hbtype] at hcheck
          · simp [hwas, htake] at hpair

/--
A cache-track step that reaches a word that is no instruction aborts, with the
guest as it was, exactly when one of the four conditions makes it.
-/
theorem traps_iff {mem : Memory} {w : World τ} (h : RegisteredFrom E mem w)
    (hpc : w.core.pc ≠ 0)
    (hword : NotDispatchable E (readWord mem (wordStart w.core.pc))) :
    Traps E H nested w ↔ MustTrap E (readWord mem (wordStart w.core.pc)) w.core := by
  cases halign : !E.vixlDebug || isWordAligned w.core.pc with
  | false =>
      -- The assertion on the program counter fails before anything is changed.
      have hdebug : E.vixlDebug = true := by
        cases hdebug : E.vixlDebug with
        | false => simp [hdebug] at halign
        | true => rfl
      have habort : executeInstructionCached E H nested w =
          .abort (.check "IsWordAligned(pc_)") w := by
        simp [executeInstructionCached, assertAligned, vixlAssert, halign]
      exact iff_of_true (traps_of_abort hpc habort ⟨⟨rfl, rfl, rfl, rfl, rfl, rfl, rfl⟩, rfl⟩)
        (.inl hdebug)
  | true =>
      have hassert : assertAligned E w = .ok () w := by
        simp [assertAligned, vixlAssert, halign]
      obtain ⟨cache, hcached⟩ := h.executeInstructionCached_eq H nested hassert
      simp only at hcached
      cases hcheck : (PredecodeCache.predecodeWord E
          (readWord mem (wordStart w.core.pc))).checksBType && wrongBType w.core with
      | true =>
          rw [hcheck, if_pos rfl] at hcached
          rw [Bool.and_eq_true] at hcheck
          exact iff_of_true
            (traps_of_abort hpc hcached ⟨⟨rfl, rfl, rfl, rfl, rfl, rfl, rfl⟩, rfl⟩)
            (.inr (.inr (.inl hcheck)))
      | false =>
          rw [hcheck, if_neg Bool.false_ne_true] at hcached
          rcases hword.leaf with hleaf | hleaf
          · rw [hleaf, runForm_unallocated] at hcached
            exact iff_of_true
              (traps_of_abort hpc hcached ⟨⟨rfl, rfl, rfl, rfl, rfl, rfl, rfl⟩, rfl⟩)
              (.inr (.inl hleaf))
          · rw [hleaf] at hcached
            exact unimplemented_traps_iff hpc hcached hcheck hleaf

/-! ## An unprivileged load -/

/-- One word, seated, in a build with or without assertions. -/
def reached (vixlDebug : Bool) (word : Word) : World Unit :=
  (World.load (smallEnv vixlDebug) 0x1000 [word] ()).seated .cache 0x1000

theorem reached_registered (vixlDebug : Bool) (word : Word) :
    RegisteredFrom (smallEnv vixlDebug) (memoryOfWords 0x1000 [word])
      (reached vixlDebug word) := by
  have hpc : (reached vixlDebug word).core.pc = 0x1000 := by
    simp only [reached, World.seated, World.core_setCore, Core.writePc]
    decide
  refine (World.load_registered (by decide) (by simp) rfl rfl ?_ ?_).registered
  · rw [hpc]
    decide
  · rw [hpc]
    simp

theorem ldtr_notDispatchable (vixlDebug : Bool) :
    NotDispatchable (smallEnv vixlDebug) 0xb8400800 := by
  have hdecode : decodeSmall 0xb8400800 = ⟨"ldtr_32_ldst_unpriv", false⟩ := by
    decide +kernel
  refine .inr (.inr (.inr (.inl ?_)))
  have hhash : decodedHash (smallEnv vixlDebug) 0xb8400800 =
      formHash "ldtr_32_ldst_unpriv" := by
    rw [decodedHash, smallEnv_decode, hdecode]
  rw [hhash]
  exact resolveLeaf_unimplemented (by simp [unimplementedForms])

theorem traps_iff_ldtr :
    Traps (smallEnv true) (Host.none Unit) (fun _ => Action.timeout)
        (reached true 0xb8400800) ↔
      MustTrap (smallEnv true)
        (readWord (memoryOfWords 0x1000 [0xb8400800])
          (wordStart (reached true 0xb8400800).core.pc))
        (reached true 0xb8400800).core :=
  traps_iff (reached_registered true 0xb8400800) (by decide)
    (ldtr_notDispatchable true)

/-- Without assertions the step over the load returns true, with the next program counter. -/
theorem ldtr_does_not_trap :
    RegisteredFrom (smallEnv false) (memoryOfWords 0x1000 [0xb8400800])
        (reached false 0xb8400800) ∧
      NotDispatchable (smallEnv false) 0xb8400800 ∧
      (stepOnce (smallEnv false) (Host.none Unit) (fun _ => Action.timeout) .cache
        (reached false 0xb8400800)).result?.map (fun r => (r.1, r.2.core.pc)) =
          some (true, 0x1004) ∧
      ¬Traps (smallEnv false) (Host.none Unit) (fun _ => Action.timeout)
        (reached false 0xb8400800) := by
  have hresult : (stepOnce (smallEnv false) (Host.none Unit) (fun _ => Action.timeout) .cache
      (reached false 0xb8400800)).result?.map (fun r => (r.1, r.2.core.pc)) =
        some (true, 0x1004) := by decide +kernel
  refine ⟨reached_registered false _, ldtr_notDispatchable false, hresult, ?_⟩
  rintro ⟨reason, v, hstep, -⟩
  rw [hstep] at hresult
  cases hresult

end GabyVm.Engine
