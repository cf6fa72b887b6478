import GabyVm.Engine.Initial

/-!
# The guarded-page check on the two tracks

The debug track makes the check before every instruction.  The cache track
makes it only for entries whose word was classified as relevant when it was
registered: BTI, pointer authentication and exception words.  These are the
words that may stand at a landing site, so the check that is left out is the
one that would reject the others.
-/

namespace GabyVm.Engine

open GabyVm.Aarch64
open GabyVm.Cache
open GabyVm.Foundation

variable {τ : Type} {E : Env} {H : Host τ} {nested : ExecCall → Act τ Bool}

variable (E H nested) in
/-- Both tracks raise the wrong-BType abort in this world, or neither does. -/
def EnforcementAgrees (w : World τ) : Prop :=
  (∃ v, executeInstructionCached E H nested w = .abort .wrongBType v) ↔
    ∃ v, executeInstruction E H nested w = .abort .wrongBType v

/-- A default branch type, a landing site, or an allocated pointer-authentication word. -/
def MayLand (E : Env) (c : Core) : Prop :=
  c.btype = .default ∨
    if isPAuth c.instr then
      c.instr = PACIASP ∨ c.instr = PACIBSP ∨ (E.decode c.instr).unallocated = false
    else isBti c.instr = true ∨ isException c.instr = true

theorem cached_wrongBType_iff (hH : H.NoExec) {w : World τ} (h : OnRegisteredCode E w) :
    (∃ v, executeInstructionCached E H nested w = .abort .wrongBType v) ↔
      ((PredecodeCache.predecodeWord E w.core.instr).checksBType && wrongBType w.core) =
        true := by
  obtain ⟨cache, hcached⟩ := h.executeInstructionCached_eq H nested
  rw [hcached]
  cases hcheck : (PredecodeCache.predecodeWord E w.core.instr).checksBType &&
      wrongBType w.core with
  | true => simp [hcheck]
  | false =>
      simp only [hcheck, Bool.false_eq_true, if_false, iff_false]
      rintro ⟨v, hv⟩
      exact (runForm_aborts hH _ _ _ _ _).of_eq_abort hv rfl

/-- Nor does the feature check that ends a debug-track step. -/
theorem checkedForm_aborts (hH : H.NoExec) (wasMovprfx : Bool) (hash : FormHash)
    (v : Visitor) (word : Word) (w : World τ) :
    ((runForm E H nested wasMovprfx hash v word w).bind fun _ w => checkAvailable w).Ensures
      (fun _ _ => True) (fun reason _ => reason ≠ .wrongBType) := by
  apply (runForm_aborts hH wasMovprfx hash v word w).bind
  intro _ w' _
  exact Action.require_ensures _ _ (fun _ => trivial) (fun _ => by simp)

theorem debug_wrongBType_iff (hH : H.NoExec) {w : World τ}
    (halign : isWordAligned w.core.pc = true) :
    (∃ v, executeInstruction E H nested w = .abort .wrongBType v) ↔
      wrongBType w.core = true := by
  rw [executeInstruction_eq E H nested (assertAligned_ok E halign)]
  cases hbtype : wrongBType w.core with
  | true => simp
  | false =>
      simp only [Bool.false_eq_true, if_false, iff_false]
      rintro ⟨v, hv⟩
      cases hdecode : (E.decode w.core.instr).unallocated with
      | true => simp [hdecode] at hv
      | false =>
          simp only [hdecode, Bool.false_eq_true, if_false] at hv
          exact (checkedForm_aborts hH _ _ _ _ _).of_eq_abort hv rfl

theorem wrongBType_guarded {c : Core} (hguard : c.guardPages = true) :
    wrongBType c = true ↔ c.btype ≠ .default ∧
      if isPAuth c.instr then c.instr ≠ PACIASP ∧ c.instr ≠ PACIBSP
      else isBti c.instr = false ∧ isException c.instr = false := by
  unfold wrongBType
  cases isPAuth c.instr <;> simp [hguard]

/--
On registered code with guarded pages on, the tracks agree about the
wrong-BType abort exactly when the word may be landed on with this branch type.
-/
theorem enforcementAgrees_iff (hH : H.NoExec) {w : World τ} (h : OnRegisteredCode E w)
    (hguard : w.core.guardPages = true) :
    EnforcementAgrees E H nested w ↔ MayLand E w.core := by
  have hagree : EnforcementAgrees E H nested w ↔ (wrongBType w.core = true →
      (PredecodeCache.predecodeWord E w.core.instr).checksBType = true) := by
    rw [EnforcementAgrees, cached_wrongBType_iff hH h, debug_wrongBType_iff hH h.aligned,
      Bool.and_eq_true]
    tauto
  rw [hagree, wrongBType_guarded hguard, predecodeWord_checksBType, MayLand,
    PredecodeCache.isBtiRelevant]
  by_cases hbtype : w.core.btype = .default
  · simp [hbtype]
  · cases isPAuth w.core.instr <;> cases isBti w.core.instr <;>
      cases isException w.core.instr <;> simp [hbtype] <;> tauto

/-! ## Landing on a move -/

/-- One word, seated on a guarded page with the branch type of a call. -/
def landedOn (word : Word) : World Unit :=
  let loaded := World.load (smallEnv true) 0x1000 [word] ()
  loaded.setCore { loaded.core with
    pc := 0x1000, guardPages := true, btype := .branchAndLink }

theorem landedOn_registered (word : Word) :
    OnRegisteredCode (smallEnv true) (landedOn word) := by
  have hpc : (landedOn word).core.pc = 0x1000 := rfl
  refine World.load_registered (by decide) (by simp) rfl rfl ?_ ?_
  · rw [hpc]
    decide
  · rw [hpc]
    simp

theorem enforcementAgrees_iff_landed :
    EnforcementAgrees (smallEnv true) (Host.none Unit) (fun _ => Action.timeout)
        (landedOn PACIASP) ↔
      MayLand (smallEnv true) (landedOn PACIASP).core :=
  enforcementAgrees_iff (Host.none_noExec Unit) (landedOn_registered PACIASP) rfl

/-- A move between registers: the debug track aborts, the cache track does not. -/
theorem landedOn_move_disagrees :
    OnRegisteredCode (smallEnv true) (landedOn 0xaa0103e0) ∧
      (landedOn 0xaa0103e0).core.guardPages = true ∧
      ¬EnforcementAgrees (smallEnv true) (Host.none Unit) (fun _ => Action.timeout)
        (landedOn 0xaa0103e0) := by
  refine ⟨landedOn_registered _, rfl, ?_⟩
  have hchecks : ((PredecodeCache.predecodeWord (smallEnv true)
      (landedOn 0xaa0103e0).core.instr).checksBType &&
        wrongBType (landedOn 0xaa0103e0).core) = false := by decide +kernel
  have hbtype : wrongBType (landedOn 0xaa0103e0).core = true := by decide +kernel
  rw [EnforcementAgrees, cached_wrongBType_iff (Host.none_noExec Unit) (landedOn_registered _),
    debug_wrongBType_iff (Host.none_noExec Unit) (landedOn_registered _).aligned, hchecks, hbtype]
  simp

end GabyVm.Engine
