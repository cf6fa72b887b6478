import GabyVm.Engine.Execution
import GabyVm.Engine.Tracks
import Mathlib.Data.List.Nodup

/-!
# The simulator as it is constructed

The state a new simulator starts in, and a small decoder for the branch forms
and two others, with which programs of a few words can be run.
-/

namespace GabyVm.Engine

open GabyVm.Aarch64
open GabyVm.Cache
open GabyVm.Foundation

/-! ## Construction -/

/-- Vector registers start as signalling NaNs that name register and lane. -/
def resetVRegister (i : Fin 32) : SimVRegister where
  value :=
    let lane (j : Nat) : BitVec 64 :=
      0x7ff0f0007f80f000 ||| (0x100000000 * BitVec.ofNat 64 i) ||| BitVec.ofNat 64 j
    (lane 1 ++ lane 0).setWidth 2048
  sizeInBytes := 16

def exclusiveMonitorSeed : BitVec 32 := 0x87654321

/-- The interpreter state on construction; the stack pointer is the embedder's. -/
def resetState (mem : Memory) (sp : Addr) : Core where
  registers i := if i = Core.spRegCode then sp else if i = Core.linkRegCode then 0 else 0xbadbeef
  vregisters := resetVRegister
  pregisters i := BitVec.ofNat 256 i
  ffr := 1
  vectorLength := 128
  nzcv := defaultNzcv
  fpcr := defaultFpcr
  memory := mem
  mteTags _ := none
  mteActive := false
  pc := 0
  pcModified := false
  lastInstr := 0
  formHash := 0
  btype := .default
  nextBtype := .default
  guardPages := false
  gcs := []
  gcsEnabled := true
  localMonitor := ⟨0, 0, exclusiveMonitorSeed⟩
  globalMonitorSeed := exclusiveMonitorSeed
  randGen := BitVec.ofNat 64 (11 + 22 * 2 ^ 16 + 33 * 2 ^ 32)
  cpuFeatures := .all
  savedCpuFeatures := []

def Sim.construct (mem : Memory) (stackTop : Addr) : Sim where
  core := resetState mem (stackTop &&& ~~~15)
  curRange := none
  trace := .off
  lastInstruction := 0
  busy := false
  traceParameters := 0
  fpsrStorage := 0

/-! ## Small programs -/

def visitOrrShifted : Leaf := fun w c =>
  let amount := (w.extractLsb 15 10).toNat
  let rm := c.readXRegister (w.extractLsb 20 16)
  let operand := match (w.extractLsb 23 22).toNat with
    | 0 => rm <<< amount
    | 1 => rm >>> amount
    | 2 => rm.sshiftRight amount
    | _ => rm.rotateRight amount
  let result := c.readXRegister w.getRn ||| operand
  .done (if w.getRd = 31 then c else c.writeRegister w.getRd.toFin result)

/-- The branch forms, a move between registers and an unprivileged load. -/
def decodeSmall (w : Word) : Metadata :=
  match branchForms.find? fun row => w &&& row.mask == row.value with
  | some row => ⟨row.form, false⟩
  | none =>
      if w &&& 0xff200000 == 0xaa000000 then ⟨"orr_64_log_shift", false⟩
      else if w &&& 0xffe00c00 == 0xb8400800 then ⟨"ldtr_32_ldst_unpriv", false⟩
      else ⟨"unallocated", false⟩

def smallEnv (vixlDebug : Bool) : Env where
  vixlDebug := vixlDebug
  decode := decodeSmall
  instructionFeatures _ := 0
  canTakeSVEMovprfx _ _ _ := false
  leaf hash := if hash = formHash "orr_64_log_shift" then some visitOrrShifted else none

@[simp] theorem smallEnv_decode (vixlDebug : Bool) (w : Word) :
    (smallEnv vixlDebug).decode w = decodeSmall w := rfl

theorem branchForms_nodup : (branchForms.map (·.form)).Nodup := by decide +kernel

theorem branchForms_named :
    ∀ row ∈ branchForms, row.form ≠ "orr_64_log_shift" ∧
      row.form ≠ "ldtr_32_ldst_unpriv" ∧ row.form ≠ "unallocated" := by
  decide +kernel

theorem smallEnv_namesBranches (vixlDebug : Bool) : (smallEnv vixlDebug).NamesBranches := by
  intro row hrow w hform
  rw [smallEnv_decode, decodeSmall] at hform
  cases hfind : branchForms.find? fun row => w &&& row.mask == row.value with
  | some found =>
      rw [hfind] at hform
      have hfound := List.mem_of_find?_eq_some hfind
      have hsame : found = row := List.inj_on_of_nodup_map branchForms_nodup hfound hrow hform
      rw [← hsame]
      simpa using List.find?_some hfind
  | none =>
      rw [hfind] at hform
      obtain ⟨horr, hldtr, hunallocated⟩ := branchForms_named row hrow
      simp only at hform
      split_ifs at hform
      · exact absurd hform.symm horr
      · exact absurd hform.symm hldtr
      · exact absurd hform.symm hunallocated

/-- The words laid out from `base`, little endian, and zeros elsewhere. -/
def memoryOfWords (base : Addr) (words : List Word) : Memory := fun a =>
  let offset := (a - base).toNat
  (words.getD (offset / 4) 0).extractLsb' (8 * (offset % 4)) 8

def registerWords (base : Addr) (words : List Word) : RegisterCall where
  mem := memoryOfWords base words
  start := base
  sizeBytes := BitVec.ofNat 64 (4 * words.length)
  alloc := ⟨true, true⟩

/-- A new simulator with the words in memory and registered. -/
def World.load {τ : Type} (E : Env) (base : Addr) (words : List Word) (t : τ) : World τ where
  sim := Sim.construct (memoryOfWords base words) 0
  cache := some (PredecodeCache.empty.registerCall E (registerWords base words)).2
  host := t
  events := []

theorem registerWords_admissible {base : Addr} {words : List Word}
    (hstart : PredecodeCache.validStart base = true) (hwords : 0 < words.length)
    (hwrap : base.toNat + 4 * words.length < 2 ^ 64) :
    (registerWords base words).Admissible := by
  have hsize : PredecodeCache.validSize (registerWords base words).sizeBytes = true := by
    simp only [registerWords, PredecodeCache.validSize, BitVec.toNat_ofNat, Bool.and_eq_true,
      bne_iff_ne, beq_iff_eq]
    omega
  exact ⟨hsize, hstart, rfl, rfl⟩

theorem World.load_registered {τ : Type} {E : Env} {base : Addr} {words : List Word}
    (hstart : PredecodeCache.validStart base = true)
    (hwrap : base.toNat + 4 * words.length < 2 ^ 64) {w : World τ}
    (hcache : w.cache = some (PredecodeCache.empty.registerCall E (registerWords base words)).2)
    (hmem : w.core.memory = memoryOfWords base words)
    (halign : isWordAligned w.core.pc = true)
    (hpc : (w.core.pc - base).toNat < 4 * words.length) :
    OnRegisteredCode E w := by
  have hcall := registerWords_admissible hstart (by omega) hwrap
  have hsize : (registerWords base words).sizeBytes.toNat = 4 * words.length := by
    simp only [registerWords, BitVec.toNat_ofNat]
    omega
  have hnoWrap : (registerWords base words).interval.NoWrap := by
    simp only [Interval.NoWrap, RegisterCall.interval, hsize]
    exact hwrap.le
  have htable : (PredecodeCache.registerAll E [registerWords base words]).Table :=
    PredecodeCache.registerAll_table (by simpa using hnoWrap)
      (PredecodeCache.noMissedOverlap_singleton E _)
  obtain ⟨r, hr, hinterval⟩ := PredecodeCache.registered_singleton (E := E) hcall
  have hcontains : r.contains w.core.pc = true := by
    rw [RangeRecord.contains_iff, hinterval, Interval.Covers, BitVec.lt_def]
    exact hsize ▸ hpc
  refine ⟨halign, _, hcache, ?_, ?_⟩
  · rw [hmem]
    exact .register .empty _ fun _ _ => rfl
  · exact Option.isSome_iff_exists.mpr
      ⟨r, (PredecodeCache.findRange_eq_some htable).mpr ⟨hr, hcontains⟩⟩

/-- A simulator without callbacks. -/
def Host.none (τ : Type) : Host τ := ⟨Option.none, Option.none⟩

theorem Host.none_noExec (τ : Type) : (Host.none τ).NoExec where
  branchHook hook h := by cases h
  observer obs h := by cases h

/-- A hook that lets every branch go where it goes. -/
def Host.passThrough {τ : Type} (observer : Option (MemoryWriteEvent → HostProg τ Unit)) :
    Host τ :=
  ⟨some fun target => .ret target, observer⟩

theorem Host.passThrough_noExec (τ : Type) :
    (Host.passThrough (τ := τ) Option.none).NoExec where
  branchHook hook h target := by
    cases h
    exact .ret target
  observer obs h := by cases h

end GabyVm.Engine
