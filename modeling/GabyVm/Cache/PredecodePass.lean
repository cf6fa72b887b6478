import GabyVm.Cache.RangeTable

/-!
# The predecode pass and its visitors

One decoder with its auditor and its capture visitor serves every registration
of a cache.  The pass decodes the words of a range one after the other and reads
each entry off the two visitors.  Every visit sets all that an entry is read
from, so the entries are those that the words have alone, and a cache with its
visitors registers as a cache without.
-/

namespace GabyVm.Cache

open GabyVm.Aarch64
open GabyVm.Foundation

/-! ## The visitors -/

structure CPUFeaturesAuditor where
  seen : CPUFeatures
  lastInstruction : CPUFeatures
  formHash : FormHash
  deriving DecidableEq, Repr

/-- Every visit opens a scope that clears the features of the last instruction. -/
def CPUFeaturesAuditor.visit (E : Env) (a : CPUFeaturesAuditor) (metadata : Metadata)
    (w : Word) : CPUFeaturesAuditor :=
  let opened := { a with
    formHash := Aarch64.formHash metadata.form
    lastInstruction := 0 }
  let recorded := { opened with
    lastInstruction := opened.lastInstruction ||| E.instructionFeatures w }
  { recorded with seen := recorded.seen ||| recorded.lastInstruction }

def CPUFeaturesAuditor.instructionIsAvailable (a : CPUFeaturesAuditor) : Bool :=
  PredecodeCache.auditorFeatures.has a.lastInstruction

structure FormCaptureVisitor where
  unallocated : Bool
  formHash : FormHash
  deriving DecidableEq, Repr

def FormCaptureVisitor.visit (_ : FormCaptureVisitor) (metadata : Metadata) :
    FormCaptureVisitor where
  unallocated := metadata.unallocated
  formHash := Aarch64.formHash metadata.form

/-- The visitors of the decoder that a cache owns, in their order. -/
structure DecoderVisitors where
  auditor : CPUFeaturesAuditor
  captureVisitor : FormCaptureVisitor
  deriving DecidableEq, Repr

namespace DecoderVisitors

def initial : DecoderVisitors := ⟨⟨0, 0, 0⟩, ⟨false, 0⟩⟩

/-- `Decoder::Decode`: both visitors are handed the metadata of the word. -/
def decode (E : Env) (v : DecoderVisitors) (w : Word) : DecoderVisitors :=
  let metadata := E.decode w
  { auditor := v.auditor.visit E metadata w
    captureVisitor := v.captureVisitor.visit metadata }

/-- The entry that the pass reads off the visitors after a word. -/
def entry (E : Env) (v : DecoderVisitors) (w : Word) : PredecodedEntry :=
  if !v.auditor.instructionIsAvailable || v.captureVisitor.unallocated then
    PredecodeCache.dataInStreamEntry
  else
    let hash := v.captureVisitor.formHash
    { formHash := hash
      flags := if PredecodeCache.isBtiRelevant w then 1 else 0
      leaf := (resolveLeaf E hash).getD .unimplemented }

theorem entry_decode (E : Env) (v : DecoderVisitors) (w : Word) :
    (v.decode E w).entry E w = PredecodeCache.predecodeWord E w := by
  simp only [entry, decode, CPUFeaturesAuditor.instructionIsAvailable, CPUFeaturesAuditor.visit,
    FormCaptureVisitor.visit, BitVec.ofNat_eq_ofNat, BitVec.zero_or,
    PredecodeCache.predecodeWord]

end DecoderVisitors

/-! ## The pass -/

/-- The first `n` rounds of the loop over the words of a range. -/
def predecodePass (E : Env) (mem : Memory) (start : Addr) :
    Nat → DecoderVisitors → Array PredecodedEntry × DecoderVisitors
  | 0, v => (#[], v)
  | n + 1, v =>
      let (entries, v) := predecodePass E mem start n v
      let w := readWord mem (PredecodeCache.wordAddr start n)
      let v := v.decode E w
      (entries.push (v.entry E w), v)

theorem predecodePass_entries (E : Env) (mem : Memory) (start : Addr) (n : Nat)
    (v : DecoderVisitors) :
    (predecodePass E mem start n v).1 = Array.ofFn fun i : Fin n =>
      PredecodeCache.predecodeWord E (readWord mem (PredecodeCache.wordAddr start i)) := by
  induction n with
  | zero => simp [predecodePass]
  | succ n ih =>
      simp only [predecodePass, ih, DecoderVisitors.entry_decode]
      rw [Array.ofFn_succ]
      rfl

theorem predecodePass_eq (E : Env) (mem : Memory) (start sizeBytes : Addr)
    (v : DecoderVisitors) :
    (predecodePass E mem start (sizeBytes.toNat / 4) v).1 =
      PredecodeCache.predecode E mem start sizeBytes :=
  predecodePass_entries E mem start _ v

/-! ## Registration -/

/-- A cache with the visitors of its decoder. -/
structure Impl where
  cache : PredecodeCache
  visitors : DecoderVisitors

namespace Impl

open PredecodeCache

def empty : Impl := ⟨.empty, .initial⟩

def setError (impl : Impl) (status : RegistrationStatus) (pc : Addr) (reason : String) :
    RegistrationStatus × Impl :=
  let (status, cache) := impl.cache.setError status pc reason
  (status, { impl with cache := cache })

/-- The record of the range, with the entries that the pass has filled. -/
def passRecord (start sizeBytes : Addr) (storage : Nat) (entries : Array PredecodedEntry)
    (hsize : validSize sizeBytes = true) (hstart : validStart start = true)
    (hentries : entries.size = sizeBytes.toNat / 4) : RangeRecord where
  start := start
  sizeBytes := sizeBytes
  storage := storage
  entries := entries
  start_aligned := start_aligned hstart
  size_pos := sizeBytes_pos hsize
  size_aligned := sizeBytes_aligned hsize
  entries_size := hentries

theorem passEntries_size (E : Env) (mem : Memory) (start sizeBytes : Addr)
    (v : DecoderVisitors) :
    (predecodePass E mem start (sizeBytes.toNat / 4) v).1.size = sizeBytes.toNat / 4 := by
  rw [predecodePass_entries, Array.size_ofFn]

def registerCodeRange (E : Env) (mem : Memory) (impl : Impl) (start sizeBytes : Addr)
    (alloc : Allocation) : RegistrationStatus × Impl :=
  if hsize : validSize sizeBytes = true then
    if hstart : validStart start = true then
      if impl.cache.overlapsRegistered start sizeBytes then
        impl.setError .overlappingRange start "range overlaps an already-registered range"
      else if !alloc.entries then
        impl.setError .outOfMemory start
          "could not allocate predecoded-entry storage for the range"
      else
        let pass := predecodePass E mem start (sizeBytes.toNat / 4) impl.visitors
        let impl := { impl with visitors := pass.2 }
        if !alloc.node then
          impl.setError .outOfMemory start "could not allocate a range-table node"
        else
          (.ok, { impl with
            cache := impl.cache.commit (passRecord start sizeBytes impl.cache.nextStorage pass.1
              hsize hstart (passEntries_size E mem start sizeBytes _)) })
    else
      impl.setError .invalidArgument start "start address must be 4-byte (instruction) aligned"
  else
    impl.setError .invalidArgument 0
      "size must be a non-zero multiple of the 4-byte instruction size"

/-- The visitors leave no trace in the table, nor in the answer. -/
theorem registerCodeRange_cache (E : Env) (mem : Memory) (impl : Impl) (start sizeBytes : Addr)
    (alloc : Allocation) :
    ((impl.registerCodeRange E mem start sizeBytes alloc).1,
        (impl.registerCodeRange E mem start sizeBytes alloc).2.cache) =
      impl.cache.registerCodeRange E mem start sizeBytes alloc := by
  have hrecord (hsize : validSize sizeBytes = true) (hstart : validStart start = true) :
      passRecord start sizeBytes impl.cache.nextStorage
          (predecodePass E mem start (sizeBytes.toNat / 4) impl.visitors).1 hsize hstart
          (passEntries_size E mem start sizeBytes _) =
        newRecord E mem start sizeBytes impl.cache.nextStorage hsize hstart := by
    simp only [passRecord, newRecord, predecodePass_eq]
  unfold registerCodeRange PredecodeCache.registerCodeRange
  by_cases hsize : validSize sizeBytes = true
  · by_cases hstart : validStart start = true
    · simp only [hsize, hstart, dite_true]
      cases impl.cache.overlapsRegistered start sizeBytes with
      | true => rfl
      | false =>
          cases alloc.entries with
          | false => rfl
          | true =>
              cases alloc.node with
              | false => rfl
              | true =>
                  simp only [Bool.not_true, Bool.false_eq_true, if_false, hrecord hsize hstart]
    · simp only [hsize, hstart, dite_true]
      rfl
  · simp only [hsize]
    rfl

def registerCall (E : Env) (impl : Impl) (call : RegisterCall) : RegistrationStatus × Impl :=
  impl.registerCodeRange E call.mem call.start call.sizeBytes call.alloc

/-- The cache and its visitors after a sequence of calls. -/
def registerAll (E : Env) (calls : List RegisterCall) : Impl :=
  calls.foldl (fun impl call => (impl.registerCall E call).2) empty

theorem registerAll_concat (E : Env) (calls : List RegisterCall) (call : RegisterCall) :
    registerAll E (calls ++ [call]) = ((registerAll E calls).registerCall E call).2 := by
  simp [registerAll]

theorem registerCall_cache (E : Env) (impl : Impl) (call : RegisterCall) :
    (impl.registerCall E call).1 = (impl.cache.registerCall E call).1 ∧
      (impl.registerCall E call).2.cache = (impl.cache.registerCall E call).2 :=
  Prod.mk.inj (registerCodeRange_cache E call.mem impl call.start call.sizeBytes call.alloc)

/-- A history of calls leaves the same table with and without the visitors. -/
theorem registerAll_cache (E : Env) (calls : List RegisterCall) :
    (registerAll E calls).cache = PredecodeCache.registerAll E calls := by
  induction calls using List.reverseRecOn with
  | nil => rfl
  | append_singleton calls call ih =>
      rw [registerAll_concat, PredecodeCache.registerAll_append,
        (registerCall_cache E _ call).2, ih]

end Impl

end GabyVm.Cache
