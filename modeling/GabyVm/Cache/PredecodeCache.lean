import GabyVm.Aarch64.Decoder
import GabyVm.Foundation.WrappedInterval

/-!
# The predecode cache

A cache maps the start of every registered code range to a record with one
predecoded entry for each instruction word of the range.  Registration
validates its arguments, rejects overlaps, allocates and fills the entry array
and only then changes the table.
-/

namespace GabyVm.Cache

open GabyVm.Aarch64
open GabyVm.Foundation

inductive RegistrationStatus where
  | ok
  | invalidArgument
  | overlappingRange
  | unsupportedFeature
  | outOfMemory
  deriving DecidableEq, Repr

structure RegistrationError where
  status : RegistrationStatus
  pc : Addr
  reason : String
  missingFeatures : String
  deriving DecidableEq, Repr

structure PredecodedEntry where
  formHash : FormHash
  flags : BitVec 32
  leaf : Visitor

/-- Bit 0 of the flags, which gates the guarded-page check. -/
def PredecodedEntry.checksBType (entry : PredecodedEntry) : Bool := entry.flags &&& 1 != 0

/-- One registered range with the entry array that backs it. -/
structure RangeRecord where
  start : Addr
  sizeBytes : Addr
  /-- Identity of the allocation that holds the entries. -/
  storage : Nat
  entries : Array PredecodedEntry
  start_aligned : start.toNat % 4 = 0
  size_pos : 0 < sizeBytes.toNat
  size_aligned : sizeBytes.toNat % 4 = 0
  entries_size : entries.size = sizeBytes.toNat / 4

namespace RangeRecord

/-- The subtraction check that accepts a program counter. -/
def contains (r : RangeRecord) (pc : Addr) : Bool := pc - r.start < r.sizeBytes

def interval (r : RangeRecord) : Interval 64 := ⟨r.start, r.sizeBytes⟩

theorem contains_iff {r : RangeRecord} {pc : Addr} :
    r.contains pc = true ↔ r.interval.Covers pc := by
  simp [contains, interval, Interval.Covers]

def entryIndex (r : RangeRecord) (pc : Addr) : Nat := ((pc - r.start) >>> 2).toNat

/-- Every accepted program counter, aligned or not, indexes inside the array. -/
theorem entryIndex_lt {r : RangeRecord} {pc : Addr} (h : r.contains pc = true) :
    r.entryIndex pc < r.entries.size := by
  have hlt : (pc - r.start).toNat < r.sizeBytes.toNat := by
    simpa [contains, BitVec.lt_def] using h
  have hmod := r.size_aligned
  rw [r.entries_size, entryIndex, BitVec.toNat_ushiftRight, Nat.shiftRight_eq_div_pow]
  omega

def entry (r : RangeRecord) (pc : Addr) (h : r.contains pc = true) : PredecodedEntry :=
  have := entryIndex_lt h
  r.entries[r.entryIndex pc]

end RangeRecord

structure PredecodeCache where
  ranges : OrderedTable Addr RangeRecord
  /-- The identity the next entry array will get. -/
  nextStorage : Nat
  lastError : RegistrationError

namespace PredecodeCache

def empty : PredecodeCache where
  ranges := .empty
  nextStorage := 0
  lastError := ⟨.ok, 0, "", ""⟩

/-! ## Lookup -/

/-- `FindRange`: the predecessor of the upper bound, when it contains the pc. -/
def findRange (cache : PredecodeCache) (pc : Addr) : Option RangeRecord :=
  match cache.ranges.floor pc with
  | none => none
  | some (_, r) => if r.contains pc then some r else none

/-! ## Dispatch -/

/-- A pointer to a range is the key of its table node; nodes never move. -/
def deref (cache : PredecodeCache) (range : Option Addr) : Option RangeRecord :=
  range.bind cache.ranges.lookup

/-- The range a cache-track step at `pc` goes through: the held one, or a lookup. -/
def selectRange (cache : PredecodeCache) (curRange : Option Addr) (pc : Addr) :
    Option RangeRecord :=
  match cache.deref curRange with
  | some r => if r.contains pc then some r else cache.findRange pc
  | none => cache.findRange pc

theorem findRange_contains {cache : PredecodeCache} {pc : Addr} {r : RangeRecord}
    (h : cache.findRange pc = some r) :
    r.contains pc = true := by
  unfold findRange at h
  split at h
  · cases h
  · split_ifs at h with hc
    cases h
    exact hc

theorem selectRange_contains {cache : PredecodeCache} {curRange : Option Addr} {pc : Addr}
    {r : RangeRecord} (h : cache.selectRange curRange pc = some r) :
    r.contains pc = true := by
  unfold selectRange at h
  split at h
  · split_ifs at h with hc
    · cases h
      exact hc
    · exact findRange_contains h
  · exact findRange_contains h

/-- The entry of the selected range at `pc`; `none` is the out-of-range abort. -/
def selectEntry (cache : PredecodeCache) (curRange : Option Addr) (pc : Addr) :
    Option PredecodedEntry :=
  match h : cache.selectRange curRange pc with
  | some r => some (r.entry pc (selectRange_contains h))
  | none => none

/-- `cur_range_` after the step: refreshed only when the held range missed. -/
def refreshRange (cache : PredecodeCache) (curRange : Option Addr) (pc : Addr) : Option Addr :=
  let found := ((cache.findRange pc).map RangeRecord.start).or curRange
  match cache.deref curRange with
  | some r => if r.contains pc then curRange else found
  | none => found

/-! ## Predecoding -/

/-- The cache audits against every feature. -/
def auditorFeatures : CPUFeatures := .all

def isBtiRelevant (w : Word) : Bool := isBti w || isPAuth w || isException w

/-- The entry of a word that cannot be executed. -/
def dataInStreamEntry : PredecodedEntry := ⟨0, 0, .unallocated⟩

def predecodeWord (E : Env) (w : Word) : PredecodedEntry :=
  if !auditorFeatures.has (E.instructionFeatures w) || (E.decode w).unallocated then
    dataInStreamEntry
  else
    let hash := formHash (E.decode w).form
    { formHash := hash
      flags := if isBtiRelevant w then 1 else 0
      leaf := (resolveLeaf E hash).getD .unimplemented }

def wordAddr (start : Addr) (i : Nat) : Addr := start + BitVec.ofNat 64 i * instructionSize

/-- The predecode pass over a range. -/
def predecode (E : Env) (mem : Memory) (start sizeBytes : Addr) : Array PredecodedEntry :=
  Array.ofFn fun i : Fin (sizeBytes.toNat / 4) =>
    predecodeWord E (readWord mem (wordAddr start i))

/-! ## Registration -/

/-- Which of the two allocations of a registration succeed. -/
structure Allocation where
  entries : Bool
  node : Bool
  deriving DecidableEq, Repr

def setError (cache : PredecodeCache) (status : RegistrationStatus) (pc : Addr)
    (reason : String) : RegistrationStatus × PredecodeCache :=
  (status, { cache with lastError := ⟨status, pc, reason, ""⟩ })

/-- The overlap check; both ends are 64-bit sums. -/
def overlapsRegistered (cache : PredecodeCache) (start sizeBytes : Addr) : Bool :=
  cache.ranges.entries.any fun kv =>
    start < kv.2.start + kv.2.sizeBytes && kv.2.start < start + sizeBytes

/-- Put the record under its start; an entry already there is overwritten. -/
def commit (cache : PredecodeCache) (r : RangeRecord) : PredecodeCache :=
  { cache with ranges := cache.ranges.put r.start r, nextStorage := cache.nextStorage + 1 }

def validSize (sizeBytes : Addr) : Bool := sizeBytes.toNat != 0 && sizeBytes.toNat % 4 == 0

def validStart (start : Addr) : Bool := start.toNat % 4 == 0

theorem sizeBytes_pos {sizeBytes : Addr} (h : validSize sizeBytes = true) :
    0 < sizeBytes.toNat := by
  simp only [validSize, Bool.and_eq_true, bne_iff_ne] at h
  omega

theorem sizeBytes_aligned {sizeBytes : Addr} (h : validSize sizeBytes = true) :
    sizeBytes.toNat % 4 = 0 := by
  simp only [validSize, Bool.and_eq_true, beq_iff_eq] at h
  exact h.2

theorem start_aligned {start : Addr} (h : validStart start = true) : start.toNat % 4 = 0 := by
  simpa [validStart] using h

/-- The record a registration that passes validation builds. -/
def newRecord (E : Env) (mem : Memory) (start sizeBytes : Addr) (storage : Nat)
    (hsize : validSize sizeBytes = true) (hstart : validStart start = true) : RangeRecord where
  start := start
  sizeBytes := sizeBytes
  storage := storage
  entries := predecode E mem start sizeBytes
  start_aligned := start_aligned hstart
  size_pos := sizeBytes_pos hsize
  size_aligned := sizeBytes_aligned hsize
  entries_size := Array.size_ofFn

def registerCodeRange (E : Env) (mem : Memory) (cache : PredecodeCache)
    (start sizeBytes : Addr) (alloc : Allocation) : RegistrationStatus × PredecodeCache :=
  if hsize : validSize sizeBytes = true then
    if hstart : validStart start = true then
      if cache.overlapsRegistered start sizeBytes then
        cache.setError .overlappingRange start "range overlaps an already-registered range"
      else if !alloc.entries then
        cache.setError .outOfMemory start
          "could not allocate predecoded-entry storage for the range"
      else if !alloc.node then
        cache.setError .outOfMemory start "could not allocate a range-table node"
      else
        (.ok, cache.commit (newRecord E mem start sizeBytes cache.nextStorage hsize hstart))
    else
      cache.setError .invalidArgument start
        "start address must be 4-byte (instruction) aligned"
  else
    cache.setError .invalidArgument 0
      "size must be a non-zero multiple of the 4-byte instruction size"

end PredecodeCache

end GabyVm.Cache
