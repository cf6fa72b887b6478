import GabyVm.Cache.RangeTable

/-!
# Entries and the words they came from

`CacheOf E mem cache` says that the cache was built by registrations whose
code bytes were those of `mem`.  Then every entry that a program counter
selects is the predecoding of the word that `mem` has around it.
-/

namespace GabyVm.Cache

open GabyVm.Aarch64
open GabyVm.Foundation

/-- The code bytes of every registered range are those of `mem`. -/
inductive CacheOf (E : Env) (mem : Memory) : PredecodeCache → Prop where
  | empty : CacheOf E mem .empty
  | register {cache : PredecodeCache} (h : CacheOf E mem cache) (call : RegisterCall)
      (hbytes : ∀ a, call.interval.Covers a → call.mem a = mem a) :
      CacheOf E mem (cache.registerCall E call).2

def wordStart (a : Addr) : Addr := a - (a &&& 3)

theorem toNat_and_three (a : Addr) : (a &&& 3).toNat = a.toNat % 4 := by
  have h : (3 : Addr).toNat = 2 ^ 2 - 1 := rfl
  rw [BitVec.toNat_and, h, Nat.and_two_pow_sub_one_eq_mod]

theorem wordStart_of_aligned {a : Addr} (h : isWordAligned a = true) : wordStart a = a := by
  rw [isWordAligned, beq_iff_eq] at h
  rw [wordStart, h]
  exact BitVec.sub_zero a

namespace RangeRecord

theorem wordAddr_entryIndex (r : RangeRecord) (pc : Addr) :
    PredecodeCache.wordAddr r.start (r.entryIndex pc) = wordStart pc := by
  have hstart := r.start_aligned
  have hidx : r.entryIndex pc = (pc - r.start).toNat / 4 := by
    rw [entryIndex, BitVec.toNat_ushiftRight, Nat.shiftRight_eq_div_pow]
  have hmod : (pc - r.start).toNat % 4 = pc.toNat % 4 := by
    rw [BitVec.toNat_sub]
    omega
  have hoff : BitVec.ofNat 64 (r.entryIndex pc) * instructionSize =
      pc - r.start - (pc &&& 3) := by
    have h4 : instructionSize.toNat = 4 := rfl
    generalize pc - r.start = offset at hidx hmod ⊢
    have hlt := offset.isLt
    apply BitVec.eq_of_toNat_eq
    rw [hidx, BitVec.toNat_mul, BitVec.toNat_ofNat, h4, BitVec.toNat_sub, toNat_and_three,
      ← hmod]
    omega
  rw [PredecodeCache.wordAddr, hoff, wordStart]
  grind

theorem covers_word {r : RangeRecord} {pc : Addr} (h : r.contains pc = true) {i : Nat}
    (hi : i < 4) :
    r.interval.Covers (wordStart pc + BitVec.ofNat 64 i) := by
  have hstart := r.start_aligned
  have hsize := r.size_aligned
  have hbound := r.sizeBytes.isLt
  have hlt : (pc - r.start).toNat < r.sizeBytes.toNat := by
    simpa [contains, BitVec.lt_def] using h
  have hmod : (pc - r.start).toNat % 4 = pc.toNat % 4 := by
    rw [BitVec.toNat_sub]
    omega
  have hsub : wordStart pc + BitVec.ofNat 64 i - r.start =
      pc - r.start - (pc &&& 3) + BitVec.ofNat 64 i := by
    rw [wordStart]
    grind
  change wordStart pc + BitVec.ofNat 64 i - r.start < r.sizeBytes
  generalize pc - r.start = offset at hlt hmod hsub
  rw [hsub, BitVec.lt_def, BitVec.toNat_add, BitVec.toNat_sub, toNat_and_three,
    BitVec.toNat_ofNat]
  omega

end RangeRecord

theorem PredecodeCache.Builds.entry_eq {E : Env} {cache : PredecodeCache} {call : RegisterCall}
    {r : RangeRecord} (hr : PredecodeCache.Builds E cache call r) {mem : Memory}
    (hbytes : ∀ a, call.interval.Covers a → call.mem a = mem a) {pc : Addr}
    (h : r.contains pc = true) :
    r.entry pc h = PredecodeCache.predecodeWord E (readWord mem (wordStart pc)) := by
  have hword : readWord call.mem (wordStart pc) = readWord mem (wordStart pc) := by
    apply readWord_congr
    intro i hi
    exact hbytes _ (hr.interval ▸ RangeRecord.covers_word h hi)
  have hidx := RangeRecord.entryIndex_lt h
  have hget : r.entry pc h = PredecodeCache.predecodeWord E
      (readWord call.mem (PredecodeCache.wordAddr call.start (r.entryIndex pc))) := by
    simp only [RangeRecord.entry, hr.entries, PredecodeCache.predecode, Array.getElem_ofFn]
  rw [hget, ← hr.start, RangeRecord.wordAddr_entryIndex, hword]

/-- Every selected entry is the predecoding of the word around the program counter. -/
theorem CacheOf.entry_eq {E : Env} {mem : Memory} {cache : PredecodeCache}
    (h : CacheOf E mem cache) {r : RangeRecord} (hr : cache.Registered r) {pc : Addr}
    (hc : r.contains pc = true) :
    r.entry pc hc = PredecodeCache.predecodeWord E (readWord mem (wordStart pc)) := by
  induction h with
  | empty =>
      obtain ⟨k, hmem⟩ := hr
      cases hmem
  | @register cache _ call hbytes ih =>
      obtain ⟨k, hmem⟩ := hr
      rcases PredecodeCache.registerCall_cases E cache call with
        ⟨hranges, -, -⟩ | ⟨-, -, new, hnew, heq⟩
      · rw [hranges] at hmem
        exact ih ⟨k, hmem⟩
      · rw [heq] at hmem
        rcases OrderedTable.mem_put.mp hmem with hkr | ⟨hmem, -⟩
        · obtain rfl : r = new := congrArg Prod.snd hkr
          exact hnew.entry_eq hbytes hc
        · exact ih ⟨k, hmem⟩

theorem PredecodeCache.selectRange_registered {cache : PredecodeCache} {range : Option Addr}
    {pc : Addr} {r : RangeRecord} (h : cache.selectRange range pc = some r) :
    cache.Registered r := by
  unfold selectRange at h
  split at h
  · rename_i r' hderef
    obtain ⟨k, -, hlookup⟩ := Option.bind_eq_some_iff.mp hderef
    split_ifs at h with hc
    · cases h
      exact ⟨k, OrderedTable.lookup_eq_some.mp hlookup⟩
    · exact (findRange_sound h).1
  · exact (findRange_sound h).1

theorem PredecodeCache.selectEntry_eq_some {cache : PredecodeCache} {range : Option Addr}
    {pc : Addr} {entry : PredecodedEntry} (h : cache.selectEntry range pc = some entry) :
    ∃ r hc, cache.selectRange range pc = some r ∧ entry = r.entry pc hc := by
  unfold selectEntry at h
  split at h
  · rename_i r hr
    cases h
    exact ⟨r, selectRange_contains hr, hr, rfl⟩
  · cases h

theorem PredecodeCache.selectEntry_isSome {cache : PredecodeCache} {pc : Addr}
    (h : (cache.findRange pc).isSome = true) (range : Option Addr) :
    (cache.selectEntry range pc).isSome = true := by
  have hrange : (cache.selectRange range pc).isSome = true := by
    unfold selectRange
    split
    · split_ifs
      · rfl
      · exact h
    · exact h
  unfold selectEntry
  split
  · rfl
  · rename_i hnone
    rw [hnone] at hrange
    exact hrange

/-- In registered code every step finds the predecoding of the word it stands in. -/
theorem CacheOf.selectEntry {E : Env} {mem : Memory} {cache : PredecodeCache}
    (h : CacheOf E mem cache) {pc : Addr} (hfound : (cache.findRange pc).isSome = true)
    (range : Option Addr) :
    cache.selectEntry range pc =
      some (PredecodeCache.predecodeWord E (readWord mem (wordStart pc))) := by
  obtain ⟨entry, hentry⟩ := Option.isSome_iff_exists.mp
    (PredecodeCache.selectEntry_isSome hfound range)
  obtain ⟨r, hc, hselect, rfl⟩ := PredecodeCache.selectEntry_eq_some hentry
  rw [hentry, h.entry_eq (PredecodeCache.selectRange_registered hselect) hc]

end GabyVm.Cache
