import GabyVm.Cache.Predecoded

/-!
# Registrations below the tag bits

The table keys a range by its start exactly as given.  A range that ends at or
below `2 ^ 56` has no address with a tag, so it cannot slip past the overlap
check.  While every accepted call is of that kind, each accepted range is found
at its own addresses from then on.
-/

namespace GabyVm.Cache

open GabyVm.Aarch64
open GabyVm.Foundation

/-! ## Stripping the tag -/

theorem addressUntag_of_lt {a : Addr} (h : a.toNat < 2 ^ 56) : addressUntag a = a := by
  apply BitVec.eq_of_toNat_eq
  rw [addressUntag_toNat, Nat.mod_eq_of_lt h]

theorem addressUntag_ne {a : Addr} (h : 2 ^ 56 ≤ a.toNat) : addressUntag a ≠ a := by
  intro heq
  have hmod := addressUntag_toNat a
  rw [heq] at hmod
  have hlt := Nat.mod_lt a.toNat (show 0 < 2 ^ 56 by decide)
  omega

/-! ## The words of a range -/

theorem wordOffset_toNat {k : Nat} (h : 4 * k < 2 ^ 64) :
    (BitVec.ofNat 64 k * instructionSize).toNat = 4 * k := by
  have h4 : instructionSize.toNat = 4 := rfl
  rw [BitVec.toNat_mul, BitVec.toNat_ofNat, h4]
  omega

theorem wordAddr_sub (start : Addr) (k : Nat) :
    PredecodeCache.wordAddr start k - start = BitVec.ofNat 64 k * instructionSize := by
  rw [PredecodeCache.wordAddr]
  grind

theorem RegisterCall.covers_wordAddr {call : RegisterCall} {k : Nat}
    (hk : 4 * k < call.sizeBytes.toNat) :
    call.interval.Covers (PredecodeCache.wordAddr call.start k) := by
  have hsize := call.sizeBytes.isLt
  change PredecodeCache.wordAddr call.start k - call.start < call.sizeBytes
  rw [wordAddr_sub, BitVec.lt_def, wordOffset_toNat (by omega)]
  exact hk

theorem RangeRecord.entryIndex_wordAddr {r : RangeRecord} {k : Nat} (hk : 4 * k < 2 ^ 64) :
    r.entryIndex (PredecodeCache.wordAddr r.start k) = k := by
  rw [entryIndex, wordAddr_sub, BitVec.toNat_ushiftRight, Nat.shiftRight_eq_div_pow,
    wordOffset_toNat hk]
  omega

theorem isWordAligned_iff {a : Addr} : isWordAligned a = true ↔ a.toNat % 4 = 0 := by
  rw [isWordAligned, beq_iff_eq, ← toNat_and_three]
  constructor
  · intro h
    rw [h]
    rfl
  · intro h
    exact BitVec.eq_of_toNat_eq h

theorem wordAddr_toNat {start : Addr} {k : Nat} (h : start.toNat + 4 * k < 2 ^ 64) :
    (PredecodeCache.wordAddr start k).toNat = start.toNat + 4 * k := by
  rw [PredecodeCache.wordAddr, BitVec.toNat_add, wordOffset_toNat (by omega),
    Nat.mod_eq_of_lt h]

theorem wordAddr_aligned {start : Addr} (h : start.toNat % 4 = 0) (k : Nat) :
    isWordAligned (PredecodeCache.wordAddr start k) = true := by
  have h4 : instructionSize.toNat = 4 := rfl
  rw [isWordAligned_iff, PredecodeCache.wordAddr, BitVec.toNat_add, BitVec.toNat_mul, h4]
  omega

theorem addressUntag_aligned {a : Addr} (h : isWordAligned a = true) :
    isWordAligned (addressUntag a) = true := by
  rw [isWordAligned_iff] at h ⊢
  rw [addressUntag_toNat]
  omega

theorem RangeRecord.eq_wordAddr_of_entryIndex {r : RangeRecord} {pc : Addr} {k : Nat}
    (halign : isWordAligned pc = true) (h : r.entryIndex pc = k) :
    pc = PredecodeCache.wordAddr r.start k := by
  rw [← h, r.wordAddr_entryIndex, wordStart_of_aligned halign]

/-! ## Accepted calls -/

/-- The range ends at or below the first address that has a tag. -/
def RegisterCall.Untagged (call : RegisterCall) : Prop :=
  call.start.toNat + call.sizeBytes.toNat ≤ 2 ^ 56

instance (call : RegisterCall) : Decidable call.Untagged :=
  inferInstanceAs (Decidable (_ ≤ _))

theorem RegisterCall.Untagged.noWrap {call : RegisterCall} (h : call.Untagged) :
    call.interval.NoWrap := by
  unfold RegisterCall.Untagged at h
  simp only [Interval.NoWrap, RegisterCall.interval]
  omega

theorem RegisterCall.Untagged.not_endsAtTop {call : RegisterCall} (h : call.Untagged) :
    ¬call.interval.EndsAtTop := by
  unfold RegisterCall.Untagged at h
  simp only [Interval.EndsAtTop, RegisterCall.interval]
  omega

theorem RegisterCall.Untagged.wordAddr_lt {call : RegisterCall} (h : call.Untagged) {k : Nat}
    (hk : 4 * k < call.sizeBytes.toNat) :
    (PredecodeCache.wordAddr call.start k).toNat < 2 ^ 56 := by
  unfold RegisterCall.Untagged at h
  rw [wordAddr_toNat (by omega)]
  omega

theorem RegisterCall.exists_taggedWord {call : RegisterCall} (hcall : call.Admissible)
    (h : ¬call.Untagged) :
    ∃ k, 4 * k < call.sizeBytes.toNat ∧
      2 ^ 56 ≤ (PredecodeCache.wordAddr call.start k).toNat := by
  obtain ⟨hsize, hstart, -⟩ := hcall
  simp only [PredecodeCache.validSize, Bool.and_eq_true, bne_iff_ne, beq_iff_eq] at hsize
  simp only [PredecodeCache.validStart, beq_iff_eq] at hstart
  have hlt := call.start.isLt
  unfold RegisterCall.Untagged at h
  by_cases hlow : 2 ^ 56 ≤ call.start.toNat
  · refine ⟨0, by omega, ?_⟩
    rw [wordAddr_toNat (by omega)]
    exact hlow
  · -- The range runs past the first address with a tag, which is word-aligned.
    refine ⟨(2 ^ 56 - call.start.toNat) / 4, by omega, ?_⟩
    rw [wordAddr_toNat (by omega)]
    omega

namespace PredecodeCache

/-- The call that follows `pre` among the calls returns `Ok`. -/
structure Accepted (E : Env) (calls pre : List RegisterCall) (call : RegisterCall) : Prop where
  isPrefix : pre ++ [call] <+: calls
  ok : ((registerAll E pre).registerCall E call).1 = .ok

theorem Accepted.commits {E : Env} {calls pre : List RegisterCall} {call : RegisterCall}
    (h : Accepted E calls pre call) :
    ∃ r, Builds E (registerAll E pre) call r ∧
      registerAll E (pre ++ [call]) = (registerAll E pre).commit r := by
  rcases registerCall_cases E (registerAll E pre) call with ⟨-, -, hno⟩ | ⟨-, -, r, hr, heq⟩
  · exact absurd (admissible_of_ok h.ok) hno
  · exact ⟨r, hr, by rw [registerAll_append, heq]⟩

/-- Every accepted range is below the tag bits. -/
def AllUntagged (E : Env) (calls : List RegisterCall) : Prop :=
  ∀ pre call, Accepted E calls pre call → call.Untagged

theorem AllUntagged.of_prefix {E : Env} {calls pre : List RegisterCall}
    (h : AllUntagged E calls) (hpre : pre <+: calls) :
    AllUntagged E pre :=
  fun p call hp => h p call ⟨hp.isPrefix.trans hpre, hp.ok⟩

/-! ## The invariant -/

structure LowTable (cache : PredecodeCache) : Prop where
  table : cache.Table
  low : ∀ r, cache.Registered r → r.start.toNat + r.sizeBytes.toNat ≤ 2 ^ 56

theorem empty_lowTable : empty.LowTable where
  table := empty_table
  low := by
    rintro r ⟨k, hmem⟩
    cases hmem

theorem LowTable.not_missedOverlap {cache : PredecodeCache} (h : cache.LowTable)
    {call : RegisterCall} (hcall : call.Untagged) :
    ¬MissedOverlap cache call := by
  rintro ⟨-, ⟨r, hr, hmeet⟩, htop⟩
  rcases htop r hr hmeet with hend | hend
  · have hlow := h.low r hr
    simp only [Interval.EndsAtTop, RangeRecord.interval] at hend
    omega
  · exact hcall.not_endsAtTop hend

/-- One call keeps the table low and every earlier answer, if an accepted range is untagged. -/
theorem register_lowTable (E : Env) {cache : PredecodeCache} (h : cache.LowTable)
    {call : RegisterCall} (hcall : (cache.registerCall E call).1 = .ok → call.Untagged) :
    (cache.registerCall E call).2.LowTable ∧ (cache.registerCall E call).2.Extends cache := by
  rcases registerCall_cases E cache call with
    ⟨hranges, hnext, -⟩ | ⟨hadmissible, hover, r, hr, heq⟩
  · refine ⟨⟨h.table.congr hranges hnext, ?_⟩, ?_⟩
    · rintro r ⟨k, hmem⟩
      rw [hranges] at hmem
      exact h.low r ⟨k, hmem⟩
    · intro pc r hr
      rw [findRange_congr hranges]
      exact hr
  · have huntagged : call.Untagged := hcall (ok_of_admissible hadmissible hover)
    obtain ⟨htable, hext⟩ :=
      register_table E h.table huntagged.noWrap (h.not_missedOverlap huntagged)
    refine ⟨⟨htable, ?_⟩, hext⟩
    rintro r' ⟨k, hmem⟩
    rw [heq] at hmem
    rcases OrderedTable.mem_put.mp hmem with hnew | ⟨hmem, -⟩
    · obtain rfl : r' = r := congrArg Prod.snd hnew
      rw [hr.start, hr.sizeBytes]
      exact huntagged
    · exact h.low r' ⟨k, hmem⟩

theorem registerAll_lowTable {E : Env} {calls : List RegisterCall} (h : AllUntagged E calls) :
    (registerAll E calls).LowTable := by
  induction calls using List.reverseRecOn with
  | nil => exact empty_lowTable
  | append_singleton calls call ih =>
      have hprev := ih (h.of_prefix (List.prefix_append calls [call]))
      rw [registerAll_append]
      exact (register_lowTable E hprev fun hok => h calls call ⟨List.prefix_rfl, hok⟩).1

theorem registerAll_low_extends {E : Env} {calls more : List RegisterCall}
    (h : AllUntagged E (calls ++ more)) :
    (registerAll E (calls ++ more)).Extends (registerAll E calls) := by
  induction more using List.reverseRecOn with
  | nil =>
      rw [List.append_nil]
      exact Extends.refl _
  | append_singleton more call ih =>
      rw [← List.append_assoc] at h ⊢
      have hprefix := h.of_prefix (List.prefix_append (calls ++ more) [call])
      have hstep := register_lowTable E (registerAll_lowTable hprefix)
        fun hok => h (calls ++ more) call ⟨List.prefix_rfl, hok⟩
      rw [registerAll_append]
      exact hstep.2.trans (ih hprefix)

/-! ## Accepted ranges in later tables -/

theorem Builds.contains_iff {E : Env} {cache : PredecodeCache} {call : RegisterCall}
    {r : RangeRecord} (h : Builds E cache call r) (pc : Addr) :
    r.contains pc = true ↔ call.interval.Covers pc := by
  rw [RangeRecord.contains_iff, h.interval]

theorem Builds.unique {E : Env} {cache : PredecodeCache} {call : RegisterCall}
    {r r' : RangeRecord} (h : Builds E cache call r) (h' : Builds E cache call r') :
    r = r' := by
  obtain ⟨start, sizeBytes, storage, entries⟩ := r
  obtain ⟨start', sizeBytes', storage', entries'⟩ := r'
  obtain rfl : start = start' := h.start.trans h'.start.symm
  obtain rfl : sizeBytes = sizeBytes' := h.sizeBytes.trans h'.sizeBytes.symm
  obtain rfl : storage = storage' := h.storage.trans h'.storage.symm
  obtain rfl : entries = entries' := h.entries.trans h'.entries.symm
  rfl

theorem Accepted.findRange {E : Env} {calls pre mid : List RegisterCall} {call : RegisterCall}
    {r : RangeRecord} (h : Accepted E calls pre call) (hall : AllUntagged E calls)
    (hr : Builds E (registerAll E pre) call r) (hmid : pre ++ [call] <+: mid)
    (hcalls : mid <+: calls) {pc : Addr} (hpc : call.interval.Covers pc) :
    (registerAll E mid).findRange pc = some r := by
  obtain ⟨rest, rfl⟩ := hmid
  have hext := registerAll_low_extends (hall.of_prefix hcalls)
  have htable := (registerAll_lowTable (hall.of_prefix h.isPrefix)).table
  refine hext pc r ((findRange_eq_some htable).mpr ⟨?_, (hr.contains_iff pc).mpr hpc⟩)
  obtain ⟨r', hr', hcommit⟩ := h.commits
  obtain rfl : r = r' := hr.unique hr'
  rw [hcommit]
  exact ⟨r.start, OrderedTable.mem_put.mpr (.inl rfl)⟩

/-- The later of two accepted ranges has no address of the earlier one. -/
theorem Accepted.disjoint {E : Env} {calls pre pre' : List RegisterCall}
    {call call' : RegisterCall} (h : Accepted E calls pre call)
    (h' : Accepted E calls pre' call') (hall : AllUntagged E calls)
    (hlt : pre.length < pre'.length) :
    call.interval.Disjoint call'.interval := by
  rintro a ⟨ha, ha'⟩
  obtain ⟨r, hr, -⟩ := h.commits
  have hpre' : pre' <+: calls := (List.prefix_append pre' [call']).trans h'.isPrefix
  have hle : (pre ++ [call]).length ≤ pre'.length := by
    rw [List.length_append]
    exact hlt
  have hmid := List.prefix_of_prefix_length_le h.isPrefix hpre' hle
  have hfound := h.findRange hall hr hmid hpre' ha
  obtain ⟨hreg, hcontains⟩ := findRange_sound hfound
  have hlow := registerAll_lowTable (hall.of_prefix hpre')
  obtain ⟨hadmissible, hover⟩ := admissible_of_ok h'.ok
  refine hlow.not_missedOverlap (hall pre' call' h') ?_
  refine (missedOverlap_iff hlow.table (hall pre' call' h').noWrap).mpr
    ⟨hadmissible, hover, r, hreg, ?_⟩
  by_contra hmeet
  exact (disjoint_iff_not_meets hlow.table hreg hadmissible (hall pre' call' h').noWrap).mpr
    hmeet a ⟨RangeRecord.contains_iff.mp hcontains, ha'⟩

end PredecodeCache

end GabyVm.Cache
