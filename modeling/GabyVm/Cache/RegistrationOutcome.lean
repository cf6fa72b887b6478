import GabyVm.Cache.Untagged

/-!
# The outcome of one registration

What `RegisterCodeRange` answers for every pair of words and every table that
registrations can leave behind, also for ranges that run past the last address
and on from the first.  The answer is the documented one exactly when the
overlap check sees the range that the new one meets, or, when it meets none,
the new range does not run past the last address.
-/

namespace GabyVm.Cache

open GabyVm.Aarch64
open GabyVm.Foundation

namespace PredecodeCache

/-! ## Tables keyed by the start -/

/-- What the table keeps whatever is registered. -/
def Keyed (cache : PredecodeCache) : Prop :=
  ∀ e ∈ cache.ranges.entries, e.2.start = e.1

theorem commit_keyed {cache : PredecodeCache} (h : cache.Keyed) (r : RangeRecord) :
    (cache.commit r).Keyed := by
  intro e he
  rcases OrderedTable.mem_put.mp he with rfl | ⟨he, -⟩
  · rfl
  · exact h e he

theorem register_keyed (E : Env) {cache : PredecodeCache} (h : cache.Keyed)
    (call : RegisterCall) :
    (cache.registerCall E call).2.Keyed := by
  rcases registerCall_cases E cache call with ⟨hranges, -, -⟩ | ⟨-, -, r, -, heq⟩
  · intro e he
    rw [hranges] at he
    exact h e he
  · rw [heq]
    exact commit_keyed h r

theorem registerAll_keyed (E : Env) (calls : List RegisterCall) : (registerAll E calls).Keyed := by
  induction calls using List.reverseRecOn with
  | nil =>
      intro e he
      cases he
  | append_singleton calls call ih =>
      rw [registerAll_append]
      exact register_keyed E ih call

/-! ## Lookup in a grown table -/

section Commit

variable {cache : PredecodeCache} {r : RangeRecord}

/-- Outside the new range every lookup answers as before. -/
theorem findRange_commit_of_not_covers (hkeyed : cache.Keyed)
    (hdis : ∀ r', cache.Registered r' → r'.interval.Disjoint r.interval) {p : Addr}
    (hp : ¬r.interval.Covers p) :
    (cache.commit r).findRange p = cache.findRange p := by
  have hmiss : r.contains p = false := by
    rw [Bool.eq_false_iff]
    exact fun hc => hp (RangeRecord.contains_iff.mp hc)
  by_cases hle : r.start ≤ p
  · cases hfloor : cache.ranges.floor p with
    | none =>
        have hnew : (cache.commit r).ranges.floor p = some (r.start, r) := by
          refine OrderedTable.floor_put_self hle ?_
          intro x hx hxp
          exact absurd hxp (not_le.mpr (OrderedTable.floor_eq_none.mp hfloor x hx))
        simp [findRange, hfloor, hnew, hmiss]
    | some e =>
        obtain ⟨he, hep, hmax⟩ := OrderedTable.floor_eq_some.mp hfloor
        by_cases hke : r.start < e.1
        · have hsame : (cache.commit r).ranges.floor p = some e := by
            rw [← hfloor]
            exact OrderedTable.floor_put_of_ne (.inr ⟨e, hfloor, hke⟩)
          simp only [findRange, hfloor, hsame]
        · -- The old predecessor now lies behind the new range, and did not reach this far.
          have hnew : (cache.commit r).ranges.floor p = some (r.start, r) := by
            refine OrderedTable.floor_put_self hle ?_
            intro x hx hxp
            exact (hmax x hx hxp).trans (not_lt.mp hke)
          have hold : e.2.contains p = false := by
            rw [Bool.eq_false_iff]
            intro hc
            refine hdis e.2 ⟨e.1, he⟩ r.start ⟨?_, Interval.covers_start r.size_pos⟩
            have hcov := RangeRecord.contains_iff.mp hc
            have hstart : e.2.interval.start = e.1 := hkeyed e he
            rw [Interval.covers_iff_wrapped, hstart] at hcov ⊢
            have hep' := BitVec.le_def.mp hep
            have hle' := BitVec.le_def.mp hle
            have hke' := BitVec.le_def.mp (not_lt.mp hke)
            omega
          simp [findRange, hfloor, hnew, hmiss, hold]
  · have hsame : (cache.commit r).ranges.floor p = cache.ranges.floor p :=
      OrderedTable.floor_put_of_ne (.inl (not_le.mp hle))
    simp only [findRange, hsame]

/-- A new range that does not run past the last address is found at once. -/
theorem findRange_commit_of_covers (hkeyed : cache.Keyed)
    (hdis : ∀ r', cache.Registered r' → r'.interval.Disjoint r.interval)
    (hwrap : r.interval.NoWrap) {p : Addr} (hp : r.interval.Covers p) :
    (cache.commit r).findRange p = some r := by
  have hbounds := (Interval.covers_iff hwrap p).mp hp
  have hnew : (cache.commit r).ranges.floor p = some (r.start, r) := by
    refine OrderedTable.floor_put_self (BitVec.le_def.mpr hbounds.1) ?_
    intro x hx hxp
    by_contra hlt
    refine hdis x.2 ⟨x.1, hx⟩ x.1 ⟨?_, ?_⟩
    · rw [← hkeyed x hx]
      exact Interval.covers_start x.2.size_pos
    · rw [Interval.covers_iff hwrap]
      have hlt' : r.start.toNat < x.1.toNat := BitVec.lt_def.mp (not_le.mp hlt)
      exact ⟨hlt'.le, (BitVec.le_def.mp hxp).trans_lt hbounds.2⟩
  simp [findRange, hnew, RangeRecord.contains_iff.mpr hp]

/-- Address 0 is never found in a range that runs past the last address to it. -/
theorem findRange_zero_ne (hkeyed : cache.Keyed) (hwrap : ¬r.interval.NoWrap) :
    cache.findRange 0 ≠ some r := by
  intro hfound
  unfold findRange at hfound
  split at hfound
  · cases hfound
  · rename_i k r' hfloor
    split_ifs at hfound
    cases hfound
    obtain ⟨hmem, hle, -⟩ := OrderedTable.floor_eq_some.mp hfloor
    have hstart : r.start = k := hkeyed (k, r) hmem
    have hzero : k.toNat ≤ 0 := BitVec.le_def.mp hle
    have hsize := r.sizeBytes.isLt
    refine hwrap ?_
    simp only [Interval.NoWrap, RangeRecord.interval, hstart]
    omega

end Commit

/-! ## The documented outcome -/

def granted (mem : Memory) (start sizeBytes : Addr) : RegisterCall :=
  ⟨mem, start, sizeBytes, ⟨true, true⟩⟩

def MeetsRegistered (cache : PredecodeCache) (call : RegisterCall) : Prop :=
  ∃ r, cache.Registered r ∧ ¬r.interval.Disjoint call.interval

structure DocumentedOutcome (E : Env) (cache : PredecodeCache) (call : RegisterCall) : Prop where
  invalid : (cache.registerCall E call).1 = .invalidArgument ↔
    call.sizeBytes.toNat = 0 ∨ call.sizeBytes.toNat % 4 ≠ 0 ∨ call.start.toNat % 4 ≠ 0
  overlapping : (cache.registerCall E call).1 ≠ .invalidArgument →
    ((cache.registerCall E call).1 = .overlappingRange ↔ cache.MeetsRegistered call)
  accepted : (cache.registerCall E call).1 ≠ .invalidArgument → ¬cache.MeetsRegistered call →
    (cache.registerCall E call).1 = .ok ∧
      ∃ r, Builds E cache call r ∧
        (∀ p, call.interval.Covers p → (cache.registerCall E call).2.findRange p = some r) ∧
        ∀ p, ¬call.interval.Covers p →
          (cache.registerCall E call).2.findRange p = cache.findRange p
  supported : (cache.registerCall E call).1 ≠ .unsupportedFeature
  keeps : ∀ k r, cache.ranges.lookup k = some r →
    (cache.registerCall E call).2.ranges.lookup k = some r

/--
The overlap check sees a range that the new one meets, or the new one meets
none and does not run past the last address.
-/
def Settled (cache : PredecodeCache) (call : RegisterCall) : Prop :=
  (∃ r, cache.Registered r ∧ call.interval.Seen r.interval) ∨
    ¬cache.MeetsRegistered call ∧ call.interval.NoWrap

theorem overlapsRegistered_eq_true {cache : PredecodeCache} {start sizeBytes : Addr}
    (hpos : 0 < sizeBytes.toNat) :
    cache.overlapsRegistered start sizeBytes = true ↔
      ∃ r, cache.Registered r ∧ (⟨start, sizeBytes⟩ : Interval 64).Seen r.interval := by
  rw [← Bool.not_eq_false, overlapsRegistered_eq_false]
  push Not
  constructor
  · rintro ⟨r, hr, hover⟩
    exact ⟨r, hr, (Interval.overlaps_iff_seen hpos r.size_pos).mp (by simpa using hover)⟩
  · rintro ⟨r, hr, hseen⟩
    exact ⟨r, hr, by simpa using (Interval.overlaps_iff_seen hpos r.size_pos).mpr hseen⟩

theorem granted_status (E : Env) (cache : PredecodeCache) (mem : Memory) (start sizeBytes : Addr) :
    (cache.registerCall E (granted mem start sizeBytes)).1 =
      if validSize sizeBytes && validStart start then
        if cache.overlapsRegistered start sizeBytes then .overlappingRange else .ok
      else .invalidArgument := by
  unfold registerCall registerCodeRange
  cases hsize : validSize sizeBytes <;> cases hstart : validStart start <;>
    cases hover : cache.overlapsRegistered start sizeBytes <;>
    simp [granted, hsize, hstart, hover, setError]

theorem valid_iff {start sizeBytes : Addr} :
    (validSize sizeBytes && validStart start) = true ↔
      ¬(sizeBytes.toNat = 0 ∨ sizeBytes.toNat % 4 ≠ 0 ∨ start.toNat % 4 ≠ 0) := by
  simp only [validSize, validStart, Bool.and_eq_true, bne_iff_ne, beq_iff_eq]
  omega

section Outcome

variable {E : Env} {cache : PredecodeCache} {mem : Memory} {start sizeBytes : Addr}

theorem registerCall_failed {call : RegisterCall} (h : (cache.registerCall E call).1 ≠ .ok) :
    (cache.registerCall E call).2.ranges = cache.ranges := by
  rcases registerCall_cases E cache call with ⟨hranges, -, -⟩ | ⟨-, -, r, -, heq⟩
  · exact hranges
  · rw [heq] at h
    exact absurd rfl h

theorem documentedOutcome_of_invalid
    (hvalid : (validSize sizeBytes && validStart start) = false) :
    DocumentedOutcome E cache (granted mem start sizeBytes) := by
  have hstatus : (cache.registerCall E (granted mem start sizeBytes)).1 = .invalidArgument := by
    rw [granted_status, hvalid]
    rfl
  have hargs := not_iff_not.mpr (@valid_iff start sizeBytes)
  rw [hvalid, not_not] at hargs
  refine ⟨⟨fun _ => hargs.mp (by decide), fun _ => hstatus⟩, ?_, ?_, ?_, ?_⟩
  · exact fun h => absurd hstatus h
  · exact fun h => absurd hstatus h
  · rw [hstatus]
    decide
  · intro k r hlookup
    rw [registerCall_failed (by rw [hstatus]; decide)]
    exact hlookup

theorem documentedOutcome_of_seen (hvalid : (validSize sizeBytes && validStart start) = true)
    (hover : cache.overlapsRegistered start sizeBytes = true)
    (hmeets : cache.MeetsRegistered (granted mem start sizeBytes)) :
    DocumentedOutcome E cache (granted mem start sizeBytes) := by
  have hstatus : (cache.registerCall E (granted mem start sizeBytes)).1 = .overlappingRange := by
    rw [granted_status, hvalid, hover]
    rfl
  refine ⟨⟨fun h => ?_, fun h => absurd h (valid_iff.mp hvalid)⟩, ?_, ?_, ?_, ?_⟩
  · rw [hstatus] at h
    cases h
  · exact fun _ => ⟨fun _ => hmeets, fun _ => hstatus⟩
  · exact fun _ hno => absurd hmeets hno
  · rw [hstatus]
    decide
  · intro k r hlookup
    rw [registerCall_failed (by rw [hstatus]; decide)]
    exact hlookup

theorem documentedOutcome_of_apart (hkeyed : cache.Keyed)
    (hvalid : (validSize sizeBytes && validStart start) = true)
    (hover : cache.overlapsRegistered start sizeBytes = false)
    (hmeets : ¬cache.MeetsRegistered (granted mem start sizeBytes))
    (hwrap : (granted mem start sizeBytes).interval.NoWrap) :
    DocumentedOutcome E cache (granted mem start sizeBytes) := by
  have hstatus : (cache.registerCall E (granted mem start sizeBytes)).1 = .ok := by
    rw [granted_status, hvalid, hover]
    rfl
  rcases registerCall_cases E cache (granted mem start sizeBytes) with
    ⟨-, -, hno⟩ | ⟨-, -, r, hr, heq⟩
  · exact absurd (admissible_of_ok hstatus) hno
  have hdis : ∀ r', cache.Registered r' → r'.interval.Disjoint r.interval := by
    intro r' hr'
    rw [hr.interval]
    by_contra hmeet
    exact hmeets ⟨r', hr', hmeet⟩
  rw [← hr.interval] at hwrap
  refine ⟨⟨fun h => ?_, fun h => absurd h (valid_iff.mp hvalid)⟩, ?_, ?_, ?_, ?_⟩
  · rw [hstatus] at h
    cases h
  · refine fun _ => ⟨fun h => ?_, fun h => absurd h hmeets⟩
    rw [hstatus] at h
    cases h
  · refine fun _ _ => ⟨hstatus, r, hr, ?_, ?_⟩
    · intro p hp
      rw [heq]
      exact findRange_commit_of_covers hkeyed hdis hwrap (by rwa [hr.interval])
    · intro p hp
      rw [heq]
      exact findRange_commit_of_not_covers hkeyed hdis (by rwa [hr.interval])
  · rw [hstatus]
    decide
  · intro k r' hlookup
    have hmem := OrderedTable.lookup_eq_some.mp hlookup
    have hstart : r'.start = k := hkeyed (k, r') hmem
    have hne : k ≠ r.start := by
      intro hk
      refine hdis r' ⟨k, hmem⟩ k ⟨?_, ?_⟩
      · rw [← hstart]
        exact Interval.covers_start r'.size_pos
      · rw [hk]
        exact Interval.covers_start r.size_pos
    rw [heq]
    exact (OrderedTable.lookup_put_of_ne cache.ranges r hne).trans hlookup

theorem size_pos_of_valid (hvalid : (validSize sizeBytes && validStart start) = true) :
    0 < sizeBytes.toNat := by
  have hargs := valid_iff.mp hvalid
  omega

theorem documentedOutcome_of_settled (hkeyed : cache.Keyed)
    (h : (validSize sizeBytes && validStart start) = true →
      cache.Settled (granted mem start sizeBytes)) :
    DocumentedOutcome E cache (granted mem start sizeBytes) := by
  cases hvalid : validSize sizeBytes && validStart start with
  | false => exact documentedOutcome_of_invalid hvalid
  | true =>
      have hpos := size_pos_of_valid hvalid
      have hmeets : ∀ r, cache.Registered r → (granted mem start sizeBytes).interval.Seen r.interval →
          cache.MeetsRegistered (granted mem start sizeBytes) :=
        fun r hr hseen => ⟨r, hr, hseen.symm.not_disjoint hpos⟩
      cases hover : cache.overlapsRegistered start sizeBytes with
      | true =>
          obtain ⟨r, hr, hseen⟩ := (overlapsRegistered_eq_true hpos).mp hover
          exact documentedOutcome_of_seen hvalid hover (hmeets r hr hseen)
      | false =>
          rcases h hvalid with ⟨r, hr, hseen⟩ | ⟨hno, hwrap⟩
          · have hreported : cache.overlapsRegistered start sizeBytes = true :=
              (overlapsRegistered_eq_true hpos).mpr ⟨r, hr, hseen⟩
            rw [hreported] at hover
            cases hover
          · exact documentedOutcome_of_apart hkeyed hvalid hover hno hwrap

theorem settled_of_documentedOutcome (hkeyed : cache.Keyed)
    (h : DocumentedOutcome E cache (granted mem start sizeBytes))
    (hvalid : (validSize sizeBytes && validStart start) = true) :
    cache.Settled (granted mem start sizeBytes) := by
  have hpos := size_pos_of_valid hvalid
  cases hover : cache.overlapsRegistered start sizeBytes with
  | true => exact .inl ((overlapsRegistered_eq_true hpos).mp hover)
  | false =>
      have hstatus : (cache.registerCall E (granted mem start sizeBytes)).1 = .ok := by
        rw [granted_status, hvalid, hover]
        rfl
      have hargs : (cache.registerCall E (granted mem start sizeBytes)).1 ≠ .invalidArgument := by
        rw [hstatus]
        decide
      have hno : ¬cache.MeetsRegistered (granted mem start sizeBytes) := by
        intro hmeets
        have hreported := (h.overlapping hargs).mpr hmeets
        rw [hstatus] at hreported
        cases hreported
      refine .inr ⟨hno, ?_⟩
      by_contra hwrap
      obtain ⟨-, r, hr, hfound, -⟩ := h.accepted hargs hno
      have hzero : (granted mem start sizeBytes).interval.Covers 0 := by
        refine Interval.covers_iff_wrapped.mpr (.inr ?_)
        unfold Interval.NoWrap at hwrap
        simpa using hwrap
      refine findRange_zero_ne (register_keyed E hkeyed _) ?_ (hfound 0 hzero)
      rw [hr.interval]
      exact hwrap

end Outcome

/--
For every table that registrations leave behind and every pair of words, the
outcome is the documented one exactly when the arguments are invalid or the
call is settled.
-/
theorem documentedOutcome_iff (E : Env) (calls : List RegisterCall) (mem : Memory)
    (start sizeBytes : Addr) :
    DocumentedOutcome E (registerAll E calls) (granted mem start sizeBytes) ↔
      ((validSize sizeBytes && validStart start) = true →
        (registerAll E calls).Settled (granted mem start sizeBytes)) := by
  have hkeyed := registerAll_keyed E calls
  exact ⟨settled_of_documentedOutcome hkeyed, documentedOutcome_of_settled hkeyed⟩

/-- The same range a second time, at the end of the address space. -/
theorem topDuplicate_replaces :
    ((registerAll default [topCall]).registerCall default topCall).1 = .ok ∧
      ((registerAll default [topCall]).ranges.lookup topCall.start).map (·.storage) = some 0 ∧
      (((registerAll default [topCall]).registerCall default topCall).2.ranges.lookup
        topCall.start).map (·.storage) = some 1 ∧
      ¬DocumentedOutcome default (registerAll default [topCall]) topCall := by
  have hold : ((registerAll default [topCall]).ranges.lookup topCall.start).map
      (·.storage) = some 0 := by decide +kernel
  have hnew : (((registerAll default [topCall]).registerCall default topCall).2.ranges.lookup
      topCall.start).map (·.storage) = some 1 := by decide +kernel
  refine ⟨by decide +kernel, hold, hnew, fun h => ?_⟩
  obtain ⟨r, hlookup, hstorage⟩ := Option.map_eq_some_iff.mp hold
  rw [h.keeps topCall.start r hlookup, Option.map_some, hstorage] at hnew
  cases hnew

end PredecodeCache

end GabyVm.Cache
