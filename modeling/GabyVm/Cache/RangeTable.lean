import Mathlib.Data.List.Induction
import GabyVm.Cache.PredecodeCache

/-!
# The range table over sequences of registrations

`Table` collects what every registration must keep: records are keyed by
their start, the intervals are disjoint and do not run past the last address,
and no two records share an entry array.  `register_table` is the step lemma:
it holds for every call that does not slip past the overlap check.  A call can
slip only when it or the range it meets ends exactly at the end of the address
space, where the end that the check compares has wrapped to zero.
-/

namespace GabyVm.Cache

open GabyVm.Aarch64
open GabyVm.Foundation

/-- The arguments of one `RegisterCodeRange` call, with the memory it reads. -/
structure RegisterCall where
  mem : Memory
  start : Addr
  sizeBytes : Addr
  alloc : PredecodeCache.Allocation

namespace RegisterCall

def interval (call : RegisterCall) : Interval 64 := ⟨call.start, call.sizeBytes⟩

/-- Nothing but the overlap check can reject the call. -/
def Admissible (call : RegisterCall) : Prop :=
  PredecodeCache.validSize call.sizeBytes = true ∧
    PredecodeCache.validStart call.start = true ∧
    call.alloc.entries = true ∧ call.alloc.node = true

end RegisterCall

namespace PredecodeCache

def registerCall (E : Env) (cache : PredecodeCache) (call : RegisterCall) :
    RegistrationStatus × PredecodeCache :=
  cache.registerCodeRange E call.mem call.start call.sizeBytes call.alloc

/-- The table after a sequence of calls. -/
def registerAll (E : Env) (calls : List RegisterCall) : PredecodeCache :=
  calls.foldl (fun cache call => (cache.registerCall E call).2) empty

theorem registerAll_append (E : Env) (calls : List RegisterCall) (call : RegisterCall) :
    registerAll E (calls ++ [call]) = ((registerAll E calls).registerCall E call).2 := by
  simp [registerAll]

def Registered (cache : PredecodeCache) (r : RangeRecord) : Prop :=
  ∃ k, (k, r) ∈ cache.ranges.entries

/-! ## What a registration does -/

/-- The record that a successful call builds. -/
structure Builds (E : Env) (cache : PredecodeCache) (call : RegisterCall)
    (r : RangeRecord) : Prop where
  start : r.start = call.start
  sizeBytes : r.sizeBytes = call.sizeBytes
  storage : r.storage = cache.nextStorage
  entries : r.entries = predecode E call.mem call.start call.sizeBytes

theorem Builds.interval {E : Env} {cache : PredecodeCache} {call : RegisterCall}
    {r : RangeRecord} (h : Builds E cache call r) :
    r.interval = call.interval := by
  simp [RangeRecord.interval, RegisterCall.interval, h.start, h.sizeBytes]

/-- A call either leaves the table alone or commits one new record. -/
theorem registerCall_cases (E : Env) (cache : PredecodeCache) (call : RegisterCall) :
    ((cache.registerCall E call).2.ranges = cache.ranges ∧
        (cache.registerCall E call).2.nextStorage = cache.nextStorage ∧
        ¬(call.Admissible ∧ cache.overlapsRegistered call.start call.sizeBytes = false)) ∨
      call.Admissible ∧ cache.overlapsRegistered call.start call.sizeBytes = false ∧
        ∃ r, Builds E cache call r ∧ cache.registerCall E call = (.ok, cache.commit r) := by
  unfold registerCall registerCodeRange
  by_cases hsize : validSize call.sizeBytes = true
  · by_cases hstart : validStart call.start = true
    · rw [dif_pos hsize, dif_pos hstart]
      cases hover : cache.overlapsRegistered call.start call.sizeBytes with
      | true =>
          left
          simp [setError]
      | false =>
          cases hentries : call.alloc.entries with
          | false =>
              left
              simp [setError, RegisterCall.Admissible, hentries]
          | true =>
              cases hnode : call.alloc.node with
              | false =>
                  left
                  simp [setError, RegisterCall.Admissible, hnode]
              | true =>
                  right
                  refine ⟨⟨hsize, hstart, hentries, hnode⟩, rfl,
                    newRecord E call.mem call.start call.sizeBytes cache.nextStorage
                      hsize hstart, ⟨rfl, rfl, rfl, rfl⟩, ?_⟩
                  simp
    · left
      rw [dif_pos hsize, dif_neg hstart]
      simp [setError, RegisterCall.Admissible, hstart]
  · left
    rw [dif_neg hsize]
    simp [setError, RegisterCall.Admissible, hsize]

/-! ## The invariant -/

structure Table (cache : PredecodeCache) : Prop where
  keyed : ∀ e ∈ cache.ranges.entries, e.2.start = e.1
  disjoint : DisjointTable RangeRecord.sizeBytes cache.ranges
  storage_lt : ∀ e ∈ cache.ranges.entries, e.2.storage < cache.nextStorage

theorem Table.entryInterval_eq {cache : PredecodeCache} (h : cache.Table)
    {e : Addr × RangeRecord} (he : e ∈ cache.ranges.entries) :
    entryInterval RangeRecord.sizeBytes e = e.2.interval := by
  simp [entryInterval, RangeRecord.interval, h.keyed e he]

theorem empty_table : empty.Table where
  keyed := by simp [empty, OrderedTable.empty]
  disjoint := DisjointTable.empty
  storage_lt := by simp [empty, OrderedTable.empty]

theorem Table.congr {cache cache' : PredecodeCache} (h : cache.Table)
    (hranges : cache'.ranges = cache.ranges)
    (hnext : cache'.nextStorage = cache.nextStorage) :
    cache'.Table where
  keyed := by
    rw [hranges]
    exact h.keyed
  disjoint := by
    rw [hranges]
    exact h.disjoint
  storage_lt := by
    rw [hranges, hnext]
    exact h.storage_lt

theorem findRange_congr {cache cache' : PredecodeCache}
    (hranges : cache'.ranges = cache.ranges) (pc : Addr) :
    cache'.findRange pc = cache.findRange pc := by
  simp only [findRange, hranges]

/-! ## Lookup -/

theorem findRange_eq_locate {cache : PredecodeCache} (h : cache.Table) (pc : Addr) :
    cache.findRange pc = (locate RangeRecord.sizeBytes cache.ranges pc).map Prod.snd := by
  unfold findRange locate
  cases hfloor : cache.ranges.floor pc with
  | none => rfl
  | some e =>
      obtain ⟨k, r⟩ := e
      have hkey : r.start = k :=
        h.keyed (k, r) (OrderedTable.floor_eq_some.mp hfloor).1
      by_cases hc : r.contains pc = true
      · have hcov : (entryInterval RangeRecord.sizeBytes (k, r)).Covers pc := by
          rw [h.entryInterval_eq (OrderedTable.floor_eq_some.mp hfloor).1]
          exact RangeRecord.contains_iff.mp hc
        simp [hc, hcov]
      · have hcov : ¬(entryInterval RangeRecord.sizeBytes (k, r)).Covers pc := by
          rw [h.entryInterval_eq (OrderedTable.floor_eq_some.mp hfloor).1]
          exact fun hcov => hc (RangeRecord.contains_iff.mpr hcov)
        simp [hc, hcov]

/-- What `findRange` answers contains the program counter, whatever the table is. -/
theorem findRange_sound {cache : PredecodeCache} {pc : Addr} {r : RangeRecord}
    (h : cache.findRange pc = some r) :
    cache.Registered r ∧ r.contains pc = true := by
  unfold findRange at h
  split at h
  · cases h
  · rename_i k r' hfloor
    split_ifs at h with hc
    cases h
    exact ⟨⟨k, (OrderedTable.floor_eq_some.mp hfloor).1⟩, hc⟩

theorem findRange_eq_some {cache : PredecodeCache} (h : cache.Table) {pc : Addr}
    {r : RangeRecord} :
    cache.findRange pc = some r ↔ cache.Registered r ∧ r.contains pc = true := by
  constructor
  · exact findRange_sound
  · rintro ⟨⟨k, hmem⟩, hc⟩
    rw [findRange_eq_locate h]
    have hcov : (entryInterval RangeRecord.sizeBytes (k, r)).Covers pc := by
      rw [h.entryInterval_eq hmem]
      exact RangeRecord.contains_iff.mp hc
    rw [(locate_eq_some h.disjoint).mpr ⟨hmem, hcov⟩]
    rfl

theorem findRange_eq_none {cache : PredecodeCache} (h : cache.Table) {pc : Addr} :
    cache.findRange pc = none ↔ ∀ r, cache.Registered r → r.contains pc = false := by
  constructor
  · intro hnone r hr
    cases hc : r.contains pc with
    | false => rfl
    | true =>
        rw [(findRange_eq_some h).mpr ⟨hr, hc⟩] at hnone
        cases hnone
  · intro hno
    cases hfind : cache.findRange pc with
    | none => rfl
    | some r =>
        obtain ⟨hr, hc⟩ := findRange_sound hfind
        rw [hno r hr] at hc
        cases hc

theorem Table.contains_iff {cache : PredecodeCache} (h : cache.Table) {r : RangeRecord}
    (hr : cache.Registered r) (pc : Addr) :
    r.contains pc = true ↔
      r.start.toNat ≤ pc.toNat ∧ pc.toNat < r.start.toNat + r.sizeBytes.toNat := by
  obtain ⟨k, hmem⟩ := hr
  have hwrap : r.interval.NoWrap := by
    rw [← h.entryInterval_eq hmem]
    exact h.disjoint.noWrap (k, r) hmem
  rw [RangeRecord.contains_iff, Interval.covers_iff hwrap]
  rfl

/-! ## One registration -/

/-- Two ranges have an address in common. -/
def Meets (r s : Interval 64) : Prop :=
  r.start.toNat < s.start.toNat + s.size.toNat ∧ s.start.toNat < r.start.toNat + r.size.toNat

theorem Table.record_noWrap {cache : PredecodeCache} (h : cache.Table) {r : RangeRecord}
    (hr : cache.Registered r) :
    r.interval.NoWrap := by
  obtain ⟨k, hmem⟩ := hr
  rw [← h.entryInterval_eq hmem]
  exact h.disjoint.noWrap (k, r) hmem

theorem size_pos_of_admissible {call : RegisterCall} (h : call.Admissible) :
    0 < call.interval.size.toNat := by
  have hsize := h.1
  simp only [validSize, Bool.and_eq_true, bne_iff_ne] at hsize
  exact Nat.pos_of_ne_zero hsize.1

theorem disjoint_iff_not_meets {cache : PredecodeCache} (h : cache.Table)
    {r : RangeRecord} (hr : cache.Registered r) {call : RegisterCall}
    (hcall : call.Admissible) (hwrap : call.interval.NoWrap) :
    r.interval.Disjoint call.interval ↔ ¬Meets r.interval call.interval := by
  rw [Interval.disjoint_iff (h.record_noWrap hr) hwrap r.size_pos (size_pos_of_admissible hcall)]
  unfold Meets
  omega

theorem overlapsRegistered_eq_false {cache : PredecodeCache} {start sizeBytes : Addr} :
    cache.overlapsRegistered start sizeBytes = false ↔
      ∀ r, cache.Registered r → (⟨start, sizeBytes⟩ : Interval 64).overlaps r.interval = false := by
  rw [overlapsRegistered, List.any_eq_false]
  constructor
  · rintro h r ⟨k, hmem⟩
    exact Bool.not_eq_true _ ▸ h (k, r) hmem
  · rintro h ⟨k, r⟩ hmem
    exact Bool.not_eq_true _ ▸ h r ⟨k, hmem⟩

/--
The call is accepted although it meets a registered range: in every range it
meets, one of the two ends is the very end of the address space.
-/
def MissedOverlap (cache : PredecodeCache) (call : RegisterCall) : Prop :=
  call.Admissible ∧
    (∃ r, cache.Registered r ∧ Meets r.interval call.interval) ∧
    ∀ r, cache.Registered r → Meets r.interval call.interval →
      r.interval.EndsAtTop ∨ call.interval.EndsAtTop

theorem overlaps_eq_false_of_top {r s : Interval 64} (h : r.EndsAtTop ∨ s.EndsAtTop) :
    r.overlaps s = false := by
  rcases h with h | h
  · simp [Interval.overlaps, Interval.finish_eq_zero h]
  · simp [Interval.overlaps, Interval.finish_eq_zero h]

/-- The overlap check misses exactly the overlaps at the end of the address space. -/
theorem missedOverlap_iff {cache : PredecodeCache} (h : cache.Table) {call : RegisterCall}
    (hwrap : call.interval.NoWrap) :
    MissedOverlap cache call ↔
      call.Admissible ∧ cache.overlapsRegistered call.start call.sizeBytes = false ∧
        ∃ r, cache.Registered r ∧ Meets r.interval call.interval := by
  rw [overlapsRegistered_eq_false]
  constructor
  · rintro ⟨hcall, hmeet, htop⟩
    refine ⟨hcall, ?_, hmeet⟩
    intro r hr
    by_cases hmr : Meets r.interval call.interval
    · exact overlaps_eq_false_of_top (htop r hr hmr).symm
    · cases hov : call.interval.overlaps r.interval with
      | false => exact hov
      | true =>
          have hnot := Interval.not_disjoint_of_overlaps hwrap (h.record_noWrap hr)
            (size_pos_of_admissible hcall) r.size_pos hov
          have hdis := (disjoint_iff_not_meets h hr hcall hwrap).mpr hmr
          exact absurd hdis.symm hnot
  · rintro ⟨hcall, hover, hmeet⟩
    refine ⟨hcall, hmeet, ?_⟩
    intro r hr hmr
    by_contra htop
    rw [not_or] at htop
    have hov := (Interval.overlaps_iff hwrap (h.record_noWrap hr)
      (size_pos_of_admissible hcall) r.size_pos htop.2 htop.1).mpr
        (fun hdis => (disjoint_iff_not_meets h hr hcall hwrap).mp hdis.symm hmr)
    have hno : call.interval.overlaps r.interval = false := hover r hr
    rw [hno] at hov
    cases hov

/-- Every later lookup that succeeded before answers the same record. -/
def Extends (cache' cache : PredecodeCache) : Prop :=
  ∀ pc r, cache.findRange pc = some r → cache'.findRange pc = some r

theorem Extends.refl (cache : PredecodeCache) : cache.Extends cache :=
  fun _ _ h => h

theorem Extends.trans {a b c : PredecodeCache} (hcb : c.Extends b) (hba : b.Extends a) :
    c.Extends a :=
  fun pc r h => hcb pc r (hba pc r h)

theorem commit_table {cache : PredecodeCache} (h : cache.Table) {r : RangeRecord}
    (hwrap : r.interval.NoWrap) (hstorage : r.storage = cache.nextStorage)
    (hdis : ∀ r', cache.Registered r' → r'.interval.Disjoint r.interval) :
    (cache.commit r).Table where
  keyed := by
    intro e he
    rcases OrderedTable.mem_put.mp he with rfl | ⟨he, -⟩
    · rfl
    · exact h.keyed e he
  disjoint := by
    refine h.disjoint.put hwrap r.size_pos ?_
    intro e he
    rw [h.entryInterval_eq he]
    exact hdis e.2 ⟨e.1, he⟩
  storage_lt := by
    intro e he
    rcases OrderedTable.mem_put.mp he with rfl | ⟨he, -⟩
    · simp [commit, hstorage]
    · exact Nat.lt_succ_of_lt (h.storage_lt e he)

theorem commit_registered {cache : PredecodeCache} (h : cache.Table) {r : RangeRecord}
    (hdis : ∀ r', cache.Registered r' → r'.interval.Disjoint r.interval) {r' : RangeRecord} :
    (cache.commit r).Registered r' ↔ r' = r ∨ cache.Registered r' := by
  constructor
  · rintro ⟨k, hmem⟩
    rcases OrderedTable.mem_put.mp hmem with heq | ⟨hmem, -⟩
    · exact .inl (congrArg Prod.snd heq)
    · exact .inr ⟨k, hmem⟩
  · rintro (rfl | ⟨k, hmem⟩)
    · exact ⟨r'.start, OrderedTable.mem_put.mpr (.inl rfl)⟩
    · refine ⟨k, OrderedTable.mem_put.mpr (.inr ⟨hmem, ?_⟩)⟩
      intro hkey
      have hstart : r'.start = r.start := (h.keyed (k, r') hmem).trans hkey
      refine hdis r' ⟨k, hmem⟩ r.start ⟨?_, Interval.covers_start r.size_pos⟩
      rw [← hstart]
      exact Interval.covers_start r'.size_pos

/-- What an accepted call builds has no address of an earlier range. -/
theorem registered_disjoint {E : Env} {cache : PredecodeCache} (h : cache.Table)
    {call : RegisterCall} (hwrap : call.interval.NoWrap) (hmiss : ¬MissedOverlap cache call)
    (hcall : call.Admissible)
    (hover : cache.overlapsRegistered call.start call.sizeBytes = false) {r : RangeRecord}
    (hr : Builds E cache call r) :
    ∀ r', cache.Registered r' → r'.interval.Disjoint r.interval := by
  intro r' hr'
  rw [hr.interval]
  refine (disjoint_iff_not_meets h hr' hcall hwrap).mpr ?_
  intro hmeet
  exact hmiss ((missedOverlap_iff h hwrap).mpr ⟨hcall, hover, r', hr', hmeet⟩)

/-- One call keeps the invariant and every earlier answer, unless it slips past the check. -/
theorem register_table (E : Env) {cache : PredecodeCache} (h : cache.Table)
    {call : RegisterCall} (hwrap : call.interval.NoWrap) (hmiss : ¬MissedOverlap cache call) :
    (cache.registerCall E call).2.Table ∧ (cache.registerCall E call).2.Extends cache := by
  rcases registerCall_cases E cache call with
    ⟨hranges, hnext, -⟩ | ⟨hcall, hover, r, hr, heq⟩
  · refine ⟨h.congr hranges hnext, ?_⟩
    intro pc r hr
    rw [findRange_congr hranges]
    exact hr
  · have hdis := registered_disjoint h hwrap hmiss hcall hover hr
    have htable : (cache.commit r).Table :=
      commit_table h (by rwa [hr.interval]) hr.storage hdis
    rw [heq]
    refine ⟨htable, ?_⟩
    intro pc r' hr'
    obtain ⟨hreg, hc⟩ := (findRange_eq_some h).mp hr'
    exact (findRange_eq_some htable).mpr ⟨(commit_registered h hdis).mpr (.inr hreg), hc⟩

theorem admissible_of_ok {E : Env} {cache : PredecodeCache} {call : RegisterCall}
    (hok : (cache.registerCall E call).1 = .ok) :
    call.Admissible ∧ cache.overlapsRegistered call.start call.sizeBytes = false := by
  unfold registerCall registerCodeRange at hok
  split_ifs at hok with hsize hstart hover hentries hnode
  · cases hok
  · cases hok
  · cases hok
  · exact ⟨⟨hsize, hstart, by simpa using hentries, by simpa using hnode⟩, by simpa using hover⟩
  · cases hok
  · cases hok

theorem ok_of_admissible {E : Env} {cache : PredecodeCache} {call : RegisterCall}
    (hcall : call.Admissible)
    (hover : cache.overlapsRegistered call.start call.sizeBytes = false) :
    (cache.registerCall E call).1 = .ok := by
  rcases registerCall_cases E cache call with ⟨-, -, hno⟩ | ⟨-, -, r, -, heq⟩
  · exact absurd ⟨hcall, hover⟩ hno
  · rw [heq]

/-! ## Sequences of registrations -/

/-- What the table promises at one moment. -/
structure WellFormed (cache : PredecodeCache) : Prop where
  keyed : ∀ k r, (k, r) ∈ cache.ranges.entries → r.start = k
  start_aligned : ∀ r, cache.Registered r → r.start.toNat % 4 = 0
  size_aligned : ∀ r, cache.Registered r →
    0 < r.sizeBytes.toNat ∧ r.sizeBytes.toNat % 4 = 0
  entries_size : ∀ r, cache.Registered r → r.entries.size = r.sizeBytes.toNat / 4
  disjoint : ∀ r r', cache.Registered r → cache.Registered r' → r ≠ r' →
    ¬Meets r.interval r'.interval
  lookup : ∀ pc r, cache.findRange pc = some r ↔
    cache.Registered r ∧ r.start.toNat ≤ pc.toNat ∧
      pc.toNat < r.start.toNat + r.sizeBytes.toNat
  lookup_none : ∀ pc, cache.findRange pc = none ↔
    ∀ r, cache.Registered r → ¬(r.start.toNat ≤ pc.toNat ∧
      pc.toNat < r.start.toNat + r.sizeBytes.toNat)
  index : ∀ r pc, cache.Registered r → pc - r.start < r.sizeBytes →
    ((pc - r.start) >>> 2).toNat < r.entries.size

theorem Table.wellFormed {cache : PredecodeCache} (h : cache.Table) : cache.WellFormed where
  keyed := fun k r hmem => h.keyed (k, r) hmem
  start_aligned := fun r _ => r.start_aligned
  size_aligned := fun r _ => ⟨r.size_pos, r.size_aligned⟩
  entries_size := fun r _ => r.entries_size
  disjoint := by
    rintro r r' ⟨k, hmem⟩ ⟨k', hmem'⟩ hne
    have hkey : k ≠ k' := by
      rintro rfl
      exact hne (congrArg Prod.snd (OrderedTable.eq_of_mem hmem hmem' rfl))
    have hdis := h.disjoint.disjoint (k, r) hmem (k', r') hmem' hkey
    rw [h.entryInterval_eq hmem, h.entryInterval_eq hmem',
      Interval.disjoint_iff (h.record_noWrap ⟨k, hmem⟩) (h.record_noWrap ⟨k', hmem'⟩)
        r.size_pos r'.size_pos] at hdis
    unfold Meets
    omega
  lookup := by
    intro pc r
    rw [findRange_eq_some h]
    constructor
    · rintro ⟨hr, hc⟩
      exact ⟨hr, (h.contains_iff hr pc).mp hc⟩
    · rintro ⟨hr, hc⟩
      exact ⟨hr, (h.contains_iff hr pc).mpr hc⟩
  lookup_none := by
    intro pc
    rw [findRange_eq_none h]
    constructor
    · intro hno r hr hin
      have hc := (h.contains_iff hr pc).mpr hin
      rw [hno r hr] at hc
      cases hc
    · intro hno r hr
      cases hc : r.contains pc with
      | false => rfl
      | true => exact absurd ((h.contains_iff hr pc).mp hc) (hno r hr)
  index := by
    intro r pc _ hlt
    exact RangeRecord.entryIndex_lt (by simpa [RangeRecord.contains] using hlt)

/-- The table is well formed after every prefix of the calls, and only ever grows. -/
def AlwaysWellFormed (E : Env) (calls : List RegisterCall) : Prop :=
  ∀ pre, pre <+: calls → (registerAll E pre).WellFormed ∧
    ∀ mid, pre <+: mid → mid <+: calls → (registerAll E mid).Extends (registerAll E pre)

/-- No call of the sequence slips past the overlap check. -/
def NoMissedOverlap (E : Env) (calls : List RegisterCall) : Prop :=
  ∀ pre call, pre ++ [call] <+: calls → ¬MissedOverlap (registerAll E pre) call

theorem registerAll_table {E : Env} {calls : List RegisterCall}
    (hwrap : ∀ call ∈ calls, call.interval.NoWrap) (hmiss : NoMissedOverlap E calls) :
    (registerAll E calls).Table := by
  induction calls using List.reverseRecOn with
  | nil => exact empty_table
  | append_singleton calls call ih =>
      have hprev : (registerAll E calls).Table := by
        refine ih (fun c hc => hwrap c (by simp [hc])) ?_
        intro pre c hpre
        exact hmiss pre c (hpre.trans (List.prefix_append calls [call]))
      rw [registerAll_append]
      exact (register_table E hprev (hwrap call (by simp))
        (hmiss calls call List.prefix_rfl)).1

theorem registerAll_extends {E : Env} {calls more : List RegisterCall}
    (hwrap : ∀ call ∈ calls ++ more, call.interval.NoWrap)
    (hmiss : NoMissedOverlap E (calls ++ more)) :
    (registerAll E (calls ++ more)).Extends (registerAll E calls) := by
  induction more using List.reverseRecOn with
  | nil =>
      rw [List.append_nil]
      exact Extends.refl _
  | append_singleton more call ih =>
      rw [← List.append_assoc] at hwrap hmiss ⊢
      have hwrap' : ∀ c ∈ calls ++ more, c.interval.NoWrap :=
        fun c hc => hwrap c (List.mem_append_left _ hc)
      have hmiss' : NoMissedOverlap E (calls ++ more) :=
        fun pre c hpre => hmiss pre c (hpre.trans (List.prefix_append _ [call]))
      have hstep := register_table E (registerAll_table hwrap' hmiss')
        (hwrap call (by simp)) (hmiss (calls ++ more) call List.prefix_rfl)
      rw [registerAll_append]
      exact hstep.2.trans (ih hwrap' hmiss')

/-- The record the slipping call builds meets, or replaces, one that was there. -/
theorem missedOverlap_breaks {E : Env} {calls : List RegisterCall} {call : RegisterCall}
    (hwrap : call.interval.NoWrap) (htable : (registerAll E calls).Table)
    (hmiss : MissedOverlap (registerAll E calls) call) :
    ¬AlwaysWellFormed E (calls ++ [call]) := by
  intro h
  obtain ⟨hcall, hover, r, hr, hmeet⟩ := (missedOverlap_iff htable hwrap).mp hmiss
  rcases registerCall_cases E (registerAll E calls) call with
    ⟨-, -, hno⟩ | ⟨-, -, new, hnew, heq⟩
  · exact hno ⟨hcall, hover⟩
  · have hafter : registerAll E (calls ++ [call]) = (registerAll E calls).commit new := by
      rw [registerAll_append, heq]
    have hnewreg : (registerAll E (calls ++ [call])).Registered new := by
      rw [hafter]
      exact ⟨new.start, OrderedTable.mem_put.mpr (.inl rfl)⟩
    have hne : r ≠ new := by
      rintro rfl
      obtain ⟨k, hmem⟩ := hr
      have hlt := htable.storage_lt (k, r) hmem
      rw [hnew.storage] at hlt
      exact lt_irrefl _ hlt
    -- The old record is still found at its own start, so it is still registered.
    have hfind : (registerAll E calls).findRange r.start = some r :=
      (findRange_eq_some htable).mpr ⟨hr, RangeRecord.contains_iff.mpr
        (Interval.covers_start r.size_pos)⟩
    have hext := (h calls (List.prefix_append calls [call])).2 (calls ++ [call])
      (List.prefix_append calls [call]) List.prefix_rfl
    have hold := (findRange_sound (hext r.start r hfind)).1
    refine (h (calls ++ [call]) List.prefix_rfl).1.disjoint r new hold hnewreg hne ?_
    rw [hnew.interval]
    exact hmeet

theorem AlwaysWellFormed.of_prefix {E : Env} {calls pre : List RegisterCall}
    (h : AlwaysWellFormed E calls) (hpre : pre <+: calls) :
    AlwaysWellFormed E pre := by
  intro p hp
  obtain ⟨hwell, hext⟩ := h p (hp.trans hpre)
  exact ⟨hwell, fun mid hmid hmidpre => hext mid hmid (hmidpre.trans hpre)⟩

theorem noMissedOverlap_of_always {E : Env} {calls : List RegisterCall}
    (hwrap : ∀ call ∈ calls, call.interval.NoWrap) (h : AlwaysWellFormed E calls) :
    NoMissedOverlap E calls := by
  induction calls using List.reverseRecOn with
  | nil =>
      intro pre call hpre
      simp at hpre
  | append_singleton calls last ih =>
      have hwrap' : ∀ c ∈ calls, c.interval.NoWrap :=
        fun c hc => hwrap c (List.mem_append_left _ hc)
      have hmiss := ih hwrap' (h.of_prefix (List.prefix_append calls [last]))
      intro pre call hpre hmissed
      rcases List.prefix_concat_iff.mp hpre with heq | hpre
      · obtain ⟨rfl, hlast⟩ := List.append_inj' heq rfl
        obtain rfl : call = last := by simpa using hlast
        exact missedOverlap_breaks (hwrap call (by simp)) (registerAll_table hwrap' hmiss)
          hmissed h
      · exact hmiss pre call hpre hmissed

/--
Over every sequence of calls whose ranges do not run past the end of the
address space, the table is well formed and append-only exactly when no call
slips past the overlap check.
-/
theorem alwaysWellFormed_iff (E : Env) (calls : List RegisterCall)
    (hwrap : ∀ call ∈ calls, call.interval.NoWrap) :
    AlwaysWellFormed E calls ↔ NoMissedOverlap E calls := by
  constructor
  · exact noMissedOverlap_of_always hwrap
  · intro hmiss pre hpre
    obtain ⟨rest, rfl⟩ := hpre
    have hmiss' : NoMissedOverlap E pre :=
      fun p c hp => hmiss p c (hp.trans (List.prefix_append _ _))
    refine ⟨(registerAll_table (fun c hc => hwrap c (List.mem_append_left _ hc)) hmiss').wellFormed,
      ?_⟩
    rintro _ ⟨more, rfl⟩ hmid
    refine registerAll_extends (fun c hc => hwrap c (hmid.subset hc)) ?_
    exact fun p c hp => hmiss p c (hp.trans hmid)

/-- Two adjacent ranges, in the order opposite to their addresses. -/
def adjacentCalls : List RegisterCall :=
  [⟨fun _ => 0, 0x1008, 8, ⟨true, true⟩⟩, ⟨fun _ => 0, 0x1000, 8, ⟨true, true⟩⟩]

theorem alwaysWellFormed_iff_adjacent :
    AlwaysWellFormed default adjacentCalls ↔ NoMissedOverlap default adjacentCalls :=
  alwaysWellFormed_iff default adjacentCalls (by decide)

/-! ### The end of the address space -/

/-- The last two instructions of the address space. -/
def topCall : RegisterCall := ⟨fun _ => 0, 0xfffffffffffffff8, 8, ⟨true, true⟩⟩

/-- The last instruction, which the range of `topCall` already has. -/
def topOverlapCall : RegisterCall := ⟨fun _ => 0, 0xfffffffffffffffc, 4, ⟨true, true⟩⟩

theorem registered_singleton {E : Env} {call : RegisterCall} (hcall : call.Admissible) :
    ∃ r, (registerAll E [call]).Registered r ∧ r.interval = call.interval := by
  rcases registerCall_cases E empty call with ⟨-, -, hno⟩ | ⟨-, -, r, hr, heq⟩
  · exact absurd ⟨hcall, by simp [overlapsRegistered, empty, OrderedTable.empty]⟩ hno
  · refine ⟨r, ?_, hr.interval⟩
    simp only [registerAll, List.foldl_cons, List.foldl_nil, heq]
    exact ⟨r.start, OrderedTable.mem_put.mpr (.inl rfl)⟩

theorem not_missedOverlap_empty (call : RegisterCall) : ¬MissedOverlap empty call := by
  rintro ⟨-, ⟨r, ⟨k, hmem⟩, -⟩, -⟩
  cases hmem

theorem noMissedOverlap_singleton (E : Env) (call : RegisterCall) :
    NoMissedOverlap E [call] := by
  intro pre c hpre
  have hlen := hpre.length_le
  rw [List.length_append] at hlen
  obtain rfl : pre = [] := List.length_eq_zero_iff.mp (by simpa using hlen)
  exact not_missedOverlap_empty c

theorem topOverlap_missed : MissedOverlap (registerAll default [topCall]) topOverlapCall := by
  obtain ⟨r, hr, hinterval⟩ := registered_singleton (E := default)
    (show topCall.Admissible by unfold RegisterCall.Admissible; decide)
  refine ⟨?_, ⟨r, hr, ?_⟩, ?_⟩
  · unfold RegisterCall.Admissible
    decide
  · rw [hinterval]
    unfold Meets
    decide
  · intro _ _ _
    right
    unfold Interval.EndsAtTop
    decide

/-- Neither range runs past the end, both are accepted, and they overlap. -/
theorem topOverlap_breaks :
    (∀ call ∈ [topCall, topOverlapCall], call.interval.NoWrap) ∧
      ¬AlwaysWellFormed default [topCall, topOverlapCall] := by
  have htable : (registerAll default [topCall]).Table :=
    registerAll_table (by decide) (noMissedOverlap_singleton default topCall)
  exact ⟨by decide, missedOverlap_breaks (by decide) htable topOverlap_missed⟩

end PredecodeCache

end GabyVm.Cache
