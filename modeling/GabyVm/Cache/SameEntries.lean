import GabyVm.Cache.Dispatch
import GabyVm.Cache.PredecodePass
import GabyVm.Cache.Untagged

/-!
# Histories that cover the same addresses

An entry depends on the word it stands for, so a table is settled by the set of
addresses that its accepted calls cover.  Two histories that cover the same set
answer every lookup alike, in whatever order and into whatever ranges they
divide it, and so they do after any further call that both accept or reject.
-/

namespace GabyVm.Cache

open GabyVm.Aarch64
open GabyVm.Foundation

namespace PredecodeCache

variable {E : Env} {cache cache' : PredecodeCache} {calls calls' : List RegisterCall}
  {mem : Memory}

/-! ## Lookup and indexing -/

/-- `FindRange`, followed by the indexing of the range it answers. -/
def findEntry (cache : PredecodeCache) (pc : Addr) : Option PredecodedEntry :=
  match h : cache.findRange pc with
  | some r => some (r.entry pc (findRange_contains h))
  | none => none

theorem findEntry_eq {pc : Addr} {r : RangeRecord} (h : cache.findRange pc = some r) :
    cache.findEntry pc = some (r.entry pc (findRange_contains h)) := by
  unfold findEntry
  split
  · rename_i r' hr'
    obtain rfl : r' = r := Option.some.inj (hr'.symm.trans h)
    rfl
  · rename_i hnone
    rw [hnone] at h
    cases h

theorem findEntry_eq_none {pc : Addr} : cache.findEntry pc = none ↔ cache.findRange pc = none := by
  cases h : cache.findRange pc with
  | none =>
      unfold findEntry
      split
      · rename_i r hr
        rw [hr] at h
        cases h
      · simp
  | some r =>
      rw [findEntry_eq h]
      simp

/-- Whatever range is held, a step goes through the entry of the lookup. -/
theorem selectEntry_eq_findEntry (h : cache.Table) (range : Option Addr) (pc : Addr) :
    cache.selectEntry range pc = cache.findEntry pc := by
  have hrange := Shared.selectRange_eq_findRange h range pc
  unfold selectEntry
  split
  · rename_i r hr
    exact (findEntry_eq (hrange ▸ hr)).symm
  · rename_i hr
    exact (findEntry_eq_none.mpr (hrange ▸ hr)).symm

theorem findEntry_isSome (h : cache.Table) {pc : Addr} :
    (cache.findEntry pc).isSome = true ↔ ∃ r, cache.Registered r ∧ r.contains pc = true := by
  cases hfind : cache.findRange pc with
  | none =>
      rw [findEntry_eq_none.mpr hfind]
      simp only [Option.isSome_none, Bool.false_eq_true, false_iff, not_exists, not_and]
      intro r hr
      rw [(findRange_eq_none h).mp hfind r hr]
      simp
  | some r =>
      rw [findEntry_eq hfind]
      simp only [Option.isSome_some, true_iff]
      exact ⟨r, findRange_sound hfind⟩

/-! ## Histories -/

def Covered (E : Env) (calls : List RegisterCall) (a : Addr) : Prop :=
  ∃ pre call, Accepted E calls pre call ∧ call.interval.Covers a

/--
Every accepted range stays below the end of the address space and slips past no
other, and its code bytes are those of `mem`.
-/
structure CodeOf (E : Env) (mem : Memory) (calls : List RegisterCall) : Prop where
  noWrap : ∀ pre call, Accepted E calls pre call → call.interval.NoWrap
  seen : ∀ pre call, Accepted E calls pre call → ¬MissedOverlap (registerAll E pre) call
  bytes : ∀ pre call, Accepted E calls pre call →
    ∀ a, call.interval.Covers a → call.mem a = mem a

theorem Accepted.of_prefix {pre : List RegisterCall} {call : RegisterCall}
    (h : Accepted E calls pre call) (hcalls : calls <+: calls') :
    Accepted E calls' pre call :=
  ⟨h.isPrefix.trans hcalls, h.ok⟩

theorem CodeOf.of_prefix (h : CodeOf E mem calls') (hcalls : calls <+: calls') :
    CodeOf E mem calls where
  noWrap pre call hcall := h.noWrap pre call (hcall.of_prefix hcalls)
  seen pre call hcall := h.seen pre call (hcall.of_prefix hcalls)
  bytes pre call hcall := h.bytes pre call (hcall.of_prefix hcalls)

theorem registerCall_rejected {call : RegisterCall} (h : (cache.registerCall E call).1 ≠ .ok) :
    (cache.registerCall E call).2.ranges = cache.ranges ∧
      (cache.registerCall E call).2.nextStorage = cache.nextStorage := by
  rcases registerCall_cases E cache call with ⟨hranges, hnext, -⟩ | ⟨-, -, r, -, heq⟩
  · exact ⟨hranges, hnext⟩
  · exact absurd (congrArg Prod.fst heq) h

/-- One more call keeps the table and all of its earlier answers. -/
theorem CodeOf.append {call : RegisterCall} (h : CodeOf E mem (calls ++ [call]))
    (htable : (registerAll E calls).Table) :
    (registerAll E (calls ++ [call])).Table ∧
      (registerAll E (calls ++ [call])).Extends (registerAll E calls) := by
  rw [registerAll_append]
  by_cases hok : ((registerAll E calls).registerCall E call).1 = .ok
  · have haccepted : Accepted E (calls ++ [call]) calls call := ⟨List.prefix_rfl, hok⟩
    exact register_table E htable (h.noWrap _ _ haccepted) (h.seen _ _ haccepted)
  · obtain ⟨hranges, hnext⟩ := registerCall_rejected hok
    refine ⟨htable.congr hranges hnext, ?_⟩
    intro pc r hr
    rw [findRange_congr hranges]
    exact hr

theorem CodeOf.table (h : CodeOf E mem calls) : (registerAll E calls).Table := by
  induction calls using List.reverseRecOn with
  | nil => exact empty_table
  | append_singleton calls call ih =>
      exact (h.append (ih (h.of_prefix (List.prefix_append calls [call])))).1

theorem CodeOf.extends {more : List RegisterCall} (h : CodeOf E mem (calls ++ more)) :
    (registerAll E (calls ++ more)).Extends (registerAll E calls) := by
  induction more using List.reverseRecOn with
  | nil =>
      rw [List.append_nil]
      exact Extends.refl _
  | append_singleton more call ih =>
      rw [← List.append_assoc] at h ⊢
      have hfront := h.of_prefix (List.prefix_append (calls ++ more) [call])
      exact (h.append hfront.table).2.trans (ih hfront)

theorem registered_accepted {r : RangeRecord} (h : (registerAll E calls).Registered r) :
    ∃ pre call, Accepted E calls pre call ∧ Builds E (registerAll E pre) call r := by
  induction calls using List.reverseRecOn with
  | nil =>
      obtain ⟨k, hmem⟩ := h
      cases hmem
  | append_singleton calls call ih =>
      have hlift (hr : (registerAll E calls).Registered r) :
          ∃ pre c, Accepted E (calls ++ [call]) pre c ∧ Builds E (registerAll E pre) c r := by
        obtain ⟨pre, c, hc, hbuilds⟩ := ih hr
        exact ⟨pre, c, hc.of_prefix (List.prefix_append calls [call]), hbuilds⟩
      obtain ⟨k, hmem⟩ := h
      rw [registerAll_append] at hmem
      rcases registerCall_cases E (registerAll E calls) call with
        ⟨hranges, -, -⟩ | ⟨hcall, hover, new, hnew, heq⟩
      · rw [hranges] at hmem
        exact hlift ⟨k, hmem⟩
      · rw [heq] at hmem
        rcases OrderedTable.mem_put.mp hmem with hkr | ⟨hmem, -⟩
        · obtain rfl : r = new := congrArg Prod.snd hkr
          exact ⟨calls, call, ⟨List.prefix_rfl, ok_of_admissible hcall hover⟩, hnew⟩
        · exact hlift ⟨k, hmem⟩

theorem CodeOf.findEntry_isSome (h : CodeOf E mem calls) (pc : Addr) :
    ((registerAll E calls).findEntry pc).isSome = true ↔ Covered E calls pc := by
  rw [PredecodeCache.findEntry_isSome h.table]
  constructor
  · rintro ⟨r, hr, hcontains⟩
    obtain ⟨pre, call, hcall, hbuilds⟩ := registered_accepted hr
    exact ⟨pre, call, hcall, (hbuilds.contains_iff pc).mp hcontains⟩
  · rintro ⟨pre, call, hcall, hcovers⟩
    obtain ⟨r, hbuilds, hcommit⟩ := hcall.commits
    have hfront := h.of_prefix hcall.isPrefix
    have hreg : (registerAll E (pre ++ [call])).Registered r := by
      rw [hcommit]
      exact ⟨r.start, OrderedTable.mem_put.mpr (.inl rfl)⟩
    have hfind := (findRange_eq_some hfront.table).mpr
      ⟨hreg, (hbuilds.contains_iff pc).mpr hcovers⟩
    obtain ⟨more, rfl⟩ := hcall.isPrefix
    exact ⟨r, findRange_sound (h.extends pc r hfind)⟩

theorem CodeOf.findEntry_eq (h : CodeOf E mem calls) {pc : Addr} {entry : PredecodedEntry}
    (hentry : (registerAll E calls).findEntry pc = some entry) :
    entry = predecodeWord E (readWord mem (wordStart pc)) := by
  cases hfind : (registerAll E calls).findRange pc with
  | none =>
      rw [findEntry_eq_none.mpr hfind] at hentry
      cases hentry
  | some r =>
      rw [PredecodeCache.findEntry_eq hfind] at hentry
      cases hentry
      obtain ⟨pre, call, hcall, hbuilds⟩ := registered_accepted (findRange_sound hfind).1
      exact hbuilds.entry_eq (h.bytes pre call hcall) _

theorem CodeOf.findEntry_covered (h : CodeOf E mem calls) {pc : Addr}
    (hcovered : Covered E calls pc) :
    (registerAll E calls).findEntry pc =
      some (predecodeWord E (readWord mem (wordStart pc))) := by
  obtain ⟨entry, hentry⟩ := Option.isSome_iff_exists.mp ((h.findEntry_isSome pc).mpr hcovered)
  rw [hentry, h.findEntry_eq hentry]

theorem CodeOf.findEntry_uncovered (h : CodeOf E mem calls) {pc : Addr}
    (hcovered : ¬Covered E calls pc) :
    (registerAll E calls).findEntry pc = none := by
  rw [← h.findEntry_isSome pc] at hcovered
  simpa using hcovered

/-! ## Tables that answer alike -/

structure SameEntries (cache cache' : PredecodeCache) : Prop where
  table : cache.Table
  table' : cache'.Table
  entry : ∀ pc, cache.findEntry pc = cache'.findEntry pc

theorem sameEntries_of_covered (h : CodeOf E mem calls) (h' : CodeOf E mem calls')
    (hcovered : ∀ a, Covered E calls a ↔ Covered E calls' a) :
    SameEntries (registerAll E calls) (registerAll E calls') where
  table := h.table
  table' := h'.table
  entry pc := by
    by_cases hpc : Covered E calls pc
    · rw [h.findEntry_covered hpc, h'.findEntry_covered ((hcovered pc).mp hpc)]
    · rw [h.findEntry_uncovered hpc,
        h'.findEntry_uncovered fun hpc' => hpc ((hcovered pc).mpr hpc')]

/-- No range ends at the very end of the address space. -/
def TopFree (cache : PredecodeCache) : Prop :=
  ∀ r, cache.Registered r → ¬r.interval.EndsAtTop

theorem TopFree.congr (h : cache.TopFree) (hranges : cache'.ranges = cache.ranges) :
    cache'.TopFree := by
  rintro r ⟨k, hmem⟩
  rw [hranges] at hmem
  exact h r ⟨k, hmem⟩

theorem findEntry_congr (hranges : cache'.ranges = cache.ranges) (pc : Addr) :
    cache'.findEntry pc = cache.findEntry pc := by
  have hrange := findRange_congr hranges pc
  cases hfind : cache.findRange pc with
  | none => rw [findEntry_eq_none.mpr hfind, findEntry_eq_none.mpr (hrange.trans hfind)]
  | some r => rw [findEntry_eq hfind, findEntry_eq (hrange.trans hfind)]

/-- Below the end the overlap check asks whether a lookup answers in the range. -/
theorem overlapsRegistered_iff (h : cache.Table) (hfree : cache.TopFree) {call : RegisterCall}
    (hsize : validSize call.sizeBytes = true) (hwrap : call.interval.NoWrap)
    (htop : ¬call.interval.EndsAtTop) :
    cache.overlapsRegistered call.start call.sizeBytes = true ↔
      ∃ pc, call.interval.Covers pc ∧ (cache.findEntry pc).isSome = true := by
  have hpos : 0 < call.interval.size.toNat := by
    simp only [validSize, Bool.and_eq_true, bne_iff_ne] at hsize
    exact Nat.pos_of_ne_zero hsize.1
  rw [← Bool.not_eq_false, overlapsRegistered_eq_false]
  simp only [not_forall, Bool.not_eq_false, PredecodeCache.findEntry_isSome h]
  constructor
  · rintro ⟨r, hr, hover⟩
    have hmeet := (Interval.overlaps_iff hwrap (h.record_noWrap hr) hpos r.size_pos htop
      (hfree r hr)).mp hover
    obtain ⟨pc, hpc⟩ := not_forall.mp hmeet
    obtain ⟨hcall, hrange⟩ := not_not.mp hpc
    exact ⟨pc, hcall, r, hr, RangeRecord.contains_iff.mpr hrange⟩
  · rintro ⟨pc, hcall, r, hr, hcontains⟩
    refine ⟨r, hr, (Interval.overlaps_iff hwrap (h.record_noWrap hr) hpos r.size_pos htop
      (hfree r hr)).mpr ?_⟩
    intro hdis
    exact hdis pc ⟨hcall, RangeRecord.contains_iff.mp hcontains⟩

theorem findEntry_commit (h : cache.Table) {r : RangeRecord} (htable : (cache.commit r).Table)
    (hdis : ∀ r', cache.Registered r' → r'.interval.Disjoint r.interval) (pc : Addr) :
    (cache.commit r).findEntry pc =
      if hpc : r.contains pc = true then some (r.entry pc hpc) else cache.findEntry pc := by
  split_ifs with hpc
  · exact findEntry_eq ((findRange_eq_some htable).mpr
      ⟨(commit_registered h hdis).mpr (.inl rfl), hpc⟩)
  · cases hfind : cache.findRange pc with
    | some r' =>
        have hkept := (findRange_eq_some htable).mpr
          ⟨(commit_registered h hdis).mpr (.inr (findRange_sound hfind).1),
            (findRange_sound hfind).2⟩
        rw [findEntry_eq hfind, findEntry_eq hkept]
    | none =>
        rw [findEntry_eq_none.mpr hfind, findEntry_eq_none, findRange_eq_none htable]
        intro r' hr'
        rcases (commit_registered h hdis).mp hr' with rfl | hold
        · simpa using hpc
        · exact (findRange_eq_none h).mp hfind r' hold

/-- The range ends before the last address. -/
def BelowTop (call : RegisterCall) : Prop :=
  call.start.toNat + call.sizeBytes.toNat < 2 ^ 64

instance (call : RegisterCall) : Decidable (BelowTop call) :=
  inferInstanceAs (Decidable (_ < _))

theorem BelowTop.noWrap {call : RegisterCall} (h : BelowTop call) : call.interval.NoWrap :=
  Nat.le_of_lt h

theorem BelowTop.not_endsAtTop {call : RegisterCall} (h : BelowTop call) :
    ¬call.interval.EndsAtTop :=
  Nat.ne_of_lt h

theorem TopFree.not_missedOverlap (hfree : cache.TopFree) {call : RegisterCall}
    (hcall : BelowTop call) :
    ¬MissedOverlap cache call := by
  rintro ⟨-, ⟨r, hr, hmeet⟩, htop⟩
  rcases htop r hr hmeet with hend | hend
  · exact hfree r hr hend
  · exact hcall.not_endsAtTop hend

theorem TopFree.registerCall (hfree : cache.TopFree) {call : RegisterCall}
    (hcall : BelowTop call) :
    (cache.registerCall E call).2.TopFree := by
  rcases registerCall_cases E cache call with ⟨hranges, -, -⟩ | ⟨-, -, r, hr, heq⟩
  · exact hfree.congr hranges
  · rw [heq]
    rintro r' ⟨k, hmem⟩
    rcases OrderedTable.mem_put.mp hmem with hnew | ⟨hmem, -⟩
    · obtain rfl : r' = r := congrArg Prod.snd hnew
      rw [hr.interval]
      exact hcall.not_endsAtTop
    · exact hfree r' ⟨k, hmem⟩

theorem TopFree.registerAll (h : ∀ call ∈ calls, BelowTop call) :
    (registerAll E calls).TopFree := by
  induction calls using List.reverseRecOn with
  | nil =>
      rintro r ⟨k, hmem⟩
      cases hmem
  | append_singleton calls call ih =>
      rw [registerAll_append]
      exact (ih fun c hc => h c (by simp [hc])).registerCall (h call (by simp))

/-- Calls below the end of the address space slip past no range. -/
theorem codeOf_of_belowTop (h : ∀ call ∈ calls, BelowTop call)
    (hbytes : ∀ call ∈ calls, ∀ a, call.interval.Covers a → call.mem a = mem a) :
    CodeOf E mem calls where
  noWrap pre call hcall := (h call (hcall.isPrefix.subset (by simp))).noWrap
  seen pre call hcall := by
    have hfront : pre <+: calls := (List.prefix_append pre [call]).trans hcall.isPrefix
    have hfree : (PredecodeCache.registerAll E pre).TopFree :=
      .registerAll fun c hc => h c (hfront.subset hc)
    exact hfree.not_missedOverlap (h call (hcall.isPrefix.subset (by simp)))
  bytes pre call hcall := hbytes call (hcall.isPrefix.subset (by simp))

theorem covered_nil (a : Addr) : ¬Covered E [] a := by
  rintro ⟨pre, call, hcall, -⟩
  have hlen := hcall.isPrefix.length_le
  simp at hlen

theorem covered_append {call : RegisterCall} (a : Addr) :
    Covered E (calls ++ [call]) a ↔
      Covered E calls a ∨
        ((PredecodeCache.registerAll E calls).registerCall E call).1 = .ok ∧
          call.interval.Covers a := by
  constructor
  · rintro ⟨pre, last, hlast, hcovers⟩
    rcases List.prefix_concat_iff.mp hlast.isPrefix with heq | hfront
    · obtain ⟨rfl, hcall⟩ := List.append_inj' heq rfl
      obtain rfl : last = call := by simpa using hcall
      exact .inr ⟨hlast.ok, hcovers⟩
    · exact .inl ⟨pre, last, ⟨hfront, hlast.ok⟩, hcovers⟩
  · rintro (⟨pre, last, hlast, hcovers⟩ | ⟨hok, hcovers⟩)
    · exact ⟨pre, last, hlast.of_prefix (List.prefix_append calls [call]), hcovers⟩
    · exact ⟨calls, call, ⟨List.prefix_rfl, hok⟩, hcovers⟩

/-- The answer of a call depends on the table through the overlap check only. -/
theorem registerCall_status_congr {call : RegisterCall}
    (h : validSize call.sizeBytes = true →
      cache.overlapsRegistered call.start call.sizeBytes =
        cache'.overlapsRegistered call.start call.sizeBytes) :
    (cache.registerCall E call).1 = (cache'.registerCall E call).1 := by
  unfold PredecodeCache.registerCall registerCodeRange
  by_cases hsize : validSize call.sizeBytes = true
  · rw [h hsize]
    by_cases hstart : validStart call.start = true
    · simp only [hsize, hstart, dite_true]
      cases cache'.overlapsRegistered call.start call.sizeBytes with
      | true => rfl
      | false => cases call.alloc.entries <;> cases call.alloc.node <;> rfl
    · simp only [hsize, hstart, dite_true]
      rfl
  · simp only [hsize]
    rfl

theorem Builds.entry_congr {call : RegisterCall} {r r' : RangeRecord}
    (hr : Builds E cache call r) (hr' : Builds E cache' call r') {pc : Addr}
    (h : r.contains pc = true) (h' : r'.contains pc = true) :
    r.entry pc h = r'.entry pc h' := by
  rw [hr.entry_eq (fun _ _ => rfl) h, hr'.entry_eq (fun _ _ => rfl) h']

namespace SameEntries

theorem overlapsRegistered (h : SameEntries cache cache') (hfree : cache.TopFree)
    (hfree' : cache'.TopFree) {call : RegisterCall} (hcall : BelowTop call)
    (hsize : validSize call.sizeBytes = true) :
    cache.overlapsRegistered call.start call.sizeBytes =
      cache'.overlapsRegistered call.start call.sizeBytes := by
  rw [Bool.eq_iff_iff,
    overlapsRegistered_iff h.table hfree hsize hcall.noWrap hcall.not_endsAtTop,
    overlapsRegistered_iff h.table' hfree' hsize hcall.noWrap hcall.not_endsAtTop]
  simp only [h.entry]

/-- Both tables answer the call alike, and answer lookups alike after it. -/
theorem registerCall (h : SameEntries cache cache') (hfree : cache.TopFree)
    (hfree' : cache'.TopFree) {call : RegisterCall} (hcall : BelowTop call) :
    (cache.registerCall E call).1 = (cache'.registerCall E call).1 ∧
      SameEntries (cache.registerCall E call).2 (cache'.registerCall E call).2 := by
  have hstatus : (cache.registerCall E call).1 = (cache'.registerCall E call).1 :=
    registerCall_status_congr fun hsize => h.overlapsRegistered hfree hfree' hcall hsize
  have hmiss := hfree.not_missedOverlap hcall
  have hmiss' := hfree'.not_missedOverlap hcall
  have htable := (register_table E h.table hcall.noWrap hmiss).1
  have htable' := (register_table E h.table' hcall.noWrap hmiss').1
  refine ⟨hstatus, htable, htable', ?_⟩
  intro pc
  by_cases hok : (cache.registerCall E call).1 = .ok
  · obtain ⟨hadmissible, hover⟩ := admissible_of_ok hok
    obtain ⟨-, hover'⟩ := admissible_of_ok (hstatus ▸ hok)
    rcases registerCall_cases E cache call with ⟨-, -, hno⟩ | ⟨-, -, r, hr, heq⟩
    · exact absurd ⟨hadmissible, hover⟩ hno
    rcases registerCall_cases E cache' call with ⟨-, -, hno⟩ | ⟨-, -, r', hr', heq'⟩
    · exact absurd ⟨hadmissible, hover'⟩ hno
    have hdis := registered_disjoint h.table hcall.noWrap hmiss hadmissible hover hr
    have hdis' := registered_disjoint h.table' hcall.noWrap hmiss' hadmissible hover' hr'
    rw [heq] at htable ⊢
    rw [heq'] at htable' ⊢
    rw [findEntry_commit h.table htable hdis, findEntry_commit h.table' htable' hdis', h.entry]
    by_cases hpc : call.interval.Covers pc
    · have hcontains := (hr.contains_iff pc).mpr hpc
      have hcontains' := (hr'.contains_iff pc).mpr hpc
      rw [dif_pos hcontains, dif_pos hcontains', hr.entry_congr hr' hcontains hcontains']
    · rw [dif_neg fun hc => hpc ((hr.contains_iff pc).mp hc),
        dif_neg fun hc => hpc ((hr'.contains_iff pc).mp hc)]
  · rw [findEntry_congr (registerCall_rejected hok).1, h.entry,
      findEntry_congr (registerCall_rejected (hstatus ▸ hok)).1]

end SameEntries

/-! ## Program counters inside a word -/

def oneWord : List RegisterCall := [⟨fun _ => 0, 0x1000, 4, ⟨true, true⟩⟩]

/-- A program counter inside a word is given the entry of the word. -/
theorem misaligned_found :
    ¬∀ (calls : List RegisterCall) (mem : Memory), CodeOf default mem calls →
      ∀ pc, ¬(Covered default calls pc ∧ isWordAligned pc = true) →
        (PredecodeCache.registerAll default calls).findEntry pc = none := by
  intro h
  have hcode : CodeOf default (fun _ => 0) oneWord :=
    codeOf_of_belowTop (by decide) fun call hcall a _ => by
      obtain rfl := List.mem_singleton.mp hcall
      rfl
  have hnone := h oneWord (fun _ => 0) hcode 0x1001 fun hpc => absurd hpc.2 (by decide)
  have hcovered : Covered default ([] ++ oneWord) 0x1001 :=
    (covered_append 0x1001).mpr (.inr ⟨by decide +kernel, by decide⟩)
  rw [hcode.findEntry_covered hcovered] at hnone
  cases hnone

end PredecodeCache

end GabyVm.Cache
