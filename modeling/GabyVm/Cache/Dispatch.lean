import GabyVm.Cache.RangeTable

/-!
# The range shortcut of many simulators on one cache

Any number of simulators share a cache.  Each has a cursor, with its program
counter and a pointer to the range it used last, and a stack of cursors saved
by nested calls.  Registrations, the parts of a cache-track step, and entries
and exits of nested calls interleave freely.

The program counter is what `WritePc` (which strips the tag) and `IncrementPc`
leave, so a step only ever happens below the tag bits or at the first word
after them.  The ranges there cannot slip past the overlap check, whose ends
wrap only at the top of the address space.  A step therefore goes through the
range that a fresh lookup would answer.
-/

namespace GabyVm.Cache

open GabyVm.Aarch64
open GabyVm.Foundation

/-- The part of the interpreter cursor that dispatch reads. -/
structure DispatchCursor where
  pc : Addr
  curRange : Option Addr
  pcModified : Bool
  deriving DecidableEq

structure SimPosition where
  cursor : DispatchCursor
  /-- A step has fetched its entry and not yet reached `IncrementPc`. -/
  stepping : Bool
  /-- The cursors that nested calls will restore, innermost first. -/
  saved : List DispatchCursor

structure Shared where
  cache : PredecodeCache
  sims : Nat → SimPosition

inductive DispatchEvent where
  | register (call : RegisterCall)
  /-- `WritePc`, by an execution call, a register write or a taken branch. -/
  | seat (i : Nat) (target : Addr)
  | fetch (i : Nat)
  /-- The end of the step, with its `IncrementPc`. -/
  | retire (i : Nat)
  | enterNested (i : Nat)
  | leaveNested (i : Nat)

namespace Shared

def init : Shared := ⟨.empty, fun _ => ⟨⟨0, none, false⟩, false, []⟩⟩

def setSim (s : Shared) (i : Nat) (p : SimPosition) : Shared :=
  { s with sims := fun j => if j = i then p else s.sims j }

def pc (s : Shared) (i : Nat) : Addr := (s.sims i).cursor.pc

/-- The range that simulator `i` would step through; `none` is the abort. -/
def dispatch (s : Shared) (i : Nat) : Option RangeRecord :=
  s.cache.selectRange (s.sims i).cursor.curRange (s.pc i)

def writePc (c : DispatchCursor) (target : Addr) : DispatchCursor :=
  { c with pc := addressUntag target, pcModified := true }

def incrementPc (c : DispatchCursor) : DispatchCursor :=
  if c.pcModified then c else { c with pc := c.pc + instructionSize }

def next (E : Env) (s : Shared) : DispatchEvent → Shared
  | .register call => { s with cache := (s.cache.registerCall E call).2 }
  | .seat i target =>
      let p := s.sims i
      s.setSim i { p with cursor := writePc p.cursor target }
  | .fetch i =>
      let p := s.sims i
      match s.dispatch i with
      | none => s
      | some _ =>
          let range := s.cache.refreshRange p.cursor.curRange p.cursor.pc
          s.setSim i { p with cursor := ⟨p.cursor.pc, range, false⟩, stepping := true }
  | .retire i =>
      let p := s.sims i
      if p.stepping then s.setSim i ⟨incrementPc p.cursor, false, p.saved⟩ else s
  | .enterNested i =>
      -- Only a call from inside a step saves the cursor.
      let p := s.sims i
      if p.stepping then s.setSim i ⟨p.cursor, false, p.cursor :: p.saved⟩ else s
  | .leaveNested i =>
      match (s.sims i).saved with
      | [] => s
      | cursor :: rest => s.setSim i ⟨cursor, true, rest⟩

def run (E : Env) (events : List DispatchEvent) : Shared :=
  events.foldl (next E) init

theorem run_append (E : Env) (events : List DispatchEvent) (e : DispatchEvent) :
    run E (events ++ [e]) = (run E events).next E e := by
  simp [run]

theorem selectRange_eq_of_unique {cache : PredecodeCache} {pc : Addr}
    (h : ∀ r, cache.Registered r → r.contains pc = true → cache.findRange pc = some r)
    (range : Option Addr) :
    cache.selectRange range pc = cache.findRange pc := by
  unfold PredecodeCache.selectRange
  cases hderef : cache.deref range with
  | none => rfl
  | some r =>
      obtain ⟨k, -, hlookup⟩ := Option.bind_eq_some_iff.mp hderef
      cases hc : r.contains pc with
      | false => simp [hc]
      | true => simp [hc, h r ⟨k, OrderedTable.lookup_eq_some.mp hlookup⟩ hc]

theorem selectRange_eq_findRange {cache : PredecodeCache} (h : cache.Table)
    (range : Option Addr) (pc : Addr) :
    cache.selectRange range pc = cache.findRange pc :=
  selectRange_eq_of_unique
    (fun _ hr hc => (PredecodeCache.findRange_eq_some h).mpr ⟨hr, hc⟩) range

/-! ## Ranges below the tag bits -/

/-- The null address with a tag; it is the first address after the untagged ones. -/
def taggedNull : Addr := 0x0100000000000000

/-- What a program counter can be. -/
def Seated (pc : Addr) : Prop := pc.toNat < 2 ^ 56 + 4

theorem seated_of_lt {pc : Addr} (h : pc.toNat < 2 ^ 56) : Seated pc := by
  unfold Seated
  omega

theorem addressUntag_lt (a : Addr) : (addressUntag a).toNat < 2 ^ 56 := by
  rw [addressUntag_toNat]
  exact Nat.mod_lt _ (by decide)

/-- The ranges a host can have code in: its last word, and no null address in between. -/
structure Readable (r : Interval 64) : Prop where
  noWrap : r.NoWrap
  skipsNull : ¬r.Covers taggedNull

theorem Readable.finish_le {r : Interval 64} (h : Readable r) (hstart : r.start.toNat < 2 ^ 56) :
    r.start.toNat + r.size.toNat ≤ 2 ^ 56 := by
  have hnull : taggedNull.toNat = 2 ^ 56 := rfl
  have hskips := h.skipsNull
  rw [Interval.covers_iff h.noWrap, hnull] at hskips
  omega

/-- A range at or above the tag bits has its start after the tagged null address. -/
theorem Readable.lt_start {r : Interval 64} (h : Readable r) (hpos : 0 < r.size.toNat)
    (hstart : 2 ^ 56 ≤ r.start.toNat) :
    2 ^ 56 < r.start.toNat := by
  have hnull : taggedNull.toNat = 2 ^ 56 := rfl
  have hskips := h.skipsNull
  rw [Interval.covers_iff h.noWrap, hnull] at hskips
  omega

/-- The overlap check sees every range that meets one below the tag bits. -/
theorem Readable.disjoint {r s : Interval 64} (hr : Readable r) (hs : Readable s)
    (hrpos : 0 < r.size.toNat) (hspos : 0 < s.size.toNat) (hlow : r.start.toNat < 2 ^ 56)
    (hover : r.overlaps s = false) :
    r.Disjoint s := by
  have hrend := hr.finish_le hlow
  by_cases hslow : s.start.toNat < 2 ^ 56
  · -- Neither end is the wrapped one, so that the check is exact.
    have hsend := hs.finish_le hslow
    have hrtop : ¬r.EndsAtTop := by
      unfold Interval.EndsAtTop
      omega
    have hstop : ¬s.EndsAtTop := by
      unfold Interval.EndsAtTop
      omega
    by_contra hmeet
    rw [(Interval.overlaps_iff hr.noWrap hs.noWrap hrpos hspos hrtop hstop).mpr hmeet] at hover
    cases hover
  · have hsstart := hs.lt_start hspos (not_lt.mp hslow)
    rw [Interval.disjoint_iff hr.noWrap hs.noWrap hrpos hspos]
    omega

/-- What a table keeps about the ranges that a program counter can be in. -/
structure UserTable (cache : PredecodeCache) : Prop where
  keyed : ∀ e ∈ cache.ranges.entries, e.2.start = e.1
  readable : ∀ r, cache.Registered r → Readable r.interval
  apart : ∀ r s, cache.Registered r → cache.Registered s → r.start.toNat < 2 ^ 56 → r ≠ s →
    r.interval.Disjoint s.interval

theorem empty_userTable : UserTable .empty where
  keyed := by simp [PredecodeCache.empty, OrderedTable.empty]
  readable := by simp [PredecodeCache.Registered, PredecodeCache.empty, OrderedTable.empty]
  apart := by simp [PredecodeCache.Registered, PredecodeCache.empty, OrderedTable.empty]

namespace UserTable

theorem contains_iff {cache : PredecodeCache} (h : UserTable cache) {r : RangeRecord}
    (hr : cache.Registered r) (pc : Addr) :
    r.contains pc = true ↔
      r.start.toNat ≤ pc.toNat ∧ pc.toNat < r.start.toNat + r.sizeBytes.toNat := by
  rw [RangeRecord.contains_iff, Interval.covers_iff (h.readable r hr).noWrap]
  rfl

/-- No step happens at the word after the untagged addresses. -/
theorem low_of_contains {cache : PredecodeCache} (h : UserTable cache) {r : RangeRecord}
    (hr : cache.Registered r) {pc : Addr} (hpc : Seated pc) (hc : r.contains pc = true) :
    r.start.toNat < 2 ^ 56 ∧ pc.toNat < 2 ^ 56 := by
  have hin := (h.contains_iff hr pc).mp hc
  have halign := r.start_aligned
  have hlow : r.start.toNat < 2 ^ 56 := by
    by_contra hhigh
    have hstart : 2 ^ 56 < r.start.toNat :=
      (h.readable r hr).lt_start r.size_pos (not_lt.mp hhigh)
    unfold Seated at hpc
    omega
  have hend : r.start.toNat + r.sizeBytes.toNat ≤ 2 ^ 56 := (h.readable r hr).finish_le hlow
  omega

theorem findRange_eq_some {cache : PredecodeCache} (h : UserTable cache) {pc : Addr}
    (hpc : Seated pc) {r : RangeRecord} :
    cache.findRange pc = some r ↔ cache.Registered r ∧ r.contains pc = true := by
  constructor
  · exact PredecodeCache.findRange_sound
  · rintro ⟨hr, hc⟩
    obtain ⟨k, hmem⟩ := hr
    have hkey : r.start = k := h.keyed (k, r) hmem
    have hlow := h.low_of_contains ⟨k, hmem⟩ hpc hc
    have hin := (h.contains_iff ⟨k, hmem⟩ pc).mp hc
    have hfloor : cache.ranges.floor pc = some (k, r) := by
      refine OrderedTable.floor_eq_some.mpr ⟨hmem, ?_, ?_⟩
      · rw [← hkey]
        exact BitVec.le_def.mpr hin.1
      · intro x hx hxpc
        by_contra hlt
        -- A later start at or below the program counter would lie in both ranges.
        have hxkey : x.2.start = x.1 := h.keyed x hx
        have hne : r ≠ x.2 := by
          rintro rfl
          exact hlt (by rw [← hxkey, hkey])
        have hx' : cache.Registered x.2 := ⟨x.1, hx⟩
        refine h.apart r x.2 ⟨k, hmem⟩ hx' hlow.1 hne x.2.start
          ⟨RangeRecord.contains_iff.mp ((h.contains_iff ⟨k, hmem⟩ _).mpr ?_),
            Interval.covers_start x.2.size_pos⟩
        have hafter : k.toNat < x.1.toNat := BitVec.lt_def.mp (not_le.mp hlt)
        have hbefore : x.1.toNat ≤ pc.toNat := BitVec.le_def.mp hxpc
        rw [hxkey, hkey]
        rw [hkey] at hin
        omega
    simp [PredecodeCache.findRange, hfloor, hc]

theorem selectRange_eq_findRange {cache : PredecodeCache} (h : UserTable cache) {pc : Addr}
    (hpc : Seated pc) (range : Option Addr) :
    cache.selectRange range pc = cache.findRange pc :=
  selectRange_eq_of_unique (fun _ hr hc => (h.findRange_eq_some hpc).mpr ⟨hr, hc⟩) range

/-- A registration keeps the table and every range below the tag bits. -/
theorem register {cache : PredecodeCache} (E : Env) (h : UserTable cache) {call : RegisterCall}
    (hwrap : call.interval.NoWrap) (hskips : call.Admissible → ¬call.interval.Covers taggedNull) :
    UserTable (cache.registerCall E call).2 ∧
      ∀ r, cache.Registered r → r.start.toNat < 2 ^ 56 →
        (cache.registerCall E call).2.Registered r := by
  rcases PredecodeCache.registerCall_cases E cache call with
    ⟨hranges, -, -⟩ | ⟨hcall, hover, new, hnew, heq⟩
  · have hreg : ∀ r, (cache.registerCall E call).2.Registered r ↔ cache.Registered r := by
      simp [PredecodeCache.Registered, hranges]
    refine ⟨⟨?_, ?_, ?_⟩, fun r hr _ => (hreg r).mpr hr⟩
    · rw [hranges]
      exact h.keyed
    · simpa only [hreg] using h.readable
    · simpa only [hreg] using h.apart
  · have hreadable : Readable new.interval := by
      rw [hnew.interval]
      exact ⟨hwrap, hskips hcall⟩
    -- The overlap check compared the new range with every registered one.
    have hclear : ∀ r, cache.Registered r →
        r.start.toNat < 2 ^ 56 ∨ new.start.toNat < 2 ^ 56 →
        r.interval.Disjoint new.interval := by
      intro r hr hlow
      have hno : new.interval.overlaps r.interval = false := by
        rw [hnew.interval]
        exact PredecodeCache.overlapsRegistered_eq_false.mp hover r hr
      rcases hlow with hlow | hlow
      · rw [Interval.overlaps_comm] at hno
        exact (h.readable r hr).disjoint hreadable r.size_pos new.size_pos hlow hno
      · exact (hreadable.disjoint (h.readable r hr) new.size_pos r.size_pos hlow hno).symm
    have hnot : ∀ r, cache.Registered r → r.start.toNat < 2 ^ 56 → r.start ≠ new.start := by
      intro r hr hlow hstart
      refine hclear r hr (.inl hlow) r.start ⟨Interval.covers_start r.size_pos, ?_⟩
      rw [hstart]
      exact Interval.covers_start new.size_pos
    have hold : ∀ r, (cache.commit new).Registered r → r = new ∨ cache.Registered r := by
      rintro r ⟨k, hmem⟩
      rcases OrderedTable.mem_put.mp hmem with hput | ⟨hmem, -⟩
      · exact .inl (congrArg Prod.snd hput)
      · exact .inr ⟨k, hmem⟩
    rw [heq]
    refine ⟨⟨?_, ?_, ?_⟩, ?_⟩
    · intro e he
      rcases OrderedTable.mem_put.mp he with rfl | ⟨he, -⟩
      · rfl
      · exact h.keyed e he
    · intro r hr
      rcases hold r hr with rfl | hr
      · exact hreadable
      · exact h.readable r hr
    · intro r s hr hs hlow hne
      rcases hold r hr with rfl | hrold <;> rcases hold s hs with rfl | hsold
      · exact absurd rfl hne
      · exact (hclear s hsold (.inr hlow)).symm
      · exact hclear r hrold (.inl hlow)
      · exact h.apart r s hrold hsold hlow hne
    · rintro r ⟨k, hmem⟩ hlow
      refine ⟨k, OrderedTable.mem_put.mpr (.inr ⟨hmem, ?_⟩)⟩
      rw [← h.keyed (k, r) hmem]
      exact hnot r ⟨k, hmem⟩ hlow

end UserTable

/-! ## The invariant -/

/-- A null pointer, or the node of a registered range. -/
def Held (cache : PredecodeCache) (range : Option Addr) : Prop :=
  ∀ k, range = some k → ∃ r, (k, r) ∈ cache.ranges.entries

/-- What holds of a simulator between any two events. -/
structure Placed (cache : PredecodeCache) (p : SimPosition) : Prop where
  seated : Seated p.cursor.pc
  stepping : p.stepping = true → p.cursor.pc.toNat < 2 ^ 56
  held : Held cache p.cursor.curRange
  savedPc : ∀ c ∈ p.saved, c.pc.toNat < 2 ^ 56
  savedHeld : ∀ c ∈ p.saved, Held cache c.curRange

structure Inv (s : Shared) : Prop where
  table : UserTable s.cache
  placed : ∀ i, Placed s.cache (s.sims i)

theorem init_inv : init.Inv where
  table := empty_userTable
  placed := by
    intro i
    constructor <;> simp [init, Seated, Held]

theorem setSim_inv {s : Shared} (h : s.Inv) (i : Nat) {p : SimPosition}
    (hp : Placed s.cache p) :
    (s.setSim i p).Inv where
  table := h.table
  placed := by
    intro j
    by_cases hj : j = i
    · simpa [setSim, hj] using hp
    · simpa [setSim, hj] using h.placed j

theorem refreshRange_held {cache : PredecodeCache} (h : UserTable cache) {range : Option Addr}
    (hheld : Held cache range) (pc : Addr) :
    Held cache (cache.refreshRange range pc) := by
  have hfound : Held cache (((cache.findRange pc).map RangeRecord.start).or range) := by
    cases hfind : cache.findRange pc with
    | none => simpa using hheld
    | some r =>
        intro k hk
        obtain ⟨key, hmem⟩ := (PredecodeCache.findRange_sound hfind).1
        have hkey : r.start = key := h.keyed (key, r) hmem
        have hstart : r.start = k := by simpa using hk
        exact ⟨r, by rwa [← hstart, hkey]⟩
  unfold PredecodeCache.refreshRange
  cases cache.deref range with
  | none => exact hfound
  | some r =>
      cases hc : r.contains pc with
      | false => simpa [hc] using hfound
      | true => simpa [hc] using hheld

theorem registerCall_node (E : Env) (cache : PredecodeCache) (call : RegisterCall) {k : Addr}
    {r : RangeRecord} (hmem : (k, r) ∈ cache.ranges.entries) :
    ∃ r', (k, r') ∈ (cache.registerCall E call).2.ranges.entries := by
  rcases PredecodeCache.registerCall_cases E cache call with
    ⟨hranges, -, -⟩ | ⟨-, -, new, -, heq⟩
  · rw [hranges]
    exact ⟨r, hmem⟩
  · rw [heq]
    by_cases hk : k = new.start
    · exact ⟨new, OrderedTable.mem_put.mpr (.inl (by rw [hk]))⟩
    · exact ⟨r, OrderedTable.mem_put.mpr (.inr ⟨hmem, hk⟩)⟩

theorem Held.register {cache : PredecodeCache} {range : Option Addr} (h : Held cache range)
    (E : Env) (call : RegisterCall) :
    Held (cache.registerCall E call).2 range := by
  intro k hk
  obtain ⟨r, hmem⟩ := h k hk
  exact registerCall_node E cache call hmem

/-! ## One event -/

/-- Only ranges that do not run past the last address are registered. -/
def NoWrap : DispatchEvent → Prop
  | .register call => call.interval.NoWrap
  | _ => True

/--
A registration that passes its checks reads every word of its range, and a host
has no word at a null address, whatever its tag.
-/
def SkipsNull : DispatchEvent → Prop
  | .register call => call.Admissible → ¬call.interval.Covers taggedNull
  | _ => True

theorem dispatch_eq_findRange {s : Shared} (h : s.Inv) (i : Nat) :
    s.dispatch i = s.cache.findRange (s.pc i) :=
  h.table.selectRange_eq_findRange (h.placed i).seated _

theorem fetch_inv (E : Env) {s : Shared} (h : s.Inv) (i : Nat) : (s.next E (.fetch i)).Inv := by
  have hp := h.placed i
  cases hdispatch : s.dispatch i with
  | none => simpa only [next, hdispatch] using h
  | some r =>
      -- The program counter is in a registered range, so it is not the word after the last.
      rw [dispatch_eq_findRange h] at hdispatch
      obtain ⟨hr, hc⟩ := PredecodeCache.findRange_sound hdispatch
      have hlow := (h.table.low_of_contains hr hp.seated hc).2
      rw [← dispatch_eq_findRange h] at hdispatch
      simp only [next, hdispatch]
      exact setSim_inv h i
        { seated := hp.seated
          stepping := fun _ => hlow
          held := refreshRange_held h.table hp.held _
          savedPc := hp.savedPc
          savedHeld := hp.savedHeld }

theorem retire_inv (E : Env) {s : Shared} (h : s.Inv) (i : Nat) : (s.next E (.retire i)).Inv := by
  have hp := h.placed i
  simp only [next]
  split_ifs with hstepping
  · have hlow := hp.stepping hstepping
    refine setSim_inv h i
      { seated := ?_
        stepping := by simp
        held := ?_
        savedPc := hp.savedPc
        savedHeld := hp.savedHeld }
    · unfold incrementPc
      split_ifs with hmodified
      · exact hp.seated
      · have hsize : instructionSize.toNat = 4 := rfl
        simp only [Seated, BitVec.toNat_add, hsize]
        omega
    · unfold incrementPc
      split_ifs with hmodified <;> exact hp.held
  · exact h

/-- Every event keeps the invariant, and every range below the tag bits. -/
theorem next_inv (E : Env) {s : Shared} (h : s.Inv) {e : DispatchEvent} (hwrap : NoWrap e)
    (hnull : SkipsNull e) :
    (s.next E e).Inv ∧ ∀ r, s.cache.Registered r → r.start.toNat < 2 ^ 56 →
      (s.next E e).cache.Registered r := by
  cases e with
  | register call =>
      obtain ⟨htable, hkeep⟩ := h.table.register E hwrap hnull
      refine ⟨⟨htable, ?_⟩, hkeep⟩
      intro i
      have hp := h.placed i
      exact
        { seated := hp.seated
          stepping := hp.stepping
          held := hp.held.register E call
          savedPc := hp.savedPc
          savedHeld := fun c hc => (hp.savedHeld c hc).register E call }
  | seat i target =>
      have hp := h.placed i
      refine ⟨setSim_inv h i ?_, fun _ hr _ => hr⟩
      exact
        { seated := seated_of_lt (addressUntag_lt target)
          stepping := fun _ => addressUntag_lt target
          held := hp.held
          savedPc := hp.savedPc
          savedHeld := hp.savedHeld }
  | fetch i =>
      refine ⟨fetch_inv E h i, fun r hr _ => ?_⟩
      simp only [next]
      split <;> exact hr
  | retire i =>
      refine ⟨retire_inv E h i, fun r hr _ => ?_⟩
      simp only [next]
      split_ifs <;> exact hr
  | enterNested i =>
      have hp := h.placed i
      simp only [next]
      split_ifs with hstepping
      · refine ⟨setSim_inv h i ?_, fun _ hr _ => hr⟩
        exact
          { seated := hp.seated
            stepping := by simp
            held := hp.held
            savedPc := by simpa using ⟨hp.stepping hstepping, hp.savedPc⟩
            savedHeld := by simpa using ⟨hp.held, hp.savedHeld⟩ }
      · exact ⟨h, fun _ hr _ => hr⟩
  | leaveNested i =>
      have hp := h.placed i
      cases hsaved : (s.sims i).saved with
      | nil =>
          simp only [next, hsaved]
          exact ⟨h, fun _ hr _ => hr⟩
      | cons cursor rest =>
          simp only [next, hsaved]
          have hpc := hp.savedPc
          have hheld := hp.savedHeld
          simp only [hsaved, List.mem_cons, forall_eq_or_imp] at hpc hheld
          refine ⟨setSim_inv h i ?_, fun _ hr _ => hr⟩
          exact
            { seated := seated_of_lt hpc.1
              stepping := fun _ => hpc.1
              held := hheld.1
              savedPc := hpc.2
              savedHeld := hheld.2 }

/-! ## Interleavings -/

/-- A step goes through the range that a lookup answers, and aborts when there is none. -/
def DispatchesByLookup (E : Env) (events : List DispatchEvent) : Prop :=
  ∀ pre, pre <+: events → ∀ i,
    (run E pre).dispatch i = (run E pre).cache.findRange ((run E pre).pc i)

/-- What was registered at some time is what every later step there goes through. -/
def KeepsRanges (E : Env) (events : List DispatchEvent) : Prop :=
  ∀ pre mid, pre <+: mid → mid <+: events → ∀ i r,
    (run E pre).cache.findRange ((run E mid).pc i) = some r → (run E mid).dispatch i = some r

/-- A range is dispatched through from the time its registration has returned. -/
def DispatchesNewRanges (E : Env) (events : List DispatchEvent) : Prop :=
  ∀ pre call, pre ++ [.register call] <+: events →
    ((run E pre).cache.registerCall E call).1 = .ok →
    ∃ r, PredecodeCache.Builds E (run E pre).cache call r ∧
      ∀ mid, pre ++ [.register call] <+: mid → mid <+: events → ∀ i,
        call.start.toNat ≤ ((run E mid).pc i).toNat →
        ((run E mid).pc i).toNat < call.start.toNat + call.sizeBytes.toNat →
        (run E mid).dispatch i = some r

/-- No simulator and no saved cursor ever points to something that is not in the table. -/
def HoldsNodes (E : Env) (events : List DispatchEvent) : Prop :=
  ∀ pre, pre <+: events → ∀ i,
    Held (run E pre).cache ((run E pre).sims i).cursor.curRange ∧
      ∀ c ∈ ((run E pre).sims i).saved, Held (run E pre).cache c.curRange

structure ShortcutInvisible (E : Env) (events : List DispatchEvent) : Prop where
  lookup : DispatchesByLookup E events
  keeps : KeepsRanges E events
  fresh : DispatchesNewRanges E events
  nodes : HoldsNodes E events

theorem run_inv {E : Env} {events : List DispatchEvent} (hwrap : ∀ e ∈ events, NoWrap e)
    (hnull : ∀ e ∈ events, SkipsNull e) :
    (run E events).Inv := by
  induction events using List.reverseRecOn with
  | nil => exact init_inv
  | append_singleton events e ih =>
      have hprev := ih (fun e he => hwrap e (List.mem_append_left _ he))
        (fun e he => hnull e (List.mem_append_left _ he))
      rw [run_append]
      exact (next_inv E hprev (hwrap e (by simp)) (hnull e (by simp))).1

theorem run_registered {E : Env} {events more : List DispatchEvent}
    (hwrap : ∀ e ∈ events ++ more, NoWrap e) (hnull : ∀ e ∈ events ++ more, SkipsNull e)
    {r : RangeRecord} (hr : (run E events).cache.Registered r)
    (hlow : r.start.toNat < 2 ^ 56) :
    (run E (events ++ more)).cache.Registered r := by
  induction more using List.reverseRecOn with
  | nil => simpa using hr
  | append_singleton more e ih =>
      rw [← List.append_assoc] at hwrap hnull ⊢
      have hwrap' : ∀ e ∈ events ++ more, NoWrap e :=
        fun e he => hwrap e (List.mem_append_left _ he)
      have hnull' : ∀ e ∈ events ++ more, SkipsNull e :=
        fun e he => hnull e (List.mem_append_left _ he)
      rw [run_append]
      exact (next_inv E (run_inv hwrap' hnull') (hwrap e (by simp)) (hnull e (by simp))).2 r
        (ih hwrap' hnull') hlow

/-- A range below the tag bits is dispatched through wherever it contains the PC. -/
theorem dispatch_registered {s : Shared} (h : s.Inv) {r : RangeRecord}
    (hr : s.cache.Registered r) {i : Nat} (hc : r.contains (s.pc i) = true) :
    s.dispatch i = some r := by
  rw [dispatch_eq_findRange h]
  exact (h.table.findRange_eq_some (h.placed i).seated).mpr ⟨hr, hc⟩

section Run

variable (E : Env) {events : List DispatchEvent} (hwrap : ∀ e ∈ events, NoWrap e)
  (hnull : ∀ e ∈ events, SkipsNull e)

include hwrap hnull

theorem prefix_inv {pre : List DispatchEvent} (hpre : pre <+: events) : (run E pre).Inv :=
  run_inv (fun e he => hwrap e (hpre.subset he)) (fun e he => hnull e (hpre.subset he))

/-- A range found at a seated PC is dispatched through there for the rest of the run. -/
theorem dispatch_later {pre mid : List DispatchEvent} (hpre : pre <+: mid) (hmid : mid <+: events)
    {i : Nat} {r : RangeRecord} (hr : (run E pre).cache.Registered r)
    (hc : r.contains ((run E mid).pc i) = true) :
    (run E mid).dispatch i = some r := by
  have hinv := prefix_inv E hwrap hnull (hpre.trans hmid)
  have hinv' := prefix_inv E hwrap hnull hmid
  have hlow := (hinv.table.low_of_contains hr (hinv'.placed i).seated hc).1
  obtain ⟨more, rfl⟩ := hpre
  exact dispatch_registered hinv' (run_registered (fun e he => hwrap e (hmid.subset he))
    (fun e he => hnull e (hmid.subset he)) hr hlow) hc

theorem dispatchesNewRanges : DispatchesNewRanges E events := by
  intro pre call hpre hok
  rcases PredecodeCache.registerCall_cases E (run E pre).cache call with
    ⟨-, -, hno⟩ | ⟨-, -, r, hr, heq⟩
  · exact absurd (PredecodeCache.admissible_of_ok hok) hno
  · refine ⟨r, hr, ?_⟩
    intro mid hmid hmidpre i hle hlt
    have hreg : (run E (pre ++ [.register call])).cache.Registered r := by
      rw [run_append]
      simp only [next, heq]
      exact ⟨r.start, OrderedTable.mem_put.mpr (.inl rfl)⟩
    have hinv := prefix_inv E hwrap hnull hpre
    refine dispatch_later E hwrap hnull hmid hmidpre hreg ((hinv.table.contains_iff hreg _).mpr ?_)
    rw [hr.start, hr.sizeBytes]
    exact ⟨hle, hlt⟩

end Run

/--
In every interleaving of registrations, steps and nested calls of simulators on
one cache, the range shortcut never changes what a step goes through.
-/
theorem shortcut_invisible (E : Env) (events : List DispatchEvent)
    (hwrap : ∀ e ∈ events, NoWrap e) (hnull : ∀ e ∈ events, SkipsNull e) :
    ShortcutInvisible E events where
  lookup := fun _ hpre i => dispatch_eq_findRange (prefix_inv E hwrap hnull hpre) i
  keeps := by
    intro pre mid hpre hmid i r hfind
    obtain ⟨hr, hc⟩ := PredecodeCache.findRange_sound hfind
    exact dispatch_later E hwrap hnull hpre hmid hr hc
  fresh := dispatchesNewRanges E hwrap hnull
  nodes := by
    intro pre hpre i
    have hp := (prefix_inv E hwrap hnull hpre).placed i
    exact ⟨hp.held, hp.savedHeld⟩

/--
One simulator branches from a tagged address into a range and calls from there
into a second one, which is registered meanwhile; another steps on its own.
-/
def nestedEvents : List DispatchEvent :=
  [.register ⟨fun _ => 0, 0x1000, 8, ⟨true, true⟩⟩, .seat 0 0x0100000000001000, .fetch 0,
    .enterNested 0, .register ⟨fun _ => 0, 0x2000, 4, ⟨true, true⟩⟩, .seat 0 0x2000, .fetch 0,
    .seat 1 0x1004, .fetch 1, .retire 0, .leaveNested 0, .retire 0, .fetch 0]

theorem shortcut_invisible_nested : ShortcutInvisible default nestedEvents := by
  have hnull : ∀ e ∈ nestedEvents, SkipsNull e := by
    simp only [nestedEvents, List.forall_mem_cons, SkipsNull]
    refine ⟨fun _ => by decide, trivial, trivial, trivial, fun _ => by decide, ?_⟩
    simp
  have hwrap : ∀ e ∈ nestedEvents, NoWrap e := by
    simp only [nestedEvents, List.forall_mem_cons, NoWrap]
    refine ⟨by decide, trivial, trivial, trivial, by decide, ?_⟩
    simp
  exact shortcut_invisible default nestedEvents hwrap hnull

end Shared

end GabyVm.Cache
