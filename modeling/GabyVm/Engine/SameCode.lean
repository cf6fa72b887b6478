import GabyVm.Cache.RegistrationOutcome
import GabyVm.Cache.SameEntries
import GabyVm.Engine.Execution
import GabyVm.Engine.Initial
import GabyVm.Engine.Visits

/-!
# Runs over caches that answer alike

Two worlds that differ in nothing but the cache and the held range make the
same steps, if the caches answer every lookup alike.  Order and partition of
the registrations are then invisible to a run: whatever it goes through, and
whether and where it aborts, is the same over every cache that covers the same
code.
-/

namespace GabyVm.Engine

open GabyVm.Aarch64
open GabyVm.Cache
open GabyVm.Foundation

variable {τ : Type} {α : Type} {E : Env} {H : Host τ} {nested nested' : ExecCall → Act τ Bool}

/-! ## Hosts that register -/

/-- Every range that the program registers is one of these. -/
inductive HostProg.Registers (ranges : Addr → Addr → Prop) : HostProg τ α → Prop where
  | ret (a : α) : Registers ranges (.ret a)
  | getHost {next : τ → HostProg τ α} (h : ∀ t, Registers ranges (next t)) :
      Registers ranges (.getHost next)
  | setHost {t : τ} {next : HostProg τ α} (h : Registers ranges next) :
      Registers ranges (.setHost t next)
  | readAll {next : RegisterFile → HostProg τ α} (h : ∀ f, Registers ranges (next f)) :
      Registers ranges (.readAll next)
  | write {r : RegisterWrite} {next : HostProg τ α} (h : Registers ranges next) :
      Registers ranges (.write r next)
  | readMemory {a : Addr} {next : BitVec 8 → HostProg τ α}
      (h : ∀ b, Registers ranges (next b)) : Registers ranges (.readMemory a next)
  | writeMemory {a : Addr} {b : BitVec 8} {next : HostProg τ α} (h : Registers ranges next) :
      Registers ranges (.writeMemory a b next)
  | exec {call : ExecCall} {next : Bool → HostProg τ α}
      (h : ∀ more, Registers ranges (next more)) : Registers ranges (.exec call next)
  | registerCodeRange {start sizeBytes : Addr} {alloc : PredecodeCache.Allocation}
      {next : Option RegistrationStatus → HostProg τ α} (hrange : ranges start sizeBytes)
      (h : ∀ r, Registers ranges (next r)) :
      Registers ranges (.registerCodeRange start sizeBytes alloc next)
  | setTraceParameters {parameters : BitVec 32} {next : HostProg τ α}
      (h : Registers ranges next) : Registers ranges (.setTraceParameters parameters next)

structure Host.Registers (H : Host τ) (ranges : Addr → Addr → Prop) : Prop where
  branchHook : ∀ hook, H.branchHook = some hook → ∀ target, (hook target).Registers ranges
  observer : ∀ observer, H.memoryWriteObserver = some observer →
    ∀ event, (observer event).Registers ranges

/-! ## Related worlds -/

/-- The worlds differ at most in the cache and in the range they hold. -/
def SameState (w w' : World τ) : Prop :=
  ∃ range cache, w' = { w with sim := { w.sim with curRange := range }, cache := cache }

/-- Both worlds have a cache, and the caches answer alike. -/
structure SameCode (topFree : Prop) (cache cache' : Option PredecodeCache) : Prop where
  entries : ∃ c c', cache = some c ∧ cache' = some c' ∧ PredecodeCache.SameEntries c c' ∧
    (topFree → c.TopFree ∧ c'.TopFree)

structure Twins (topFree : Prop) (w w' : World τ) : Prop where
  state : SameState w w'
  code : SameCode topFree w.cache w'.cache

variable {topFree : Prop}

/-- What changes neither the cache nor the held range keeps the worlds twins. -/
theorem Twins.congr {w w' v v' : World τ} (h : Twins topFree w w') (hcache : v.cache = w.cache)
    (hcache' : v'.cache = w'.cache) (hstate : SameState v v') :
    Twins topFree v v' :=
  ⟨hstate, by rw [hcache, hcache']; exact h.code⟩

theorem twins_worldRel : WorldRel (Twins (τ := τ) topFree) (Twins topFree) where
  core w w' h := by
    obtain ⟨_, _, rfl⟩ := h.state
    rfl
  readAll w w' h := by
    obtain ⟨_, _, rfl⟩ := h.state
    rfl
  setCore w w' c h := by
    obtain ⟨range, cache, rfl⟩ := h.state
    exact h.congr rfl rfl ⟨range, cache, rfl⟩
  log w w' e h := by
    obtain ⟨range, cache, rfl⟩ := h.state
    exact h.congr rfl rfl ⟨range, cache, rfl⟩
  aborted w w' h := h

/-! ## Host programs -/

/-- Ranges that the caches answer alike after they are registered. -/
def Registrable (topFree : Prop) (start sizeBytes : Addr) : Prop :=
  topFree ∧ start.toNat + sizeBytes.toNat < 2 ^ 64

theorem Twins.register {w w' : World τ} (h : Twins topFree w w') {start sizeBytes : Addr}
    (hrange : Registrable topFree start sizeBytes) (alloc : PredecodeCache.Allocation) :
    (w.register E start sizeBytes alloc).1 = (w'.register E start sizeBytes alloc).1 ∧
      Twins topFree (w.register E start sizeBytes alloc).2
        (w'.register E start sizeBytes alloc).2 := by
  obtain ⟨range, cache, rfl⟩ := h.state
  obtain ⟨c, c', hcache, rfl, hentries, hfree⟩ := h.code.entries
  obtain ⟨sim, cache, host, events⟩ := w
  obtain rfl : cache = some c := hcache
  obtain ⟨htop, hlow⟩ := hrange
  let call : RegisterCall := ⟨sim.core.memory, start, sizeBytes, alloc⟩
  have hbelow : PredecodeCache.BelowTop call := hlow
  obtain ⟨hstatus, hsame⟩ := hentries.registerCall (E := E) (hfree htop).1 (hfree htop).2 hbelow
  refine ⟨congrArg some hstatus, ⟨range, _, rfl⟩, ⟨_, _, rfl, rfl, hsame, ?_⟩⟩
  intro _
  exact ⟨(hfree htop).1.registerCall hbelow, (hfree htop).2.registerCall hbelow⟩

theorem Twins.run {p : HostProg τ α} (hp : p.Registers (Registrable topFree))
    (hcalls : ∀ call w w', Twins topFree w w' →
      Outcome.Rel (Twins topFree) (Twins topFree) (nested call w) (nested' call w'))
    {w w' : World τ} (h : Twins topFree w w') :
    Outcome.Rel (Twins topFree) (Twins topFree) (p.run E nested w) (p.run E nested' w') := by
  induction hp generalizing w w' with
  | ret a => exact .ok h
  | getHost _ ih =>
      obtain ⟨range, cache, rfl⟩ := h.state
      exact ih w.host h
  | setHost _ ih =>
      obtain ⟨range, cache, rfl⟩ := h.state
      exact ih (h.congr rfl rfl ⟨range, cache, rfl⟩)
  | readAll _ ih =>
      obtain ⟨range, cache, rfl⟩ := h.state
      exact ih w.sim.readAll h
  | @write r next _ ih =>
      have hwrite : Outcome.Rel (Twins topFree) (Twins topFree) (writeRegister r w)
          (writeRegister r w') := by
        obtain ⟨range, cache, rfl⟩ := h.state
        exact writeRegister_rel r rfl (fun _ => h.congr rfl rfl ⟨range, cache, rfl⟩)
          (fun _ => h.congr rfl rfl ⟨range, cache, rfl⟩) h
      refine hwrite.bind ?_
      intro _ v v' _ _ hv
      exact ih hv
  | readMemory _ ih =>
      obtain ⟨range, cache, rfl⟩ := h.state
      exact ih (w.core.memory _) h
  | writeMemory _ ih =>
      obtain ⟨range, cache, rfl⟩ := h.state
      exact ih (h.congr rfl rfl ⟨range, cache, rfl⟩)
  | exec _ ih =>
      apply (hcalls _ w w' h).bind
      intro more v v' _ _ hv
      exact ih more hv
  | @registerCodeRange start sizeBytes alloc _ hrange _ ih =>
      obtain ⟨hstatus, hnext⟩ := h.register (E := E) hrange alloc
      simp only [HostProg.run, hstatus]
      exact ih _ hnext
  | setTraceParameters _ ih =>
      obtain ⟨range, cache, rfl⟩ := h.state
      exact ih (h.congr rfl rfl ⟨range, cache, rfl⟩)

/-! ## Steps -/

theorem Twins.lookupEntry {w w' : World τ} (h : Twins topFree w w') :
    Outcome.Rel (Twins topFree) (Twins topFree) (lookupEntry w) (lookupEntry w') := by
  obtain ⟨range, cache, rfl⟩ := h.state
  obtain ⟨c, c', hcache, hcache', hentries, -⟩ := h.code.entries
  have hselect : c'.selectEntry range w.core.pc = c.selectEntry w.sim.curRange w.core.pc := by
    rw [PredecodeCache.selectEntry_eq_findEntry hentries.table,
      PredecodeCache.selectEntry_eq_findEntry hentries.table', hentries.entry]
  cases hentry : c.selectEntry w.sim.curRange w.core.pc with
  | none =>
      rw [lookupEntry_eq_abort hcache hentry, lookupEntry_eq_abort hcache' (hselect.trans hentry)]
      exact .abort h
  | some entry =>
      rw [lookupEntry_eq hcache hentry, lookupEntry_eq hcache' (hselect.trans hentry)]
      exact .ok (h.congr rfl rfl ⟨_, cache, rfl⟩)

theorem Host.Registers.observers (hH : H.Registers (Registrable topFree))
    (hcalls : ∀ call w w', Twins topFree w w' →
      Outcome.Rel (Twins topFree) (Twins topFree) (nested call w) (nested' call w')) :
    ObserversRel E H H nested nested' (Twins topFree) (Twins topFree) where
  same := rfl
  run observer hobserver event _ _ hw := hw.run (hH.observer observer hobserver event) hcalls

theorem Host.Registers.hook (hH : H.Registers (Registrable topFree))
    (hcalls : ∀ call w w', Twins topFree w w' →
      Outcome.Rel (Twins topFree) (Twins topFree) (nested call w) (nested' call w')) :
    HookRel E H nested nested' (Twins topFree) (Twins topFree) :=
  fun hook hhook target _ _ hw => hw.run (hH.branchHook hook hhook target) hcalls

theorem Twins.stepOnce (hH : H.Registers (Registrable topFree))
    (hcalls : ∀ call w w', Twins topFree w w' →
      Outcome.Rel (Twins topFree) (Twins topFree) (nested call w) (nested' call w'))
    (track : Track) {w w' : World τ} (h : Twins topFree w w') :
    Outcome.Rel (Twins topFree) (Twins topFree) (stepOnce E H nested track w)
      (stepOnce E H nested' track w') := by
  refine twins_worldRel.stepOnce (hH.observers hcalls) (hH.hook hcalls) ?_ ?_ h
  · intro v v' hv
    refine twins_worldRel.dispatch (fun _ _ hx => hx.lookupEntry) ?_ track hv
    intro x x' f hx
    obtain ⟨range, cache, rfl⟩ := hx.state
    exact hx.congr rfl rfl ⟨range, cache, rfl⟩
  · intro v v' hv
    obtain ⟨range, cache, rfl⟩ := hv.state
    rfl

/-! ## Runs -/

theorem Twins.callBody (hH : H.Registers (Registrable topFree))
    (hcalls : ∀ call w w', Twins topFree w w' →
      Outcome.Rel (Twins topFree) (Twins topFree) (nested call w) (nested' call w'))
    (fuel : Nat) (call : ExecCall) {w w' : World τ} (h : Twins topFree w w') :
    Outcome.Rel (Twins topFree) (Twins topFree) (callBody E H nested fuel call w)
      (callBody E H nested' fuel call w') := by
  have hseat (entry : Addr) : Outcome.Rel (Twins topFree) (Twins topFree)
      (modifyCore (·.writePc entry) w) (modifyCore (·.writePc entry) w') :=
    twins_worldRel.modifyCore _ h
  cases call with
  | runFrom track entry =>
      simp only [Engine.callBody, Action.bind_apply]
      refine (hseat entry).bind ?_
      intro _ v v' _ _ hv
      refine (loop_rel (P := fun _ => True) ?_ fuel hv (fun _ _ _ => trivial)).bind ?_
      · intro x x' _ hx
        exact hx.stepOnce hH hcalls track
      · intro _ x x' _ _ hx
        exact .ok hx
  | stepOnce track => exact h.stepOnce hH hcalls track
  | stepOnceFrom track entry =>
      simp only [Engine.callBody, Action.bind_apply]
      refine (hseat entry).bind ?_
      intro _ v v' _ _ hv
      exact hv.stepOnce hH hcalls track

theorem Twins.runCall (hH : H.Registers (Registrable topFree)) (fuel : Nat) (call : ExecCall)
    {w w' : World τ} (h : Twins topFree w w') :
    Outcome.Rel (Twins topFree) (Twins topFree) (runCall E H fuel call w)
      (runCall E H fuel call w') := by
  induction fuel generalizing call w w' with
  | zero => exact .timeout
  | succ fuel ih =>
      obtain ⟨c, c', hcache, hcache', -, -⟩ := h.code.entries
      have hattached : ¬(call.track = .cache ∧ w.cache.isNone) := by simp [hcache]
      have hattached' : ¬(call.track = .cache ∧ w'.cache.isNone) := by simp [hcache']
      change Outcome.Rel (Twins topFree) (Twins topFree)
        (execCall E H (Engine.runCall E H fuel) fuel call w)
        (execCall E H (Engine.runCall E H fuel) fuel call w')
      rw [execCall, if_neg hattached, execCall, if_neg hattached']
      have hentered : Twins topFree
          { w with sim := w.sim.enter (traceMask call.track w) }
          { w' with sim := w'.sim.enter (traceMask call.track w') } := by
        obtain ⟨range, cache, rfl⟩ := h.state
        refine h.congr rfl rfl ⟨range, cache, ?_⟩
        cases call.track <;> rfl
      refine (hentered.callBody hH (fun call v v' hv => ih call hv) fuel call).bind ?_
      intro more v v' _ _ hv
      refine .ok ?_
      obtain ⟨range, cache, rfl⟩ := h.state
      obtain ⟨range', cache', rfl⟩ := hv.state
      refine hv.congr rfl rfl ?_
      simp only [Sim.leave]
      cases w.sim.busy with
      | true => exact ⟨range, cache', rfl⟩
      | false => exact ⟨range', cache', rfl⟩

/-! ## Order and partition -/

/-- On the cache track every run goes through the same states in both worlds. -/
structure SameRuns (E : Env) (H : Host τ) (w w' : World τ) : Prop where
  steps : ∀ fuel entry n,
    Outcome.Rel SameState SameState
      (runSchedule (List.replicate n (stepOnce E H (runCall E H fuel) .cache))
        (w.seated .cache entry))
      (runSchedule (List.replicate n (stepOnce E H (runCall E H fuel) .cache))
        (w'.seated .cache entry))
  runs : ∀ fuel entry,
    Outcome.Rel SameState SameState (runCall E H fuel (.runFrom .cache entry) w)
      (runCall E H fuel (.runFrom .cache entry) w')

theorem Twins.sameRuns (hH : H.Registers (Registrable topFree)) {w w' : World τ}
    (h : Twins topFree w w') :
    SameRuns E H w w' where
  steps fuel entry n := by
    have hcalls (call : ExecCall) (v v' : World τ) (hv : Twins topFree v v') :=
      hv.runCall (E := E) hH fuel call
    have hseated : Twins topFree (w.seated .cache entry) (w'.seated .cache entry) := by
      obtain ⟨range, cache, rfl⟩ := h.state
      exact h.congr rfl rfl ⟨range, cache, rfl⟩
    have hrun : Outcome.Rel (Twins topFree) (Twins topFree)
        (runSchedule (List.replicate n (Engine.stepOnce E H (Engine.runCall E H fuel) .cache))
          (w.seated .cache entry))
        (runSchedule (List.replicate n (Engine.stepOnce E H (Engine.runCall E H fuel) .cache))
          (w'.seated .cache entry)) := by
      refine runSchedule_rel (P := fun _ => True) ?_ hseated (fun _ _ _ _ => trivial)
      rw [List.forall₂_same]
      intro step hstep v v' _ hv
      obtain rfl := List.eq_of_mem_replicate hstep
      exact hv.stepOnce hH hcalls .cache
    exact hrun.mono (fun _ _ hv => hv.state) fun _ _ hv => hv.state
  runs fuel entry :=
    (h.runCall hH fuel (.runFrom .cache entry)).mono (fun _ _ hv => hv.state)
      fun _ _ hv => hv.state

/--
What two histories have in common when neither a lookup nor a run can tell them
apart.  A callback may register further ranges where none reaches the end of
the address space.
-/
structure Interchangeable (τ : Type) (E : Env) (mem : Memory) (calls calls' : List RegisterCall) :
    Prop where
  covered : ∀ pc, PredecodeCache.Covered E calls pc →
    (Impl.registerAll E calls).cache.findEntry pc =
        some (PredecodeCache.predecodeWord E (readWord mem (wordStart pc))) ∧
      (Impl.registerAll E calls').cache.findEntry pc =
        some (PredecodeCache.predecodeWord E (readWord mem (wordStart pc)))
  uncovered : ∀ pc, ¬PredecodeCache.Covered E calls pc →
    (Impl.registerAll E calls).cache.findEntry pc = none ∧
      (Impl.registerAll E calls').cache.findEntry pc = none
  runs : ∀ H : Host τ,
    H.Registers (Registrable ((Impl.registerAll E calls).cache.TopFree ∧
      (Impl.registerAll E calls').cache.TopFree)) →
    ∀ w w' : World τ, SameState w w' →
      w.cache = some (Impl.registerAll E calls).cache →
      w'.cache = some (Impl.registerAll E calls').cache →
      SameRuns E H w w'

/--
Histories whose accepted calls cover the same addresses are interchangeable,
whatever their order and their ranges are and whatever else was rejected.
-/
theorem interchangeable_of_covered (τ : Type) {E : Env} {mem : Memory}
    {calls calls' : List RegisterCall} (h : PredecodeCache.CodeOf E mem calls)
    (h' : PredecodeCache.CodeOf E mem calls')
    (hcovered : ∀ a, PredecodeCache.Covered E calls a ↔ PredecodeCache.Covered E calls' a) :
    Interchangeable τ E mem calls calls' where
  covered pc hpc := by
    rw [Impl.registerAll_cache, Impl.registerAll_cache]
    exact ⟨h.findEntry_covered hpc, h'.findEntry_covered ((hcovered pc).mp hpc)⟩
  uncovered pc hpc := by
    rw [Impl.registerAll_cache, Impl.registerAll_cache]
    exact ⟨h.findEntry_uncovered hpc,
      h'.findEntry_uncovered fun hpc' => hpc ((hcovered pc).mpr hpc')⟩
  runs H hH w w' hstate hcache hcache' := by
    rw [Impl.registerAll_cache] at hcache hcache'
    rw [Impl.registerAll_cache, Impl.registerAll_cache] at hH
    have hentries := PredecodeCache.sameEntries_of_covered h h' hcovered
    exact Twins.sameRuns hH ⟨hstate, _, _, hcache, hcache', hentries, fun hfree => hfree⟩

/-! ### One range and its halves -/

def fourWords : Memory := memoryOfWords 0x1000 [0xaa0103e0, 0xaa0103e0, 0xd503201f, 0xd65f03c0]

def wholeRange : List RegisterCall := [PredecodeCache.granted fourWords 0x1000 16]

/-- The second half, an overlap, a misaligned start, and the first half. -/
def twoHalves : List RegisterCall :=
  [PredecodeCache.granted fourWords 0x1008 8, PredecodeCache.granted fourWords 0x1000 16,
    PredecodeCache.granted fourWords 0x1002 4, PredecodeCache.granted fourWords 0x1000 8]

theorem wholeRange_codeOf (E : Env) : PredecodeCache.CodeOf E fourWords wholeRange := by
  refine PredecodeCache.codeOf_of_belowTop (by decide) ?_
  simp [wholeRange, PredecodeCache.granted]

theorem twoHalves_codeOf (E : Env) : PredecodeCache.CodeOf E fourWords twoHalves := by
  refine PredecodeCache.codeOf_of_belowTop (by decide) ?_
  simp [twoHalves, PredecodeCache.granted]

theorem wholeRange_covered (a : Addr) :
    PredecodeCache.Covered (smallEnv true) wholeRange a ↔ a - 0x1000 < 16 := by
  have hwhole : PredecodeCache.Covered (smallEnv true) ([] ++ wholeRange) a ↔ _ :=
    PredecodeCache.covered_append a
  have hok : ((PredecodeCache.registerAll (smallEnv true) []).registerCall (smallEnv true)
      (PredecodeCache.granted fourWords 0x1000 16)).1 = .ok := by decide +kernel
  rw [List.nil_append] at hwhole
  rw [hwhole, or_iff_right (PredecodeCache.covered_nil a), and_iff_right hok]
  rfl

theorem twoHalves_covered (a : Addr) :
    PredecodeCache.Covered (smallEnv true) twoHalves a ↔ a - 0x1008 < 8 ∨ a - 0x1000 < 8 := by
  have hone : PredecodeCache.Covered (smallEnv true) ([] ++ twoHalves.take 1) a ↔ _ :=
    PredecodeCache.covered_append a
  have htwo : PredecodeCache.Covered (smallEnv true) (twoHalves.take 1 ++
      [PredecodeCache.granted fourWords 0x1000 16]) a ↔ _ := PredecodeCache.covered_append a
  have hthree : PredecodeCache.Covered (smallEnv true) (twoHalves.take 2 ++
      [PredecodeCache.granted fourWords 0x1002 4]) a ↔ _ := PredecodeCache.covered_append a
  have hfour : PredecodeCache.Covered (smallEnv true) (twoHalves.take 3 ++
      [PredecodeCache.granted fourWords 0x1000 8]) a ↔ _ := PredecodeCache.covered_append a
  have hfirst : ((PredecodeCache.registerAll (smallEnv true) []).registerCall (smallEnv true)
      (PredecodeCache.granted fourWords 0x1008 8)).1 = .ok := by decide +kernel
  have hoverlap : ((PredecodeCache.registerAll (smallEnv true)
      (twoHalves.take 1)).registerCall (smallEnv true)
      (PredecodeCache.granted fourWords 0x1000 16)).1 ≠ .ok := by decide +kernel
  have hmisaligned : ((PredecodeCache.registerAll (smallEnv true)
      (twoHalves.take 2)).registerCall (smallEnv true)
      (PredecodeCache.granted fourWords 0x1002 4)).1 ≠ .ok := by decide +kernel
  have hlast : ((PredecodeCache.registerAll (smallEnv true)
      (twoHalves.take 3)).registerCall (smallEnv true)
      (PredecodeCache.granted fourWords 0x1000 8)).1 = .ok := by decide +kernel
  change PredecodeCache.Covered (smallEnv true) (twoHalves.take 3 ++ [_]) a ↔ _
  rw [hfour, and_iff_right hlast]
  refine or_congr ?_ Iff.rfl
  change PredecodeCache.Covered (smallEnv true) (twoHalves.take 2 ++ [_]) a ↔ _
  rw [hthree, or_iff_left fun h => hmisaligned h.1]
  change PredecodeCache.Covered (smallEnv true) (twoHalves.take 1 ++ [_]) a ↔ _
  rw [htwo, or_iff_left fun h => hoverlap h.1]
  change PredecodeCache.Covered (smallEnv true) ([] ++ twoHalves.take 1) a ↔ _
  rw [hone, or_iff_right (PredecodeCache.covered_nil a), and_iff_right hfirst]
  rfl

theorem interchangeable_halves :
    Interchangeable Unit (smallEnv true) fourWords wholeRange twoHalves :=
  interchangeable_of_covered Unit (wholeRange_codeOf _) (twoHalves_codeOf _) fun a => by
    rw [wholeRange_covered, twoHalves_covered]
    bv_omega

end GabyVm.Engine
