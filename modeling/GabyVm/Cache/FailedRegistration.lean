import GabyVm.Cache.PredecodePass

/-!
# Failed registrations

A registration can fail in its validation, at the overlap check, and at either
allocation; at the last of these the pass has already run.  Wherever it fails,
it changes the diagnostics only, and no later registration can tell from its
results that it was made.
-/

namespace GabyVm.Cache

open GabyVm.Aarch64
open GabyVm.Foundation

namespace PredecodeCache

def SameTable (cache cache' : PredecodeCache) : Prop :=
  cache' = { cache with lastError := cache'.lastError }

theorem SameTable.refl (cache : PredecodeCache) : cache.SameTable cache := rfl

theorem SameTable.findRange {cache cache' : PredecodeCache} (h : cache.SameTable cache')
    (pc : Addr) :
    cache'.findRange pc = cache.findRange pc := by
  rw [h]
  rfl

theorem SameTable.selectEntry {cache cache' : PredecodeCache} (h : cache.SameTable cache')
    (range : Option Addr) (pc : Addr) :
    cache'.selectEntry range pc = cache.selectEntry range pc := by
  rw [h]
  rfl

/-- What a call answers and does to the table does not depend on the diagnostics. -/
theorem registerCall_sameTable (E : Env) {cache cache' : PredecodeCache}
    (h : cache.SameTable cache') (call : RegisterCall) :
    (cache'.registerCall E call).1 = (cache.registerCall E call).1 ∧
      (cache.registerCall E call).2.SameTable (cache'.registerCall E call).2 := by
  rw [h]
  have hsame : PredecodeCache.overlapsRegistered { cache with lastError := cache'.lastError }
      call.start call.sizeBytes = cache.overlapsRegistered call.start call.sizeBytes := rfl
  unfold registerCall registerCodeRange
  simp only [hsame]
  split_ifs with hsize hstart hover hentries hnode
  · exact ⟨rfl, rfl⟩
  · exact ⟨rfl, rfl⟩
  · exact ⟨rfl, rfl⟩
  · exact ⟨rfl, rfl⟩
  · exact ⟨rfl, rfl⟩
  · exact ⟨rfl, rfl⟩

theorem registerCall_failed_sameTable {E : Env} {cache : PredecodeCache} {call : RegisterCall}
    (h : (cache.registerCall E call).1 ≠ .ok) :
    cache.SameTable (cache.registerCall E call).2 ∧
      (cache.registerCall E call).2.lastError.status = (cache.registerCall E call).1 := by
  unfold registerCall registerCodeRange at h ⊢
  split_ifs at h ⊢ with hsize hstart hover hentries hnode
  · exact ⟨rfl, rfl⟩
  · exact ⟨rfl, rfl⟩
  · exact ⟨rfl, rfl⟩
  · exact absurd rfl h
  · exact ⟨rfl, rfl⟩
  · exact ⟨rfl, rfl⟩

theorem registerCall_ok_lastError {E : Env} {cache : PredecodeCache} {call : RegisterCall}
    (h : (cache.registerCall E call).1 = .ok) :
    (cache.registerCall E call).2.lastError = cache.lastError := by
  rcases registerCall_cases E cache call with ⟨-, -, hno⟩ | ⟨-, -, r, -, heq⟩
  · exact absurd (admissible_of_ok h) hno
  · rw [heq]
    rfl

end PredecodeCache

namespace Impl

open PredecodeCache

/-! ## Later registrations -/

def after (E : Env) (impl : Impl) (calls : List RegisterCall) : Impl :=
  calls.foldl (fun impl call => (impl.registerCall E call).2) impl

/-- What the calls of a sequence answer, one after the other. -/
def statuses (E : Env) : Impl → List RegisterCall → List RegistrationStatus
  | _, [] => []
  | impl, call :: calls =>
      (impl.registerCall E call).1 :: statuses E (impl.registerCall E call).2 calls

theorem later_sameTable (E : Env) {impl impl' : Impl} (h : impl.cache.SameTable impl'.cache)
    (later : List RegisterCall) :
    impl'.statuses E later = impl.statuses E later ∧
      (impl.after E later).cache.SameTable (impl'.after E later).cache := by
  induction later generalizing impl impl' with
  | nil => exact ⟨rfl, h⟩
  | cons call later ih =>
      obtain ⟨hstatus, htable⟩ := registerCall_sameTable E h call
      obtain ⟨hfirst, hcache⟩ := registerCall_cache E impl call
      obtain ⟨hfirst', hcache'⟩ := registerCall_cache E impl' call
      rw [← hcache, ← hcache'] at htable
      obtain ⟨hrest, hafter⟩ := ih htable
      refine ⟨?_, hafter⟩
      rw [statuses, statuses, hrest, hfirst, hfirst', hstatus]

theorem after_lastError (E : Env) {impl : Impl} {later : List RegisterCall}
    (h : ∀ status ∈ impl.statuses E later, status = .ok) :
    (impl.after E later).cache.lastError = impl.cache.lastError := by
  induction later generalizing impl with
  | nil => rfl
  | cons call later ih =>
      obtain ⟨hcall, hlater⟩ := List.forall_mem_cons.mp h
      obtain ⟨hfirst, hcache⟩ := registerCall_cache E impl call
      have hrest := ih hlater
      rw [hcache, registerCall_ok_lastError (hfirst ▸ hcall)] at hrest
      exact hrest

/-! ## All or nothing -/

/-- What the call has left where it failed. -/
structure AllOrNothing (E : Env) (impl : Impl) (call : RegisterCall) : Prop where
  lookup : ∀ pc, (impl.registerCall E call).2.cache.findRange pc = impl.cache.findRange pc
  entries : ∀ range pc, (impl.registerCall E call).2.cache.selectEntry range pc =
    impl.cache.selectEntry range pc
  diagnostics : impl.cache.SameTable (impl.registerCall E call).2.cache
  status : (impl.registerCall E call).2.cache.lastError.status = (impl.registerCall E call).1
  lasts : ∀ later, (∀ status ∈ (impl.registerCall E call).2.statuses E later, status = .ok) →
    ((impl.registerCall E call).2.after E later).cache.lastError =
      (impl.registerCall E call).2.cache.lastError
  decoder : ∀ later, (impl.registerCall E call).2.statuses E later = impl.statuses E later ∧
    (impl.after E later).cache.SameTable ((impl.registerCall E call).2.after E later).cache

/-- Wherever a registration fails, it is all or nothing. -/
theorem register_allOrNothing {E : Env} {impl : Impl} {call : RegisterCall}
    (hfailed : (impl.registerCall E call).1 ≠ .ok) :
    AllOrNothing E impl call := by
  obtain ⟨hstatus, hcache⟩ := registerCall_cache E impl call
  obtain ⟨htable, herror⟩ := registerCall_failed_sameTable (hstatus ▸ hfailed)
  rw [← hcache] at htable herror
  rw [← hstatus] at herror
  exact
    { lookup := htable.findRange
      entries := htable.selectEntry
      diagnostics := htable
      status := herror
      lasts := fun _ => after_lastError E
      decoder := later_sameTable E htable }

/-- The pass over two words has run when the table node cannot be allocated. -/
def nodeFailure : RegisterCall := ⟨fun _ => 0, 0x1000, 8, ⟨true, false⟩⟩

example : (empty.registerCall default nodeFailure).2.visitors ≠ empty.visitors := by
  decide +kernel

theorem register_allOrNothing_nodeFailure :
    AllOrNothing default (empty.registerCall default nodeFailure).2 nodeFailure :=
  register_allOrNothing (by decide +kernel)

end Impl

end GabyVm.Cache
