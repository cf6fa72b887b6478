import GabyVm.Engine.Executable
import GabyVm.Engine.IdentityHook

/-!
# What the hook is asked and what its answer does

A step that takes a branch asks the hook with the target exactly as the branch
resolved it, and commits the answer without its tag.  So the hook sees the
address that would be committed without it, and the program counter reads the
answer, exactly as long as neither of the two has a tag.
-/

namespace GabyVm.Engine

open GabyVm.Aarch64
open GabyVm.Cache
open GabyVm.Foundation

variable {τ : Type}

/-! ## A step that asks -/

variable {E : Env} {H : Host τ} {nested : ExecCall → Act τ Bool}

/-- The step is the hook's run on the target, and then the commit of what it answers. -/
theorem stepOnce_asked {hook : Addr → HostProg τ Addr} (hhook : H.branchHook = some hook)
    {track : Track} {w u : World τ} {target : Addr} (hpc : w.core.pc ≠ 0)
    (hasked : asked E track w = some (target, u)) :
    stepOnce E H nested track w = ((hook target).run E nested u).bind fun next y =>
      if isWordAligned next then
        conclude E track (lastInstrWasMovprfx w.core) (y.setCore (y.core.writePc next))
      else .abort .misalignedHookPc y := by
  obtain ⟨found, x, c, hdispatch, hbranch, rfl⟩ := asked_eq_some.mp hasked
  rw [stepOnce_visit hpc hdispatch,
    runVisitor_commit (w := x.setCore (visitCore w.core found.1)) hbranch]
  simp only [gabyHookedWritePc, hhook, World.setCore_setCore, Outcome.bind_assoc]
  congr 1
  funext next y
  split_ifs <;> rfl

/-- A step that took a branch to `target`, where the hook answered `answer`. -/
structure HookedStep (E : Env) (H : Host τ) (nested : ExecCall → Act τ Bool) (track : Track)
    (w v : World τ) (target answer : Addr) : Prop where
  answered : ∃ hook u y, H.branchHook = some hook ∧ asked E track w = some (target, u) ∧
    (hook target).run E nested u = .ok answer y
  ends : stepOnce E H nested track w = .ok true v

theorem HookedStep.pc {track : Track} {w v : World τ} {target answer : Addr}
    (h : HookedStep E H nested track w v target answer) :
    v.core.pc = addressUntag answer ∧ isWordAligned answer = true := by
  obtain ⟨hook, u, y, hhook, hasked, hanswer⟩ := h.answered
  have hends := h.ends
  rw [stepOnce_asked hhook (stepOnce_eq_ok h.ends).1 hasked, hanswer, Outcome.bind_ok] at hends
  split_ifs at hends with halign
  rw [conclude_eq_ok hends]
  exact ⟨finishStep_pc rfl, halign⟩

/-! ## The documented mapping -/

/-- Without a hook the branch that stands here commits `pc`. -/
def CommitsUnhooked (E : Env) (obs : Option (MemoryWriteEvent → HostProg τ Unit))
    (nested : ExecCall → Act τ Bool) (track : Track) (w : World τ) (pc : Addr) : Prop :=
  ∃ found u y, dispatch E track w = .ok found u ∧
    runVisitor E (Host.unhooked obs) nested found.2 w.core.instr
      (u.setCore (visitCore w.core found.1)) = .ok () y ∧
    y.core.pc = pc

theorem commitsUnhooked_iff {obs : Option (MemoryWriteEvent → HostProg τ Unit)} {track : Track}
    {w u : World τ} {target pc : Addr} (hasked : asked E track w = some (target, u)) :
    CommitsUnhooked E obs nested track w pc ↔ addressUntag target = pc := by
  obtain ⟨found, x, c, hdispatch, hbranch, rfl⟩ := asked_eq_some.mp hasked
  have hrun : runVisitor E (Host.unhooked obs) nested found.2 w.core.instr
      (x.setCore (visitCore w.core found.1)) = .ok () (x.setCore (c.writePc target)) := by
    rw [runVisitor_commit (w := x.setCore (visitCore w.core found.1)) hbranch]
    rfl
  constructor
  · rintro ⟨found', u, y, hdispatch', hrun', hpc⟩
    rw [hdispatch] at hdispatch'
    cases hdispatch'
    rw [hrun] at hrun'
    cases hrun'
    exact hpc
  · intro hpc
    exact ⟨found, x, _, hdispatch, hrun, hpc⟩

/--
The hook was given the address that is committed without it, the program
counter reads the answer, and the next step ends the run for 0 only and aborts
for an answer that no range has.
-/
structure HookMapping (E : Env) (H : Host τ) (nested : ExecCall → Act τ Bool) (track : Track)
    (w v : World τ) (target answer : Addr) : Prop where
  target_eq : CommitsUnhooked E H.memoryWriteObserver nested track w target
  readPc : v.sim.readAll.pc = answer
  ends : ∀ next, (∃ u, stepOnce E H nested next v = .ok false u) ↔ answer = 0
  aborts : ∀ cache, v.cache = some cache → answer ≠ 0 →
    (∀ r, cache.Registered r → r.contains answer = false) →
      ∃ u, stepOnce E H nested .cache v = .abort (.notInRegisteredRange answer) u

/-- A step ends the run exactly at the null program counter. -/
theorem stepOnce_false_iff {track : Track} {v : World τ} :
    (∃ u, stepOnce E H nested track v = .ok false u) ↔ v.core.pc = 0 := by
  constructor
  · rintro ⟨u, h⟩
    by_contra hpc
    rw [stepOnce_eq E H nested hpc] at h
    obtain ⟨_, x, -, hdone⟩ := Outcome.bind_eq_ok.mp h
    cases hdone
  · intro hpc
    exact ⟨v, by simp [stepOnce, Core.isSimulationFinished, hpc]⟩

/-- An aligned address that no range has is named by the abort of the cache track. -/
theorem stepOnce_unregistered {cache : PredecodeCache} {v : World τ}
    (hcache : v.cache = some cache) (hpc : v.core.pc ≠ 0)
    (halign : isWordAligned v.core.pc = true)
    (hout : ∀ r, cache.Registered r → r.contains v.core.pc = false) :
    ∃ u, stepOnce E H nested .cache v = .abort (.notInRegisteredRange v.core.pc) u := by
  have hnone : cache.selectEntry v.sim.curRange v.core.pc = none := by
    cases hentry : cache.selectEntry v.sim.curRange v.core.pc with
    | none => rfl
    | some entry =>
        obtain ⟨r, hc, hselect, -⟩ := PredecodeCache.selectEntry_eq_some hentry
        rw [hout r (PredecodeCache.selectRange_registered hselect)] at hc
        cases hc
  have hlookup : lookupEntry (v.setCore (beginStep v.core)) =
      .abort (.notInRegisteredRange v.core.pc) (v.setCore (beginStep v.core)) :=
    lookupEntry_eq_abort hcache hnone
  refine ⟨v.setCore (beginStep v.core), ?_⟩
  rw [stepOnce_eq E H nested hpc]
  simp [execute, executeInstructionCached, assertAligned_ok E halign, hlookup]

theorem hookMapping_of_untagged {track : Track} {w v : World τ} {target answer : Addr}
    (h : HookedStep E H nested track w v target answer) (htarget : target.toNat < 2 ^ 56)
    (hanswer : answer.toNat < 2 ^ 56) :
    HookMapping E H nested track w v target answer := by
  obtain ⟨hpc, halign⟩ := h.pc
  rw [addressUntag_of_lt hanswer] at hpc
  obtain ⟨hook, u, y, -, hasked, -⟩ := h.answered
  refine ⟨(commitsUnhooked_iff hasked).mpr (addressUntag_of_lt htarget), hpc, ?_, ?_⟩
  · intro next
    rw [stepOnce_false_iff, hpc]
  · intro cache hcache hne hout
    rw [← hpc] at halign hne hout ⊢
    exact stepOnce_unregistered hcache hne halign hout

theorem lt_of_addressUntag_eq {a : Addr} (h : addressUntag a = a) : a.toNat < 2 ^ 56 := by
  by_contra hge
  exact addressUntag_ne (Nat.le_of_not_lt hge) h

/--
For every taken branch and every answer of the hook, what the hook is given
and what it answers are mapped as documented exactly when neither has a tag.
-/
theorem hookMapping_iff {track : Track} {w v : World τ} {target answer : Addr}
    (h : HookedStep E H nested track w v target answer) :
    HookMapping E H nested track w v target answer ↔
      target.toNat < 2 ^ 56 ∧ answer.toNat < 2 ^ 56 := by
  constructor
  · intro hmap
    obtain ⟨hook, u, y, -, hasked, -⟩ := h.answered
    refine ⟨lt_of_addressUntag_eq ((commitsUnhooked_iff hasked).mp hmap.target_eq), ?_⟩
    exact lt_of_addressUntag_eq (h.pc.1.symm.trans hmap.readPc)
  · rintro ⟨htarget, hanswer⟩
    exact hookMapping_of_untagged h htarget hanswer

/-! ## A return with and without a tag -/

theorem passThrough_hookedStep {obs : Option (MemoryWriteEvent → HostProg τ Unit)} {track : Track}
    {w : World τ} {target : Addr} (hasked : (asked E track w).map Prod.fst = some target)
    (hends : (stepOnce E (Host.passThrough obs) nested track w).result?.map Prod.fst =
      some true) :
    ∃ v, HookedStep E (Host.passThrough obs) nested track w v target target := by
  obtain ⟨⟨_, u⟩, hbranch, rfl⟩ := Option.map_eq_some_iff.mp hasked
  obtain ⟨⟨more, v⟩, hresult, rfl⟩ := Option.map_eq_some_iff.mp hends
  exact ⟨v, ⟨_, u, u, rfl, hbranch, rfl⟩, Outcome.eq_ok_of_result?_eq hresult⟩

/-- A return to the address that the link register holds. -/
def returnTo (lr : Addr) : World Unit :=
  let w := (World.load (smallEnv true) 0x1000 [0xd65f03c0] ()).seated .cache 0x1000
  w.setCore (w.core.writeLr lr)

def returnStep (w : World Unit) : Outcome Abort (World Unit) Bool :=
  stepOnce (smallEnv true) (Host.passThrough none) (fun _ => Action.timeout) .cache w

theorem hookMapping_iff_returnTo :
    ∃ v, HookMapping (smallEnv true) (Host.passThrough none) (fun _ => Action.timeout) .cache
      (returnTo 0x1000) v 0x1000 0x1000 := by
  have hasked : (asked (smallEnv true) .cache (returnTo 0x1000)).map Prod.fst =
      some 0x1000 := by decide +kernel
  have hends : (returnStep (returnTo 0x1000)).result?.map Prod.fst = some true := by
    decide +kernel
  obtain ⟨v, h⟩ := passThrough_hookedStep hasked hends
  exact ⟨v, (hookMapping_iff h).mpr ⟨by decide, by decide⟩⟩

/-- The hook is given the tag, and the program counter loses the tag of its answer. -/
theorem taggedReturn_mismatch :
    ∃ v, HookedStep (smallEnv true) (Host.passThrough none) (fun _ => Action.timeout) .cache
        (returnTo taggedAddress) v taggedAddress taggedAddress ∧
      CommitsUnhooked (smallEnv true) none (fun _ => Action.timeout) .cache
        (returnTo taggedAddress) 0x1000 ∧
      v.sim.readAll.pc = 0x1000 ∧
      ¬HookMapping (smallEnv true) (Host.passThrough none) (fun _ => Action.timeout) .cache
        (returnTo taggedAddress) v taggedAddress taggedAddress := by
  have hasked : (asked (smallEnv true) .cache (returnTo taggedAddress)).map Prod.fst =
      some taggedAddress := by decide +kernel
  have hends : (returnStep (returnTo taggedAddress)).result?.map Prod.fst = some true := by
    decide +kernel
  obtain ⟨v, h⟩ := passThrough_hookedStep hasked hends
  have hpc : v.core.pc = 0x1000 := h.pc.1
  obtain ⟨hook, u, y, -, hasked, -⟩ := h.answered
  refine ⟨v, h, (commitsUnhooked_iff hasked).mpr (by decide), hpc, fun hmap => ?_⟩
  have hread : v.core.pc = taggedAddress := hmap.readPc
  rw [hpc] at hread
  exact absurd hread (by decide)

end GabyVm.Engine
