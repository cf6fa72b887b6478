import GabyVm.Aarch64.GuardedStack
import GabyVm.Aarch64.TakenBranch
import GabyVm.Cache.Dispatch
import GabyVm.Cache.Untagged
import GabyVm.Engine.Reentry

/-!
# Registered code is executable

A simulator reaches an address by an entry form of a call, by a write of the
program counter, or by a branch through a register.  All three commit the
address without its tag, while the table keys a range by its start as given.
The two agree exactly as long as no accepted range reaches the tag bits.
-/

namespace GabyVm.Engine

open GabyVm.Aarch64
open GabyVm.Cache
open GabyVm.Cache.PredecodeCache
open GabyVm.Foundation

variable {τ : Type}

/-! ## Ways to an address -/

def World.firstStep (w : World τ) (call : ExecCall) : World τ :=
  match call.entry? with
  | some entry => (w.entered call).setCore ((w.entered call).core.writePc entry)
  | none => w.entered call

def World.attach (w : World τ) (cache : PredecodeCache) : World τ :=
  { w with cache := some cache }

/-- The hook, if there is one, returns the target it was given. -/
def Host.LetsThrough (H : Host τ) : Prop :=
  ∀ hook, H.branchHook = some hook → ∀ target, hook target = .ret target

/-- The simulator is about to take a step that it was sent to `target` for. -/
inductive SentTo (E : Env) (H : Host τ) (nested : ExecCall → Act τ Bool) (target : Addr) :
    World τ → Prop where
  | entry (w : World τ) {call : ExecCall} (htrack : call.track = .cache)
      (hentry : call.entry? = some target) : SentTo E H nested target (w.firstStep call)
  | write {w : World τ} {s : Sim} (hwrite : w.sim.write (.gp gpPC target) = .ok s) :
      SentTo E H nested target ({ w with sim := s }.firstStep (.stepOnce .cache))
  | branch {track : Track} {w u v : World τ} {found : Found} (hhook : H.LetsThrough)
      (hfound : dispatch E track w = .ok found u)
      (hvisitor : found.2 = .unconditionalBranchToRegister)
      (hop : registerBranchOp w.core.instr ∈ [BR, BLR, RET])
      (htarget : w.core.readXRegister w.core.instr.getRn = target)
      (hstep : stepOnce E H nested track w = .ok true v) : SentTo E H nested target v

variable {E : Env} {H : Host τ} {nested : ExecCall → Act τ Bool}

theorem Host.LetsThrough.commit (hhook : H.LetsThrough) {target : Addr} {w v : World τ}
    (h : gabyHookedWritePc E H nested target w = .ok () v) :
    v.core.pc = addressUntag target ∧ v.core.pcModified = true := by
  cases hinstalled : H.branchHook with
  | none =>
      simp only [gabyHookedWritePc, hinstalled, modifyCore_apply] at h
      cases h
      exact ⟨rfl, rfl⟩
  | some hook =>
      obtain ⟨next, u, hrun, -, rfl⟩ := hooked_commit hinstalled h
      rw [hhook hook hinstalled target] at hrun
      cases hrun
      exact ⟨rfl, rfl⟩

/-- A branch without authentication asks for what its register holds. -/
theorem registerTarget_of_plain {c : Core} {w : Word}
    (hop : registerBranchOp w ∈ [BR, BLR, RET]) :
    registerTarget c w = c.readXRegister w.getRn := by
  simp only [List.mem_cons, List.not_mem_nil, or_false] at hop
  rcases hop with hop | hop | hop
  all_goals
    simp only [registerTarget, registerBranch, hop]
    rfl

theorem finishStep_pc {c : Core} (h : c.pcModified = true) : (finishStep c).pc = c.pc := by
  simp [finishStep, Core.incrementPc, Core.updateBType, h]

/-- A register branch that nothing diverts lands at its target without the tag. -/
theorem registerBranch_lands (hhook : H.LetsThrough) {track : Track} {w u v : World τ}
    {found : Found} (hfound : dispatch E track w = .ok found u)
    (hvisitor : found.2 = .unconditionalBranchToRegister)
    (hop : registerBranchOp w.core.instr ∈ registerBranchOps)
    (hstep : stepOnce E H nested track w = .ok true v) :
    v.core.pc = addressUntag (registerTarget (visitCore w.core found.1) w.core.instr) := by
  obtain ⟨-, found', u', x, hfound', hrun, rfl⟩ := stepOnce_eq_ok hstep
  rw [hfound] at hfound'
  cases hfound'
  have hsteps := visitUnconditionalBranchToRegister_stepsAs (E := E)
    (c := visitCore w.core found.1) hop rfl
  rw [hvisitor] at hrun
  cases hbranch : visitUnconditionalBranchToRegister E w.core.instr
      (visitCore w.core found.1) with
  | fallThrough c => exact absurd hbranch visitUnconditionalBranchToRegister_taken
  | commit target c =>
      rw [runVisitor_commit (v := .unconditionalBranchToRegister)
        (w := u.setCore (visitCore w.core found.1)) (congrArg some hbranch)] at hrun
      obtain ⟨hpc, hmodified⟩ := hhook.commit hrun
      rw [hbranch] at hsteps
      have htarget := hsteps.target_eq
      rw [World.core_setCore, finishStep_pc hmodified, hpc, htarget]
      rfl
  | abort reason c =>
      rw [runVisitor_branch E H nested (v := .unconditionalBranchToRegister)
        (w := u.setCore (visitCore w.core found.1)) (congrArg some hbranch)] at hrun
      cases hrun

/-- Whichever way the simulator was sent, it stands at the address without its tag. -/
theorem SentTo.pc {target : Addr} {v : World τ} (h : SentTo E H nested target v) :
    v.core.pc = addressUntag target := by
  cases h with
  | entry w htrack hentry =>
      simp only [World.firstStep, hentry]
      rfl
  | write hwrite =>
      cases hwrite
      rfl
  | branch hhook hfound hvisitor hop htarget hstep =>
      have hsub : [BR, BLR, RET] ⊆ registerBranchOps := by decide
      rw [registerBranch_lands hhook hfound hvisitor (hsub hop) hstep,
        registerTarget_of_plain hop, ← htarget]
      rfl

/-! ## Dispatch through an entry -/

/-- The next step on the cache track goes through entry `k` of the range. -/
structure DispatchesThrough (E : Env) (H : Host τ) (nested : ExecCall → Act τ Bool)
    (cache : PredecodeCache) (r : RangeRecord) (k : Nat) (v : World τ) : Prop where
  running : v.core.isSimulationFinished = false
  selects : cache.selectRange v.sim.curRange v.core.pc = some r
  index : r.entryIndex v.core.pc = k
  steps : ∃ hk : k < r.entries.size, stepOnce E H nested .cache (v.attach cache) =
    (executeEntry E H nested r.entries[k] ((v.attach cache).beginCached cache)).bind
      fun _ w => .ok true w

theorem selectEntry_of_selectRange {cache : PredecodeCache} {range : Option Addr} {pc : Addr}
    {r : RangeRecord} (h : cache.selectRange range pc = some r) :
    cache.selectEntry range pc = some (r.entry pc (selectRange_contains h)) := by
  unfold selectEntry
  split
  · rename_i r' hr'
    obtain rfl : r' = r := Option.some.inj (hr'.symm.trans h)
    rfl
  · rename_i hnone
    rw [h] at hnone
    cases hnone

/-- At an aligned address of a range of the table the step goes through its entry. -/
theorem dispatchesThrough_of_findRange {cache : PredecodeCache} (htable : cache.Table)
    {r : RangeRecord} {v : World τ} (hpc : v.core.pc ≠ 0)
    (halign : isWordAligned v.core.pc = true)
    (hfound : cache.findRange v.core.pc = some r) :
    DispatchesThrough E H nested cache r (r.entryIndex v.core.pc) v := by
  have hselect : cache.selectRange v.sim.curRange v.core.pc = some r := by
    rw [Shared.selectRange_eq_findRange htable, hfound]
  have hcontains := selectRange_contains hselect
  refine ⟨?_, hselect, rfl, RangeRecord.entryIndex_lt hcontains, ?_⟩
  · rw [Core.isSimulationFinished, beq_eq_false_iff_ne]
    exact hpc
  · have hstep := Engine.executeInstructionCached_eq E H nested (w := v.attach cache)
      (assertAligned_ok E halign) rfl (selectEntry_of_selectRange hselect)
    rw [stepOnce_eq E H nested (w := v.attach cache) hpc, execute, hstep]
    rfl

/-! ## Registered code -/

/--
Every accepted range is dispatched through, word by word, in every later table,
and no two of them have an address in common but for the tag.
-/
structure RegisteredExecutable (E : Env) (calls : List RegisterCall) : Prop where
  dispatches : ∀ pre call, Accepted E calls pre call →
    ∃ r, Builds E (registerAll E pre) call r ∧
      ∀ mid, pre ++ [call] <+: mid → mid <+: calls →
        ∀ k, 4 * k < call.sizeBytes.toNat → wordAddr call.start k ≠ 0 →
          ∀ (τ : Type) (H : Host τ) (nested : ExecCall → Act τ Bool) (v : World τ),
            SentTo E H nested (wordAddr call.start k) v →
              DispatchesThrough E H nested (registerAll E mid) r k v
  apart : ∀ pre call pre' call', Accepted E calls pre call → Accepted E calls pre' call' →
    pre.length ≠ pre'.length →
      ∀ a a', call.interval.Covers a → call'.interval.Covers a' → addressUntag a ≠ addressUntag a'

theorem covers_lt_of_untagged {call : RegisterCall} (h : call.Untagged) {a : Addr}
    (ha : call.interval.Covers a) :
    a.toNat < 2 ^ 56 := by
  have hbounds := (Interval.covers_iff h.noWrap a).mp ha
  unfold RegisterCall.Untagged at h
  simp only [RegisterCall.interval] at hbounds
  omega

theorem apart_of_untagged {E : Env} {calls pre pre' : List RegisterCall}
    {call call' : RegisterCall} (hall : AllUntagged E calls) (h : Accepted E calls pre call)
    (h' : Accepted E calls pre' call') (hne : pre.length ≠ pre'.length) {a a' : Addr}
    (ha : call.interval.Covers a) (ha' : call'.interval.Covers a') :
    addressUntag a ≠ addressUntag a' := by
  intro heq
  rw [addressUntag_of_lt (covers_lt_of_untagged (hall pre call h) ha),
    addressUntag_of_lt (covers_lt_of_untagged (hall pre' call' h') ha')] at heq
  subst heq
  rcases Nat.lt_or_gt_of_ne hne with hlt | hlt
  · exact h.disjoint h' hall hlt a ⟨ha, ha'⟩
  · exact h'.disjoint h hall hlt a ⟨ha', ha⟩

theorem registeredExecutable_of_untagged {E : Env} {calls : List RegisterCall}
    (hall : AllUntagged E calls) :
    RegisteredExecutable E calls := by
  refine ⟨?_, ?_⟩
  · intro pre call hcall
    obtain ⟨r, hr, -⟩ := hcall.commits
    refine ⟨r, hr, ?_⟩
    intro mid hpre hmid k hk hne τ H nested v hsent
    have huntagged := hall pre call hcall
    have hpc : v.core.pc = wordAddr call.start k := by
      rw [hsent.pc, addressUntag_of_lt (huntagged.wordAddr_lt hk)]
    have hstart : call.start.toNat % 4 = 0 := by
      rw [← hr.start]
      exact r.start_aligned
    have halign : isWordAligned v.core.pc = true := by
      rw [hpc]
      exact wordAddr_aligned hstart k
    have hfound : (registerAll E mid).findRange v.core.pc = some r := by
      rw [hpc]
      exact hcall.findRange hall hr hpre hmid (RegisterCall.covers_wordAddr hk)
    have hindex : r.entryIndex v.core.pc = k := by
      rw [hpc, ← hr.start]
      exact RangeRecord.entryIndex_wordAddr (by have := call.sizeBytes.isLt; omega)
    have htable := (registerAll_lowTable (hall.of_prefix hmid)).table
    rw [← hindex]
    exact dispatchesThrough_of_findRange htable (by rwa [hpc]) halign hfound
  · intro pre call pre' call' h h' hne a a' ha ha'
    exact apart_of_untagged hall h h' hne ha ha'

theorem not_dispatchesThrough_tagged {cache : PredecodeCache} {r : RangeRecord} {start : Addr}
    {k : Nat} {v : World τ} (hstart : r.start = start)
    (htag : 2 ^ 56 ≤ (wordAddr start k).toNat)
    (hpc : v.core.pc = addressUntag (wordAddr start k)) :
    ¬DispatchesThrough E H nested cache r k v := by
  intro h
  subst hstart
  have halign : isWordAligned v.core.pc = true := by
    rw [hpc]
    exact addressUntag_aligned (wordAddr_aligned r.start_aligned k)
  have hword := RangeRecord.eq_wordAddr_of_entryIndex halign h.index
  rw [hpc] at hword
  exact addressUntag_ne htag hword

theorem not_executable_of_tagged {E : Env} {calls pre : List RegisterCall} {call : RegisterCall}
    (hcall : Accepted E calls pre call) (htag : ¬call.Untagged) :
    ¬RegisteredExecutable E calls := by
  intro h
  obtain ⟨hadmissible, -⟩ := admissible_of_ok hcall.ok
  obtain ⟨k, hk, hword⟩ := RegisterCall.exists_taggedWord hadmissible htag
  obtain ⟨r, hr, hthrough⟩ := h.dispatches pre call hcall
  have hne : wordAddr call.start k ≠ 0 := by
    intro hzero
    rw [hzero] at hword
    simp at hword
  have hsent : SentTo E (Host.none Unit) (fun _ => Action.timeout) (wordAddr call.start k)
      ((World.load E 0 [] ()).firstStep (.stepOnceFrom .cache (wordAddr call.start k))) :=
    .entry _ rfl rfl
  exact not_dispatchesThrough_tagged hr.start hword hsent.pc
    (hthrough (pre ++ [call]) List.prefix_rfl hcall.isPrefix k hk hne Unit _ _ _ hsent)

/--
Over every sequence of registrations, what is accepted is executable from then
on exactly when no accepted range reaches the tag bits.
-/
theorem registeredExecutable_iff (E : Env) (calls : List RegisterCall) :
    RegisteredExecutable E calls ↔ ∀ pre call, Accepted E calls pre call → call.Untagged := by
  constructor
  · intro h pre call hcall
    by_contra htag
    exact not_executable_of_tagged hcall htag h
  · exact registeredExecutable_of_untagged

def taggedCall : RegisterCall := registerWords taggedAddress [0xd65f03c0]

/-- The range is accepted, and a run to its start aborts. -/
theorem taggedCall_aborts :
    (empty.registerCall (smallEnv true) taggedCall).1 = .ok ∧
      (runCall (smallEnv true) (Host.none Unit) 3 (.runFrom .cache taggedAddress)
        (World.load (smallEnv true) taggedAddress [0xd65f03c0] ())).reason? =
          some (.notInRegisteredRange 0x1000) ∧
      ¬RegisteredExecutable (smallEnv true) [taggedCall] := by
  have hok : (empty.registerCall (smallEnv true) taggedCall).1 = .ok := by decide +kernel
  refine ⟨hok, by decide +kernel, ?_⟩
  have hcall : Accepted (smallEnv true) [taggedCall] [] taggedCall := ⟨List.prefix_rfl, hok⟩
  exact not_executable_of_tagged hcall (by decide)

end GabyVm.Engine
