import GabyVm.Engine.Visits
import GabyVm.Engine.Execution
import GabyVm.Foundation.Fuel

/-!
# Calls with more fuel

The fuel of a call bounds its loop and the nesting below it.  A call that does
not run out of it ends in the same way with any more.
-/

namespace GabyVm.Engine

open GabyVm.Aarch64
open GabyVm.Foundation
open GabyVm.Foundation.Outcome (MoreFuel)

variable {τ α : Type} {E : Env} {H : Host τ} {nested nested' : ExecCall → Act τ Bool}

section Steps

variable (hcalls : ∀ call (w : World τ), MoreFuel (nested call w) (nested' call w))
include hcalls

theorem HostProg.run_moreFuel (p : HostProg τ α) (w : World τ) :
    MoreFuel (p.run E nested w) (p.run E nested' w) := by
  induction p generalizing w with
  | ret a => exact .refl _
  | getHost next ih => exact ih w.host w
  | setHost t next ih => exact ih _
  | readAll next ih => exact ih w.sim.readAll w
  | write r next ih => exact (MoreFuel.refl (writeRegister r w)).bind fun _ v => ih v
  | readMemory a next ih => exact ih (w.core.memory a) w
  | writeMemory a b next ih => exact ih _
  | exec call next ih => exact (hcalls call w).bind fun more v => ih more v
  | registerCodeRange start sizeBytes alloc next ih => exact ih _ _
  | setTraceParameters parameters next ih => exact ih _

theorem notifyStore_moreFuel (event : MemoryWriteEvent) (w : World τ) :
    MoreFuel (notifyStore E H nested event w) (notifyStore E H nested' event w) := by
  unfold notifyStore
  cases H.memoryWriteObserver with
  | none => exact .refl _
  | some observer => exact (observer event).run_moreFuel hcalls _

theorem runLeaf_moreFuel (p : LeafProg) (w : World τ) :
    MoreFuel (runLeaf E H nested p w) (runLeaf E H nested' p w) := by
  induction p generalizing w with
  | done c => exact .refl _
  | abort message c => exact .refl _
  | store event c next ih =>
      exact (notifyStore_moreFuel hcalls event _).bind fun _ v => ih v.core v

theorem gabyHookedWritePc_moreFuel (target : Addr) (w : World τ) :
    MoreFuel (gabyHookedWritePc E H nested target w) (gabyHookedWritePc E H nested' target w) := by
  unfold gabyHookedWritePc
  cases H.branchHook with
  | none => exact .refl _
  | some hook => exact ((hook target).run_moreFuel hcalls _).bind fun _ _ => .refl _

theorem runBranch_moreFuel (step : BranchStep) (w : World τ) :
    MoreFuel (runBranch E H nested step w) (runBranch E H nested' step w) := by
  cases step with
  | fallThrough c => exact .refl _
  | commit target c => exact gabyHookedWritePc_moreFuel hcalls target _
  | abort reason c => exact .refl _

theorem runVisitor_moreFuel (v : Visitor) (word : Word) (w : World τ) :
    MoreFuel (runVisitor E H nested v word w) (runVisitor E H nested' v word w) := by
  cases v with
  | unimplemented => exact .refl _
  | unallocated => exact .refl _
  | leaf run => exact runLeaf_moreFuel hcalls (run word w.core) w
  | _ => exact runBranch_moreFuel hcalls _ w

theorem stepOnce_moreFuel (track : Track) (w : World τ) :
    MoreFuel (stepOnce E H nested track w) (stepOnce E H nested' track w) := by
  by_cases hpc : w.core.pc = 0
  · simp only [stepOnce, Core.isSimulationFinished, hpc, BEq.rfl, if_true]
    exact .refl _
  · rw [stepOnce_dispatch hpc, stepOnce_dispatch hpc]
    refine (MoreFuel.refl _).bind ?_
    intro found u
    exact (runVisitor_moreFuel hcalls found.2 u.core.instr _).bind fun _ _ => .refl _

theorem execCall_moreFuel {n n' : Nat} (hn : n ≤ n') (call : ExecCall) (w : World τ) :
    MoreFuel (execCall E H nested n call w) (execCall E H nested' n' call w) := by
  unfold execCall
  split_ifs
  · exact .refl _
  refine MoreFuel.bind ?_ (fun _ _ => .refl _)
  cases call with
  | runFrom track entry =>
      exact (loop_moreFuel (stepOnce_moreFuel hcalls track) hn _).bind fun _ _ => .refl _
  | stepOnce track => exact stepOnce_moreFuel hcalls track _
  | stepOnceFrom track entry => exact stepOnce_moreFuel hcalls track _

end Steps

theorem runCall_moreFuel (E : Env) (H : Host τ) {fuel fuel' : Nat} (hfuel : fuel ≤ fuel')
    (call : ExecCall) (w : World τ) :
    MoreFuel (runCall E H fuel call w) (runCall E H fuel' call w) := by
  induction fuel generalizing fuel' call w with
  | zero => exact .timeout _
  | succ fuel ih =>
      obtain ⟨n, rfl⟩ : ∃ n, fuel' = n + 1 := ⟨fuel' - 1, by omega⟩
      exact execCall_moreFuel (fun call w => ih (by omega) call w) (by omega) call w

end GabyVm.Engine
