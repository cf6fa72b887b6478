import GabyVm.Foundation.Schedule

/-!
More fuel.

An action that ran out of fuel says nothing about what it would have done; one
that did not gives the same outcome with any more.  `Outcome.MoreFuel` is this
order on outcomes, and the rules below carry it through binds and loops.
-/

namespace GabyVm.Foundation

variable {ε σ α β : Type}

namespace Outcome

/-- The second outcome is the first, unless the first is a timeout. -/
inductive MoreFuel : Outcome ε σ α → Outcome ε σ α → Prop where
  | timeout (o : Outcome ε σ α) : MoreFuel .timeout o
  | refl (o : Outcome ε σ α) : MoreFuel o o

namespace MoreFuel

theorem bind {o o' : Outcome ε σ α} {f f' : α → σ → Outcome ε σ β} (h : MoreFuel o o')
    (hf : ∀ a s, MoreFuel (f a s) (f' a s)) :
    MoreFuel (o.bind f) (o'.bind f') := by
  cases h with
  | timeout o' => exact .timeout _
  | refl o =>
      cases o with
      | ok a s => exact hf a s
      | abort e s => exact .refl _
      | timeout => exact .timeout _

theorem eq_ok {o o' : Outcome ε σ α} (h : MoreFuel o o') {a : α} {s : σ} (ho : o = .ok a s) :
    o' = .ok a s := by
  cases h with
  | timeout o' => cases ho
  | refl o => exact ho

end MoreFuel

end Outcome

theorem loop_moreFuel {step step' : Action ε σ Bool}
    (hstep : ∀ s, Outcome.MoreFuel (step s) (step' s)) {n n' : Nat} (hn : n ≤ n') (s : σ) :
    Outcome.MoreFuel (loop step n s) (loop step' n' s) := by
  induction n generalizing n' s with
  | zero => exact .timeout _
  | succ n ih =>
      obtain ⟨m, rfl⟩ : ∃ m, n' = m + 1 := ⟨n' - 1, by omega⟩
      refine (hstep s).bind ?_
      intro more t
      cases more with
      | false => exact .refl _
      | true => exact ih (by omega) t

end GabyVm.Foundation
