import Mathlib.Data.List.Forall2
import GabyVm.Foundation.Outcome

/-!
Runs of boolean steps.

A step answers `true` when it did its work and `false` when there was nothing
left to do.  A schedule is a list of steps; its run performs them in order,
counts those that answered `true` and stops at the first that answered `false`.
`loop` repeats one step until it answers `false`, within a given fuel.
-/

namespace GabyVm.Foundation

variable {ε σ σ' : Type}

/-- Run the steps in order up to the first that answers `false`. -/
def runSchedule : List (Action ε σ Bool) → Action ε σ Nat
  | [] => pure 0
  | step :: steps => do
      let more ← step
      if more then
        let count ← runSchedule steps
        pure (count + 1)
      else
        pure 0

/-- Repeat a step until it answers `false`. -/
def loop (step : Action ε σ Bool) : Nat → Action ε σ Unit
  | 0 => Action.timeout
  | fuel + 1 => do
      let more ← step
      if more then loop step fuel else pure ()

/-- `t` is the state after `steps` of a schedule that all answered `true`. -/
inductive Reaches : List (Action ε σ Bool) → σ → σ → Prop where
  | refl (s : σ) : Reaches [] s s
  | step {step : Action ε σ Bool} {steps : List (Action ε σ Bool)} {s t u : σ}
      (h : step s = .ok true t) (rest : Reaches steps t u) :
      Reaches (step :: steps) s u

namespace Reaches

theorem trans {steps more : List (Action ε σ Bool)} {s t u : σ}
    (h : Reaches steps s t) (h' : Reaches more t u) :
    Reaches (steps ++ more) s u := by
  induction h with
  | refl _ => exact h'
  | step hstep _ ih => exact .step hstep (ih h')

theorem single {step : Action ε σ Bool} {s t : σ} (h : step s = .ok true t) :
    Reaches [step] s t :=
  .step h (.refl t)

/-- What every step preserves holds in every state a schedule reaches. -/
theorem invariant {P : σ → Prop} {steps : List (Action ε σ Bool)} {s u : σ}
    (h : Reaches steps s u)
    (hstep : ∀ step ∈ steps, ∀ v w, P v → step v = .ok true w → P w)
    (hs : P s) :
    P u := by
  induction h with
  | refl _ => exact hs
  | @step step steps v w x hvw _ ih =>
      refine ih ?_ (hstep step (by simp) v w hs hvw)
      intro next hnext
      exact hstep next (by simp [hnext])

end Reaches

/-! ## Comparing two runs -/

/--
Steps that keep `R` wherever `P` holds give related runs, when `P` holds in
every state the first run goes through.
-/
theorem runSchedule_rel {R Q : σ → σ' → Prop} {P : σ → Prop}
    {steps : List (Action ε σ Bool)} {steps' : List (Action ε σ' Bool)}
    (hsteps : List.Forall₂
      (fun f g => ∀ s t, P s → R s t → Outcome.Rel R Q (f s) (g t)) steps steps')
    {s : σ} {t : σ'} (hst : R s t)
    (hP : ∀ pre, pre <+: steps → ∀ u, Reaches pre s u → P u) :
    Outcome.Rel R Q (runSchedule steps s) (runSchedule steps' t) := by
  induction hsteps generalizing s t with
  | nil => exact .ok hst
  | @cons f g fs gs hfg _ ih =>
      have hPs : P s := hP [] (List.nil_prefix) s (.refl s)
      refine (hfg s t hPs hst).bind ?_
      intro more u v hu _ huv
      cases more with
      | false => exact .ok huv
      | true =>
          refine (ih huv ?_).bind ?_
          · intro pre hpre w hw
            exact hP (f :: pre) (List.cons_prefix_cons.mpr ⟨rfl, hpre⟩) w (.step hu hw)
          · intro count w x _ _ hwx
            exact .ok hwx

theorem loop_rel {R Q : σ → σ' → Prop} {P : σ → Prop} {step : Action ε σ Bool}
    {step' : Action ε σ' Bool}
    (hstep : ∀ s t, P s → R s t → Outcome.Rel R Q (step s) (step' t))
    (fuel : Nat) {s : σ} {t : σ'} (hst : R s t)
    (hP : ∀ n u, Reaches (List.replicate n step) s u → P u) :
    Outcome.Rel R Q (loop step fuel s) (loop step' fuel t) := by
  induction fuel generalizing s t with
  | zero => exact .timeout
  | succ fuel ih =>
      have hPs : P s := hP 0 s (.refl s)
      refine (hstep s t hPs hst).bind ?_
      intro more u v hu _ huv
      cases more with
      | false => exact .ok huv
      | true =>
          apply ih huv
          intro n w hw
          exact hP (n + 1) w (.step hu hw)

/-! ### Exactly when two runs agree -/

theorem rel_count_iff {R Q : σ → σ' → Prop} {o : Outcome ε σ Nat} {o' : Outcome ε σ' Nat} :
    Outcome.Rel R Q (o.bind fun n s => .ok (n + 1) s) (o'.bind fun n s => .ok (n + 1) s) ↔
      Outcome.Rel R Q o o' := by
  constructor
  · intro h
    cases o with
    | ok n s =>
        cases o' with
        | ok n' s' =>
            cases h with
            | ok h => exact .ok h
        | abort e s' => cases h
        | timeout => cases h
    | abort e s =>
        cases o' with
        | ok n' s' => cases h
        | abort e' s' =>
            cases h with
            | abort h => exact .abort h
        | timeout => cases h
    | timeout =>
        cases o' with
        | ok n' s' => cases h
        | abort e s' => cases h
        | timeout => exact .timeout
  · intro h
    exact h.bind fun _ _ _ _ _ hst => .ok hst

theorem runSchedule_cons (step : Action ε σ Bool) (steps : List (Action ε σ Bool)) (s : σ) :
    runSchedule (step :: steps) s = (step s).bind fun more t =>
      if more then (runSchedule steps t).bind fun n u => .ok (n + 1) u else .ok 0 t := by
  rw [runSchedule, Action.bind_apply]
  congr 1
  funext more t
  cases more <;> rfl

theorem rel_of_runSchedule_single {R Q : σ → σ' → Prop} {step : Action ε σ Bool}
    {step' : Action ε σ' Bool} {s : σ} {t : σ'}
    (h : Outcome.Rel R Q (runSchedule [step] s) (runSchedule [step'] t)) :
    Outcome.Rel R Q (step s) (step' t) := by
  rw [runSchedule_cons, runSchedule_cons] at h
  cases hs : step s with
  | ok more u =>
      cases ht : step' t with
      | ok more' u' =>
          rw [hs, ht] at h
          cases more <;> cases more' <;> cases h <;> exact .ok ‹_›
      | abort e u' =>
          rw [hs, ht] at h
          cases more <;> cases h
      | timeout =>
          rw [hs, ht] at h
          cases more <;> cases h
  | abort e u =>
      cases ht : step' t with
      | ok more' u' =>
          rw [hs, ht] at h
          cases more' <;> cases h
      | abort e' u' =>
          rw [hs, ht] at h
          cases h with
          | abort h => exact .abort h
      | timeout =>
          rw [hs, ht] at h
          cases h
  | timeout =>
      cases ht : step' t with
      | ok more' u' =>
          rw [hs, ht] at h
          cases more' <;> cases h
      | abort e u' =>
          rw [hs, ht] at h
          cases h
      | timeout => exact .timeout

/-- A run whose every step meets `P` is related to the other run. -/
theorem runSchedule_rel_of {ι : Type} {f : ι → Action ε σ Bool} {g : ι → Action ε σ' Bool}
    {R Q : σ → σ' → Prop} {P : ι → σ → Prop}
    (hgood : ∀ i s t, R s t → P i s → Outcome.Rel R Q (f i s) (g i t))
    (is : List ι) {s : σ} {t : σ'} (h : R s t)
    (hP : ∀ pre i, pre ++ [i] <+: is → ∀ u, Reaches (pre.map f) s u → P i u) :
    Outcome.Rel R Q (runSchedule (is.map f) s) (runSchedule (is.map g) t) := by
  induction is generalizing s t with
  | nil => exact .ok h
  | cons i is ih =>
      have hfirst : P i s :=
        hP [] i (List.cons_prefix_cons.mpr ⟨rfl, List.nil_prefix⟩) s (.refl s)
      rw [List.map_cons, List.map_cons, runSchedule_cons, runSchedule_cons]
      refine (hgood i s t h hfirst).bind ?_
      intro more u v hu _ huv
      cases more with
      | false => exact .ok huv
      | true =>
          refine rel_count_iff.mpr (ih huv ?_)
          intro pre k hpre w hw
          exact hP (i :: pre) k (List.cons_prefix_cons.mpr ⟨rfl, hpre⟩) w (.step hu hw)

/--
When `P` decides whether a step keeps the states related, two runs agree step
by step exactly when `P` holds before every step of the first.
-/
theorem runSchedule_rel_iff {ι : Type} {f : ι → Action ε σ Bool} {g : ι → Action ε σ' Bool}
    {R Q : σ → σ' → Prop} {P : ι → σ → Prop}
    (hgood : ∀ i s t, R s t → P i s → Outcome.Rel R Q (f i s) (g i t))
    (hbad : ∀ i s t, R s t → ¬P i s → ¬Outcome.Rel R Q (f i s) (g i t))
    (is : List ι) {s : σ} {t : σ'} (h : R s t) :
    (∀ pre, pre <+: is →
      Outcome.Rel R Q (runSchedule (pre.map f) s) (runSchedule (pre.map g) t)) ↔
    ∀ pre i, pre ++ [i] <+: is → ∀ u, Reaches (pre.map f) s u → P i u := by
  constructor
  · intro hrel pre
    induction pre generalizing is s t with
    | nil =>
        intro i hpre u hu
        cases hu
        by_contra hP
        exact hbad i s t h hP (rel_of_runSchedule_single (hrel [i] hpre))
    | cons first pre ih =>
        intro i hpre u hu
        cases hu with
        | @step _ _ _ v _ hstep hrest =>
            cases is with
            | nil => simp at hpre
            | cons j is =>
                obtain ⟨rfl, hafter⟩ := List.cons_prefix_cons.mp hpre
                have hfirst := rel_of_runSchedule_single
                  (hrel [first] (List.cons_prefix_cons.mpr ⟨rfl, List.nil_prefix⟩))
                obtain ⟨v', hstep', hv⟩ := hfirst.ok_right hstep
                refine ih is hv ?_ i hafter u hrest
                intro rest hrest
                have hrun := hrel (first :: rest) (List.cons_prefix_cons.mpr ⟨rfl, hrest⟩)
                rw [List.map_cons, List.map_cons, runSchedule_cons, runSchedule_cons, hstep,
                  hstep'] at hrun
                exact rel_count_iff.mp hrun
  · intro hP pre hpre
    refine runSchedule_rel_of hgood pre h ?_
    intro first i hfirst u hu
    exact hP first i (hfirst.trans hpre) u hu

/--
Steps that answered `true`, and a value that each of them updates from the state
it is made in.
-/
inductive Replays {γ : Type*} (next : γ → σ → γ) (step : Action ε σ Bool) :
    γ → σ → γ → σ → Prop where
  | refl (g : γ) (s : σ) : Replays next step g s g s
  | step {g g' : γ} {s t u : σ} (h : step s = .ok true t)
      (rest : Replays next step (next g s) t g' u) : Replays next step g s g' u

theorem Replays.reaches {γ : Type*} {next : γ → σ → γ} {step : Action ε σ Bool} {g g' : γ} {s u : σ}
    (h : Replays next step g s g' u) : ∃ n, Reaches (List.replicate n step) s u := by
  induction h with
  | refl g s => exact ⟨0, .refl s⟩
  | step hstep _ ih =>
      obtain ⟨n, hn⟩ := ih
      exact ⟨n + 1, .step hstep hn⟩

theorem Reaches.replays {γ : Type*} (next : γ → σ → γ) {step : Action ε σ Bool} {n : Nat} {s u : σ}
    (h : Reaches (List.replicate n step) s u) (g : γ) : ∃ g', Replays next step g s g' u := by
  induction n generalizing g s with
  | zero =>
      cases h
      exact ⟨g, .refl g _⟩
  | succ n ih =>
      cases h with
      | step hstep hrest =>
          obtain ⟨g', hg'⟩ := ih hrest (next g s)
          exact ⟨g', .step hstep hg'⟩

/-- The steps of a schedule answered `true`, and each of them updated the value. -/
inductive ReplaysAlong {ι γ : Type*} (next : ι → γ → σ → γ) (f : ι → Action ε σ Bool) :
    List ι → γ → σ → γ → σ → Prop where
  | refl (g : γ) (s : σ) : ReplaysAlong next f [] g s g s
  | step {i : ι} {is : List ι} {g g' : γ} {s t u : σ} (h : f i s = .ok true t)
      (rest : ReplaysAlong next f is (next i g s) t g' u) :
      ReplaysAlong next f (i :: is) g s g' u

/--
Schedules whose steps keep a relation, indexed by the value beside the first
run, are related where the first run satisfies `C`.
-/
theorem runSchedule_replay_rel {ι γ : Type*} {next : ι → γ → σ → γ} {R : γ → σ → σ' → Prop}
    {Q : σ → σ' → Prop} {C : ι → γ → σ → Prop} {f : ι → Action ε σ Bool}
    {f' : ι → Action ε σ' Bool}
    (hstep : ∀ i g s t, C i g s → R g s t → Outcome.Rel (R (next i g s)) Q (f i s) (f' i t))
    (is : List ι) {g : γ} {s : σ} {t : σ'} (hst : R g s t)
    (hC : ∀ pre i, pre ++ [i] <+: is → ∀ g' u, ReplaysAlong next f pre g s g' u → C i g' u) :
    Outcome.Rel (fun u v => ∃ g', R g' u v) Q (runSchedule (is.map f) s)
      (runSchedule (is.map f') t) := by
  induction is generalizing g s t with
  | nil => exact .ok ⟨g, hst⟩
  | cons i is ih =>
      have hfirst : C i g s :=
        hC [] i (List.cons_prefix_cons.mpr ⟨rfl, List.nil_prefix⟩) g s (.refl g s)
      rw [List.map_cons, List.map_cons, runSchedule_cons, runSchedule_cons]
      refine (hstep i g s t hfirst hst).bind ?_
      intro more u v hu _ huv
      cases more with
      | false => exact .ok ⟨_, huv⟩
      | true =>
          refine rel_count_iff.mpr (ih huv ?_)
          intro pre k hpre g' x hx
          exact hC (i :: pre) k (List.cons_prefix_cons.mpr ⟨rfl, hpre⟩) g' x (.step hu hx)

theorem Reaches.loop_ends {step : Action ε σ Bool} {n fuel : Nat} {s t u : σ}
    (h : Reaches (List.replicate n step) s t) (hend : step t = .ok false u) (hfuel : n < fuel) :
    loop step fuel s = .ok () u := by
  induction fuel generalizing n s with
  | zero => omega
  | succ fuel ih =>
      cases n with
      | zero =>
          cases h
          simp [loop, hend]
      | succ n =>
          cases h with
          | step hstep hrest => simp [loop, hstep, ih hrest (by omega)]

/-- A loop that ends went through finitely many steps, the last answering `false`. -/
theorem loop_eq_ok {step : Action ε σ Bool} {fuel : Nat} {s t : σ} {u : Unit}
    (h : loop step fuel s = .ok u t) :
    ∃ n v, Reaches (List.replicate n step) s v ∧ step v = .ok false t := by
  induction fuel generalizing s with
  | zero => simp [loop] at h
  | succ fuel ih =>
      simp only [loop, Action.bind_apply] at h
      obtain ⟨more, v, hv, hrest⟩ := Outcome.bind_eq_ok.mp h
      cases more with
      | false =>
          simp only [Bool.false_eq_true, if_false, Action.pure_apply,
            Outcome.ok.injEq, true_and] at hrest
          subst hrest
          exact ⟨0, s, .refl s, hv⟩
      | true =>
          obtain ⟨n, w, hw, hlast⟩ := ih hrest
          exact ⟨n + 1, w, .step hv hw, hlast⟩

theorem loop_ensures {P : σ → Prop} {Q : ε → σ → Prop} {step : Action ε σ Bool}
    (hstep : ∀ s, P s → (step s).Ensures (fun _ t => P t) Q)
    (fuel : Nat) {s : σ} (hs : P s) :
    (loop step fuel s).Ensures (fun _ t => P t) Q := by
  induction fuel generalizing s with
  | zero => exact trivial
  | succ fuel ih =>
      apply (hstep s hs).bind
      intro more t ht
      cases more with
      | false => exact ht
      | true => exact ih ht

end GabyVm.Foundation
