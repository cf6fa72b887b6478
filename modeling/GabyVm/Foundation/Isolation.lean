import GabyVm.Foundation.Outcome
import Mathlib.Data.List.Infix

/-!
Agents that share a state.

Every operation on the state belongs to an agent.  What an agent sees of a run
is the list of the results of its own operations, each with its view of the
state.  `Unwinding` are conditions on single operations under which an agent
sees of a run what it sees when its own operations are all there is.
-/

namespace GabyVm.Foundation

/-- An outcome seen through a view of the state. -/
def Outcome.seen {ε σ α β : Type} (view : σ → β) : Outcome ε σ α → Outcome ε β α
  | .ok a s => .ok a (view s)
  | .abort e s => .abort e (view s)
  | .timeout => .timeout

structure Agents (ι Op ε σ α β : Type) where
  agent : Op → ι
  step : Op → Action ε σ α
  view : ι → σ → β

namespace Agents

variable {ι Op ε σ α β : Type} (S : Agents ι Op ε σ α β)

/-- `P` holds of every operation of the run and the state it starts in. -/
def Along (P : Op → σ → Prop) : List Op → σ → Prop
  | [], _ => True
  | op :: ops, s => P op s ∧ ∀ a t, S.step op s = .ok a t → Along P ops t

/-- No operation of another agent ends the run. -/
def OthersEnd (i : ι) : List Op → σ → Prop :=
  S.Along fun op s => S.agent op ≠ i → ∃ a t, S.step op s = .ok a t

/--
States related by `V` look the same to agent `i`, its own operations keep them
related, and another's operation keeps the relation to a state it is not
performed on.
-/
structure Unwinding (i : ι) (V : σ → σ → Prop) (P : Op → σ → Prop) : Prop where
  view : ∀ s t, V s t → S.view i s = S.view i t
  own : ∀ op s t, P op s → S.agent op = i → V s t →
    Outcome.Rel V V (S.step op s) (S.step op t)
  others : ∀ op s t, P op s → S.agent op ≠ i → V s t →
    ∀ a u, S.step op s = .ok a u → V u t

variable {S} {i : ι} {V : σ → σ → Prop} {P : Op → σ → Prop}

theorem Along.tail {op : Op} {ops : List Op} {s t : σ} {a : α}
    (h : S.Along P (op :: ops) s) (hstep : S.step op s = .ok a t) :
    S.Along P ops t :=
  h.2 a t hstep

theorem Unwinding.seen (h : S.Unwinding i V P) {o o' : Outcome ε σ α}
    (ho : Outcome.Rel V V o o') :
    o.seen (S.view i) = o'.seen (S.view i) := by
  cases ho with
  | ok hst => simp only [Outcome.seen, h.view _ _ hst]
  | abort hst => simp only [Outcome.seen, h.view _ _ hst]
  | timeout => rfl

variable (S) in
/-- `check` holds of every operation of the run, which stops where one fails. -/
def checks (check : Op → σ → Bool) : List Op → σ → Bool
  | [], _ => true
  | op :: ops, s =>
      check op s && match S.step op s with
        | .ok _ t => checks check ops t
        | .abort _ _ => true
        | .timeout => true

theorem along_of_checks {check : Op → σ → Bool} (hcheck : ∀ op s, check op s = true → P op s)
    {ops : List Op} {s : σ} (h : S.checks check ops s = true) :
    S.Along P ops s := by
  induction ops generalizing s with
  | nil => trivial
  | cons op ops ih =>
      simp only [checks, Bool.and_eq_true] at h
      refine ⟨hcheck op s h.1, fun a t hstep => ih ?_⟩
      rw [hstep] at h
      exact h.2

section Runs

variable [DecidableEq ι]

variable (S) in
def alone (i : ι) (ops : List Op) : List Op := ops.filter fun op => S.agent op = i

variable (S) in
/-- What an agent sees of a run; an abort ends the run for every agent. -/
def sees (i : ι) : List Op → σ → List (Outcome ε β α)
  | [], _ => []
  | op :: ops, s =>
      let later := match S.step op s with
        | .ok _ t => sees i ops t
        | .abort _ _ => []
        | .timeout => []
      if S.agent op = i then (S.step op s).seen (S.view i) :: later else later

/-- What is missing of the own run is only what comes after the end of the shared one. -/
theorem Unwinding.sees_append (h : S.Unwinding i V P) (ops : List Op) {s t : σ}
    (hP : S.Along P ops s) (hst : V s t) :
    ∃ rest, S.sees i ops s ++ rest = S.sees i (S.alone i ops) t ∧
      (S.OthersEnd i ops s → rest = []) := by
  induction ops generalizing s t with
  | nil => exact ⟨[], rfl, fun _ => rfl⟩
  | cons op ops ih =>
      by_cases hagent : S.agent op = i
      · have hstep := h.own op s t hP.1 hagent hst
        have hhead := h.seen hstep
        have halone : S.alone i (op :: ops) = op :: S.alone i ops := by
          simp [alone, hagent]
        rw [halone]
        simp only [sees, hagent, if_true, List.cons_append, ← hhead]
        generalize hs : S.step op s = o at hstep
        generalize S.step op t = o' at hstep
        cases hstep with
        | ok huv =>
            obtain ⟨rest, hrest, hnil⟩ := ih (hP.tail hs) huv
            exact ⟨rest, congrArg _ hrest, fun hends => hnil (hends.tail hs)⟩
        | abort _ => exact ⟨[], rfl, fun _ => rfl⟩
        | timeout => exact ⟨[], rfl, fun _ => rfl⟩
      · have halone : S.alone i (op :: ops) = S.alone i ops := by
          simp [alone, hagent]
        have hended (hs : ∀ a u, S.step op s ≠ .ok a u) (hends : S.OthersEnd i (op :: ops) s) :
            S.sees i (S.alone i ops) t = [] := by
          obtain ⟨a, u, hok⟩ := hends.1 hagent
          exact absurd hok (hs a u)
        rw [halone]
        simp only [sees, hagent, if_false]
        cases hs : S.step op s with
        | ok a u =>
            obtain ⟨rest, hrest, hnil⟩ :=
              ih (hP.tail hs) (h.others op s t hP.1 hagent hst a u hs)
            exact ⟨rest, hrest, fun hends => hnil (hends.tail hs)⟩
        | abort e u => exact ⟨_, rfl, hended (by simp [hs])⟩
        | timeout => exact ⟨_, rfl, hended (by simp [hs])⟩

theorem Unwinding.sees_beginning (h : S.Unwinding i V P) {ops : List Op} {s t : σ}
    (hP : S.Along P ops s) (hst : V s t) :
    S.sees i ops s <+: S.sees i (S.alone i ops) t := by
  obtain ⟨rest, hrest, -⟩ := h.sees_append ops hP hst
  exact ⟨rest, hrest⟩

/-- If no other agent ends the run, the agent sees all of its own. -/
theorem Unwinding.sees_eq (h : S.Unwinding i V P) {ops : List Op} {s t : σ}
    (hP : S.Along P ops s) (hst : V s t) (hends : S.OthersEnd i ops s) :
    S.sees i ops s = S.sees i (S.alone i ops) t := by
  obtain ⟨rest, hrest, hnil⟩ := h.sees_append ops hP hst
  rw [← hrest, hnil hends, List.append_nil]

end Runs

end Agents

end GabyVm.Foundation
