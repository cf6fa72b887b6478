import GabyVm.Foundation.Outcome
import Mathlib.Tactic.Common

/-!
Watched loops.

A watched loop repeats a round until a check of the round ends it.  The check
sees the state before the round, the answer of the round and the state after
it.  What the loop returns is described by the rounds alone: it ends with the
first round that the check does not let pass.
-/

namespace GabyVm.Foundation

variable {ε σ α β : Type}

/-- Repeat a round until the check ends the loop. -/
def watch (round : Action ε σ α) (check : σ → α → σ → Option β) : Nat → Action ε σ β
  | 0 => Action.timeout
  | fuel + 1 => fun s => (round s).bind fun a t =>
      match check s a t with
      | some b => .ok b t
      | none => watch round check fuel t

/-- `t` is the state after `n` rounds. -/
inductive After (round : Action ε σ α) : Nat → σ → σ → Prop where
  | zero (s : σ) : After round 0 s s
  | succ {n : Nat} {s t u : σ} {a : α} (h : After round n s t) (hround : round t = .ok a u) :
      After round (n + 1) s u

/-- The check lets the first `n` rounds pass. -/
def Passes (round : Action ε σ α) (check : σ → α → σ → Option β) (n : Nat) (s : σ) : Prop :=
  ∀ m, m < n → ∀ t a u, After round m s t → round t = .ok a u → check t a u = none

namespace After

variable {round : Action ε σ α} {n m : Nat} {s t u : σ}

theorem cons {a : α} (hround : round s = .ok a t) (h : After round n t u) :
    After round (n + 1) s u := by
  induction h with
  | zero => exact .succ (.zero s) hround
  | succ _ hlast ih => exact .succ (ih hround) hlast

theorem uncons (h : After round (n + 1) s u) :
    ∃ a t, round s = .ok a t ∧ After round n t u := by
  induction n generalizing u with
  | zero =>
      cases h with
      | succ hfirst hround =>
          cases hfirst
          exact ⟨_, _, hround, .zero u⟩
  | succ n ih =>
      cases h with
      | succ hfirst hlast =>
          obtain ⟨a, t, hround, hrest⟩ := ih hfirst
          exact ⟨a, t, hround, .succ hrest hlast⟩

theorem det (h : After round n s t) (h' : After round n s u) : t = u := by
  induction h generalizing u with
  | zero =>
      cases h'
      rfl
  | succ _ hround ih =>
      cases h' with
      | succ hfirst hround' =>
          obtain rfl := ih hfirst
          rw [hround] at hround'
          exact (Outcome.ok.inj hround').2

/-- A run of rounds passes through the state after any fewer of them. -/
theorem split (h : After round (n + m) s u) : ∃ t, After round n s t ∧ After round m t u := by
  induction m generalizing u with
  | zero => exact ⟨u, h, .zero u⟩
  | succ m ih =>
      cases h with
      | succ hfirst hround =>
          obtain ⟨t, hn, hm⟩ := ih hfirst
          exact ⟨t, hn, hm.succ hround⟩

theorem invariant {P : σ → Prop} (h : After round n s t)
    (hround : ∀ u a v, P u → round u = .ok a v → P v) (hs : P s) :
    P t := by
  induction h with
  | zero => exact hs
  | succ _ hlast ih => exact hround _ _ _ (ih hs) hlast

end After

variable {round : Action ε σ α} {check : σ → α → σ → Option β} {n : Nat} {s : σ}

theorem Passes.zero : Passes round check 0 s := by
  intro m hm
  omega

theorem Passes.cons {a : α} {t : σ} (hround : round s = .ok a t) (hcheck : check s a t = none)
    (h : Passes round check n t) :
    Passes round check (n + 1) s := by
  intro m hm u b v hu hv
  cases m with
  | zero =>
      cases hu
      rw [hround] at hv
      cases hv
      exact hcheck
  | succ m =>
      obtain ⟨_, t', hround', hu⟩ := hu.uncons
      rw [hround] at hround'
      cases hround'
      exact h m (by omega) u b v hu hv

theorem Passes.mono {m : Nat} (h : Passes round check n s) (hmn : m ≤ n) :
    Passes round check m s := by
  intro k hk
  exact h k (by omega)

theorem Passes.uncons {a : α} {t : σ} (h : Passes round check (n + 1) s)
    (hround : round s = .ok a t) :
    check s a t = none ∧ Passes round check n t := by
  refine ⟨h 0 (by omega) s a t (.zero s) hround, ?_⟩
  intro m hm u b v hu hv
  exact h (m + 1) (by omega) u b v (hu.cons hround) hv

/-- The loop returns what the check says of the first round that it does not let pass. -/
theorem watch_eq_ok {fuel : Nat} {b : β} {u : σ} :
    watch round check fuel s = .ok b u ↔
      ∃ n t a, n < fuel ∧ After round n s t ∧ Passes round check n s ∧ round t = .ok a u ∧
        check t a u = some b := by
  induction fuel generalizing s with
  | zero =>
      constructor
      · intro h
        cases h
      · rintro ⟨n, _, _, hn, -⟩
        omega
  | succ fuel ih =>
      rw [watch, Outcome.bind_eq_ok]
      constructor
      · rintro ⟨a, t, hround, hrest⟩
        cases hcheck : check s a t with
        | some b' =>
            rw [hcheck] at hrest
            cases hrest
            exact ⟨0, s, a, by omega, .zero s, .zero, hround, hcheck⟩
        | none =>
            rw [hcheck] at hrest
            obtain ⟨n, v, a', hn, hafter, hpasses, hlast, hverdict⟩ := ih.mp hrest
            exact ⟨n + 1, v, a', by omega, hafter.cons hround, hpasses.cons hround hcheck, hlast,
              hverdict⟩
      · rintro ⟨n, t, a, hn, hafter, hpasses, hlast, hverdict⟩
        cases n with
        | zero =>
            cases hafter
            refine ⟨a, u, hlast, ?_⟩
            rw [hverdict]
        | succ n =>
            obtain ⟨a', v, hround, hafter⟩ := hafter.uncons
            obtain ⟨hcheck, hpasses⟩ := hpasses.uncons hround
            refine ⟨a', v, hround, ?_⟩
            rw [hcheck]
            exact ih.mpr ⟨n, t, a, by omega, hafter, hpasses, hlast, hverdict⟩

theorem watch_eq_abort {fuel : Nat} {e : ε} {u : σ} :
    watch round check fuel s = .abort e u ↔
      ∃ n t, n < fuel ∧ After round n s t ∧ Passes round check n s ∧ round t = .abort e u := by
  induction fuel generalizing s with
  | zero =>
      constructor
      · intro h
        cases h
      · rintro ⟨n, _, hn, -⟩
        omega
  | succ fuel ih =>
      rw [watch, Outcome.bind_eq_abort]
      constructor
      · rintro (habort | ⟨a, t, hround, hrest⟩)
        · exact ⟨0, s, by omega, .zero s, .zero, habort⟩
        · cases hcheck : check s a t with
          | some b' =>
              rw [hcheck] at hrest
              cases hrest
          | none =>
              rw [hcheck] at hrest
              obtain ⟨n, v, hn, hafter, hpasses, hlast⟩ := ih.mp hrest
              exact ⟨n + 1, v, by omega, hafter.cons hround, hpasses.cons hround hcheck, hlast⟩
      · rintro ⟨n, t, hn, hafter, hpasses, hlast⟩
        cases n with
        | zero =>
            cases hafter
            exact .inl hlast
        | succ n =>
            obtain ⟨a', v, hround, hafter⟩ := hafter.uncons
            obtain ⟨hcheck, hpasses⟩ := hpasses.uncons hround
            refine .inr ⟨a', v, hround, ?_⟩
            rw [hcheck]
            exact ih.mpr ⟨n, t, by omega, hafter, hpasses, hlast⟩

end GabyVm.Foundation
