import Mathlib.Algebra.Ring.Nat
import Mathlib.Logic.Function.Iterate

/-!
Checks along an orbit.

The states of a deterministic generator are followed through a whole cycle in
strides, with 0 for a run whose check has failed.  The strides are put together
by doubling, and each run is evaluated before the next one starts.
-/

namespace GabyVm.Foundation

/-- One step, or 0 if the check fails. -/
def guarded (f : Nat → Nat) (p : Nat → Bool) (s : Nat) : Nat :=
  match p s with
  | true => f s
  | false => 0

/-- As many steps as the power of two. -/
def doubled (g : Nat → Nat) : Nat → Nat → Nat
  | 0, s => g s
  | d + 1, s =>
      match doubled g d s with
      | 0 => 0
      | m + 1 => doubled g d (Nat.succ m)

/-- The runs of the given powers one after the other. -/
def scanOrbit (g : Nat → Nat) : List Nat → Nat → Nat
  | [], s => s
  | d :: ds, s =>
      match doubled g d s with
      | 0 => 0
      | m + 1 => scanOrbit g ds (Nat.succ m)

def scanSteps (ds : List Nat) : Nat := (ds.map (2 ^ ·)).sum

variable {f g : Nat → Nat} {p : Nat → Bool}

theorem doubled_eq (hg : g 0 = 0) (d s : Nat) : doubled g d s = g^[2 ^ d] s := by
  induction d generalizing s with
  | zero => rfl
  | succ d ih =>
      have hfixed : doubled g d 0 = 0 := by
        rw [ih]
        exact Function.iterate_fixed hg _
      have hstep : doubled g (d + 1) s = doubled g d (doubled g d s) := by
        rw [doubled]
        cases hrun : doubled g d s with
        | zero => exact hfixed.symm
        | succ m => rfl
      rw [hstep, ih, ih, ← Function.iterate_add_apply, ← Nat.mul_two, ← Nat.pow_succ]

theorem scanOrbit_eq (hg : g 0 = 0) (ds : List Nat) (s : Nat) :
    scanOrbit g ds s = g^[scanSteps ds] s := by
  induction ds generalizing s with
  | nil => rfl
  | cons d ds ih =>
      have hfixed : scanOrbit g ds 0 = 0 := by
        rw [ih]
        exact Function.iterate_fixed hg _
      have hstep : scanOrbit g (d :: ds) s = scanOrbit g ds (doubled g d s) := by
        rw [scanOrbit]
        cases hrun : doubled g d s with
        | zero => exact hfixed.symm
        | succ m => rfl
      rw [hstep, ih, doubled_eq hg, ← Function.iterate_add_apply, scanSteps, scanSteps,
        List.map_cons, List.sum_cons, Nat.add_comm]

/-- A guarded run that does not end at 0 has made the plain steps, and every check. -/
theorem guarded_iterate (h0 : p 0 = false) {n s t : Nat} (ht : t ≠ 0)
    (h : (guarded f p)^[n] s = t) : f^[n] s = t ∧ ∀ i < n, p (f^[i] s) = true := by
  have hzero : guarded f p 0 = 0 := by rw [guarded, h0]
  induction n generalizing s with
  | zero => exact ⟨h, fun i hi => absurd hi (by omega)⟩
  | succ n ih =>
      rw [Function.iterate_succ_apply] at h
      cases hp : p s with
      | false =>
          rw [guarded, hp, Function.iterate_fixed hzero] at h
          exact absurd h.symm ht
      | true =>
          rw [guarded, hp] at h
          obtain ⟨hend, hall⟩ := ih h
          refine ⟨hend, fun i hi => ?_⟩
          cases i with
          | zero => exact hp
          | succ i => exact hall i (by omega)

theorem iterate_stride {step : Nat → Nat} {k : Nat} (hstep : ∀ s, step s = f^[k] s) (n s : Nat) :
    step^[n] s = f^[k * n] s := by
  induction n generalizing s with
  | zero => rfl
  | succ n ih =>
      rw [Function.iterate_succ_apply, ih, hstep, ← Function.iterate_add_apply, Nat.mul_succ]

/-- A tail of strides, and a cycle of strides and a rest. -/
structure Closes (f step : Nat → Nat) (p : Nat → Bool) (s k m n r : Nat) : Prop where
  stride : ∀ s, step s = f^[k] s
  stride_pos : 0 < k
  check_zero : p 0 = false
  rest_le : r ≤ k
  tail_ne : (guarded step p)^[m] s ≠ 0
  round_ne : (guarded step p)^[n] ((guarded step p)^[m] s) ≠ 0
  round_pos : 0 < n
  back : f^[r] ((guarded step p)^[n] ((guarded step p)^[m] s)) = (guarded step p)^[m] s

theorem next_multiple {k : Nat} (hk : 0 < k) (b : Nat) : ∃ q, b ≤ k * q ∧ k * q < b + k := by
  refine ⟨(b + k - 1) / k, ?_, ?_⟩
  · have hdiv := Nat.div_add_mod (b + k - 1) k
    have hmod := Nat.mod_lt (b + k - 1) hk
    omega
  · have hle := Nat.mul_div_le (b + k - 1) k
    omega

/-- From every state of the orbit the check holds again after less than a stride and the rest. -/
theorem Closes.checks {step : Nat → Nat} {s k m n r : Nat} (h : Closes f step p s k m n r)
    (i : Nat) : ∃ j < k + r, p (f^[i + j] s) = true := by
  obtain ⟨hreach, hbefore⟩ := guarded_iterate h.check_zero h.tail_ne rfl
  obtain ⟨hround, hinside⟩ := guarded_iterate h.check_zero h.round_ne rfl
  have hback := h.back
  rw [← hround, iterate_stride h.stride, ← Function.iterate_add_apply, Nat.add_comm] at hback
  rw [iterate_stride h.stride] at hreach
  generalize (guarded step p)^[m] s = t at *
  have hperiod (c : Nat) : f^[(k * n + r) * c] t = t := by
    induction c with
    | zero => rfl
    | succ c ih => rw [Nat.mul_succ, Function.iterate_add_apply, hback, ih]
  -- The positions at which the check was made.
  have htail (q : Nat) (hq : q < m) : p (f^[k * q] s) = true := by
    rw [← iterate_stride h.stride]
    exact hbefore q hq
  have hcycle (c q : Nat) (hq : q < n) :
      p (f^[k * q + ((k * n + r) * c + k * m)] s) = true := by
    rw [Function.iterate_add_apply, Function.iterate_add_apply, hreach, hperiod,
      ← iterate_stride h.stride]
    exact hinside q hq
  have hk := h.stride_pos
  by_cases hi : i < k * m
  · obtain ⟨q, hlow, hhigh⟩ := next_multiple hk i
    by_cases hq : q < m
    · refine ⟨k * q - i, by omega, ?_⟩
      rw [Nat.add_sub_cancel' hlow]
      exact htail q hq
    · have hend := Nat.mul_le_mul_left k (Nat.not_lt.mp hq)
      refine ⟨k * m - i, by omega, ?_⟩
      have hfirst := hcycle 0 0 h.round_pos
      rw [Nat.mul_zero, Nat.mul_zero, Nat.zero_add, Nat.zero_add] at hfirst
      rw [Nat.add_sub_cancel' (by omega)]
      exact hfirst
  · have hlong : 0 < k * n + r := by
      have := Nat.mul_pos hk h.round_pos
      omega
    have hsplit := Nat.mod_add_div (i - k * m) (k * n + r)
    have hmod := Nat.mod_lt (i - k * m) hlong
    generalize hb : (i - k * m) % (k * n + r) = b at *
    generalize hc : (i - k * m) / (k * n + r) = c at *
    obtain ⟨q, hlow, hhigh⟩ := next_multiple hk b
    by_cases hq : q < n
    · refine ⟨k * q - b, by omega, ?_⟩
      have hpos : i + (k * q - b) = k * q + ((k * n + r) * c + k * m) := by omega
      rw [hpos]
      exact hcycle c q hq
    · have hend := Nat.mul_le_mul_left k (Nat.not_lt.mp hq)
      refine ⟨k * n + r - b, by omega, ?_⟩
      have hnext := hcycle (c + 1) 0 h.round_pos
      have hpos : i + (k * n + r - b) = k * 0 + ((k * n + r) * (c + 1) + k * m) := by
        rw [Nat.mul_succ]
        omega
      rw [hpos]
      exact hnext

end GabyVm.Foundation
