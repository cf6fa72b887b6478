import Mathlib.Algebra.Field.ZMod
import Mathlib.Algebra.Polynomial.Div
import Mathlib.Tactic.LinearCombination

/-!
# Bit vectors as polynomials

The bits of a word are the coefficients of a polynomial over the field with two
elements.  Exclusive or adds polynomials and a shift that loses no bit
multiplies by a power of `X`, so loops over the bits of a word can be read as
products and as remainders.
-/

namespace GabyVm.Foundation

open Polynomial

noncomputable section

def bitCoeff (b : Bool) : ZMod 2 := if b then 1 else 0

theorem bitCoeff_xor (a b : Bool) : bitCoeff (a ^^ b) = bitCoeff a + bitCoeff b := by
  cases a <;> cases b <;> decide

theorem bitCoeff_injective : Function.Injective bitCoeff := by decide

def toPoly {w : Nat} (v : BitVec w) : (ZMod 2)[X] :=
  ∑ i ∈ Finset.range w, C (bitCoeff (v.getLsbD i)) * X ^ i

variable {w w' : Nat}

@[simp] theorem coeff_toPoly (v : BitVec w) (i : Nat) :
    (toPoly v).coeff i = bitCoeff (v.getLsbD i) := by
  simp only [toPoly, finsetSum_coeff, coeff_C_mul, coeff_X_pow, mul_ite, mul_one, mul_zero,
    Finset.sum_ite_eq, Finset.mem_range]
  split_ifs with hi
  · rfl
  · rw [BitVec.getLsbD_of_ge v i (by omega)]
    rfl

theorem toPoly_injective : Function.Injective (toPoly : BitVec w → (ZMod 2)[X]) := by
  intro a b h
  apply BitVec.eq_of_getLsbD_eq
  intro i _
  have hcoeff := congrArg (fun p => p.coeff i) h
  simp only [coeff_toPoly] at hcoeff
  exact bitCoeff_injective hcoeff

@[simp] theorem toPoly_zero : toPoly (0 : BitVec w) = 0 := by
  ext i
  simp [bitCoeff]

@[simp] theorem toPoly_xor (a b : BitVec w) : toPoly (a ^^^ b) = toPoly a + toPoly b := by
  ext i
  simp [bitCoeff_xor]

theorem toPoly_setWidth (v : BitVec w) (h : w ≤ w') : toPoly (v.setWidth w') = toPoly v := by
  ext i
  simp only [coeff_toPoly, BitVec.getLsbD_setWidth]
  by_cases hi : i < w'
  · simp [hi]
  · simp [hi, BitVec.getLsbD_of_ge v i (by omega)]

theorem toPoly_shiftLeft {v : BitVec w} {k : Nat} (h : ∀ i, w ≤ i + k → v.getLsbD i = false) :
    toPoly (v <<< k) = X ^ k * toPoly v := by
  ext i
  rw [coeff_X_pow_mul', coeff_toPoly, coeff_toPoly, BitVec.getLsbD_shiftLeft]
  by_cases hk : k ≤ i
  · by_cases hi : i < w
    · simp [hk, hi, show ¬i < k by omega]
    · simp [hk, hi, h (i - k) (by omega), bitCoeff]
  · simp [hk, show i < k by omega, bitCoeff]

theorem degree_toPoly_lt {v : BitVec w} {n : Nat} (h : ∀ i, n ≤ i → v.getLsbD i = false) :
    (toPoly v).degree < n := by
  rw [degree_lt_iff_coeff_zero]
  intro i hi
  rw [coeff_toPoly, h i hi]
  rfl

/-! ## Lists of bits -/

/-- The polynomial of a list of bits, the highest power first. -/
def listPoly (bits : List Bool) : (ZMod 2)[X] :=
  bits.foldl (fun p b => X * p + C (bitCoeff b)) 0

@[simp] theorem listPoly_nil : listPoly [] = 0 := rfl

theorem listPoly_concat (bits : List Bool) (b : Bool) :
    listPoly (bits ++ [b]) = X * listPoly bits + C (bitCoeff b) := by
  simp [listPoly, List.foldl_append]

theorem listPoly_append (bits bits' : List Bool) :
    listPoly (bits ++ bits') = X ^ bits'.length * listPoly bits + listPoly bits' := by
  induction bits' using List.reverseRecOn with
  | nil => simp
  | append_singleton bits' b ih =>
      rw [← List.append_assoc, listPoly_concat, ih, listPoly_concat, List.length_append,
        List.length_singleton]
      ring

/-- The bits of a word in the order that puts its highest power first. -/
theorem listPoly_ofWord (v : BitVec w) :
    listPoly ((List.range w).map fun i => v.getLsbD (w - 1 - i)) = toPoly v := by
  have htake (n : Nat) (hn : n ≤ w) :
      listPoly ((List.range n).map fun i => v.getLsbD (w - 1 - i)) =
        toPoly (v.extractLsb' (w - n) n) := by
    induction n with
    | zero =>
        ext i
        simp [bitCoeff]
    | succ n ih =>
        rw [List.range_succ, List.map_append, List.map_singleton, listPoly_concat, ih (by omega)]
        ext i
        rw [coeff_add, coeff_toPoly, BitVec.getLsbD_extractLsb', coeff_C]
        cases i with
        | zero =>
            rw [coeff_X_mul_zero, zero_add]
            simp [show w - (n + 1) = w - 1 - n by omega]
        | succ i =>
            rw [coeff_X_mul, coeff_toPoly, BitVec.getLsbD_extractLsb']
            simp [show w - (n + 1) + (i + 1) = w - n + i by omega]
  rw [htake w (Nat.le_refl w), Nat.sub_self]
  congr 1
  exact BitVec.extractLsb'_eq_self

/-! ## Remainders -/

/-- Clearing the top bit against a multiple of the modulus keeps the remainder. -/
theorem modByMonic_add_multiple {q : (ZMod 2)[X]} (hq : q.Monic) (p s : (ZMod 2)[X]) :
    (p + s * q) %ₘ q = p %ₘ q :=
  modByMonic_eq_of_dvd_sub hq ⟨s, by ring⟩

theorem modByMonic_of_degree_lt {q : (ZMod 2)[X]} (hq : q.Monic) {p : (ZMod 2)[X]}
    (h : p.degree < q.degree) : p %ₘ q = p := (modByMonic_eq_self_iff hq).mpr h

theorem mul_modByMonic_mod {q : (ZMod 2)[X]} (hq : q.Monic) (s p : (ZMod 2)[X]) :
    (s * (p %ₘ q)) %ₘ q = (s * p) %ₘ q := by
  apply modByMonic_eq_of_dvd_sub hq
  have hdiv := modByMonic_add_div p q
  exact ⟨-(s * (p /ₘ q)), by linear_combination s * hdiv⟩

end

end GabyVm.Foundation
