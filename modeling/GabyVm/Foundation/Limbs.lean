import Mathlib.Data.Nat.Digits.Defs
import Mathlib.Tactic.Ring
import Mathlib.Tactic.LinearCombination
import Mathlib.Tactic.Linarith
import Mathlib.Tactic.Positivity

/-!
# Numbers of several limbs

A number is a list of limbs, the lowest first.  An adder of single limbs that
hands its carry on adds whole numbers, and the flags of the topmost limb order
them, with or without a sign.
-/

namespace GabyVm.Foundation

section Ripple

variable {α φ : Type} (add : α → α → Bool → α × φ) (carry : φ → Bool)

/-- Add the pairs from the lowest one on, each with the carry of the one before. -/
def ripple : List (α × α) → φ → List α × φ
  | [], flags => ([], flags)
  | p :: rest, flags =>
      let sum := add p.1 p.2 (carry flags)
      let above := ripple rest sum.2
      (sum.1 :: above.1, above.2)

theorem ripple_length (ps : List (α × α)) (flags : φ) :
    (ripple add carry ps flags).1.length = ps.length := by
  induction ps generalizing flags with
  | nil => rfl
  | cons p rest ih => simp [ripple, ih]

theorem ripple_append (ps qs : List (α × α)) (flags : φ) :
    ripple add carry (ps ++ qs) flags =
      ((ripple add carry ps flags).1 ++ (ripple add carry qs (ripple add carry ps flags).2).1,
        (ripple add carry qs (ripple add carry ps flags).2).2) := by
  induction ps generalizing flags with
  | nil => rfl
  | cons p rest ih => simp [ripple, ih]

/-- The adder adds limbs of base `b`. -/
structure AddsLimbs (b : Nat) (value : α → Nat) : Prop where
  sum : ∀ x y c, value (add x y c).1 + b * (carry (add x y c).2).toNat =
    value x + value y + c.toNat
  lt : ∀ x, value x < b

variable {add carry} {b : Nat} {value : α → Nat}

def number (b : Nat) (value : α → Nat) (xs : List α) : Nat := Nat.ofDigits b (xs.map value)

@[simp] theorem number_nil : number b value [] = 0 := rfl

@[simp] theorem number_cons (x : α) (xs : List α) :
    number b value (x :: xs) = value x + b * number b value xs := by
  simp [number, Nat.ofDigits_cons]

theorem number_append (xs ys : List α) :
    number b value (xs ++ ys) = number b value xs + b ^ xs.length * number b value ys := by
  simp [number, Nat.ofDigits_append]

theorem number_lt (hlt : ∀ x, value x < b) (xs : List α) : number b value xs < b ^ xs.length := by
  induction xs with
  | nil => simp
  | cons x xs ih =>
      have hx := hlt x
      have hstep : b * (number b value xs + 1) ≤ b * b ^ xs.length := Nat.mul_le_mul_left b ih
      rw [number_cons, List.length_cons, pow_succ, Nat.mul_comm (b ^ xs.length)]
      rw [Nat.mul_add, Nat.mul_one] at hstep
      omega

theorem number_complement {not : α → α} (hnot : ∀ x, value (not x) + value x + 1 = b)
    (xs : List α) :
    number b value (xs.map not) + number b value xs + 1 = b ^ xs.length := by
  induction xs with
  | nil => simp
  | cons x xs ih =>
      have hx := hnot x
      rw [List.map_cons, number_cons, number_cons, List.length_cons, pow_succ, ← ih]
      linear_combination hx

theorem number_mul {β : Type} (low high source : β → α) {k : Nat} {ps : List β}
    (h : ∀ p ∈ ps, value (low p) + b * value (high p) = value (source p) * k) :
    number b value (ps.map low) + b * number b value (ps.map high) =
      number b value (ps.map source) * k := by
  induction ps with
  | nil => simp
  | cons p rest ih =>
      have hfirst := h p List.mem_cons_self
      have hrest := ih fun q hq => h q (List.mem_cons_of_mem p hq)
      simp only [List.map_cons, number_cons]
      linear_combination hfirst + b * hrest

theorem AddsLimbs.ripple (h : AddsLimbs add carry b value) (ps : List (α × α)) (flags : φ) :
    number b value (ripple add carry ps flags).1 +
        b ^ ps.length * (carry (ripple add carry ps flags).2).toNat =
      number b value (ps.map Prod.fst) + number b value (ps.map Prod.snd) +
        (carry flags).toNat := by
  induction ps generalizing flags with
  | nil => simp [Foundation.ripple]
  | cons p rest ih =>
      have hlimb := h.sum p.1 p.2 (carry flags)
      have habove := ih (add p.1 p.2 (carry flags)).2
      simp only [Foundation.ripple, number_cons, List.map_cons, List.length_cons, pow_succ]
      linear_combination hlimb + b * habove

/-- The flags of a sum tell whether it is negative. -/
def TellsSign (add : α → α → Bool → α × φ) (negative : φ → Bool) (signed : α → Int) : Prop :=
  ∀ x y c, negative (add x y c).2 = decide (signed x + signed y + c.toNat < 0)

/-- The number of some limbs below a signed one. -/
def signedNumber (b : Nat) (value : α → Nat) (signed : α → Int) (xs : List α) (top : α) : Int :=
  number b value xs + (b : Int) ^ xs.length * signed top

theorem AddsLimbs.ripple_negative (h : AddsLimbs add carry b value) (hb : 0 < b)
    {negative : φ → Bool} {signed : α → Int} (hsign : TellsSign add negative signed)
    (ps : List (α × α)) (p : α × α) (flags : φ) :
    negative (Foundation.ripple add carry (ps ++ [p]) flags).2 =
      decide (signedNumber b value signed (ps.map Prod.fst) p.1 +
        signedNumber b value signed (ps.map Prod.snd) p.2 + (carry flags).toNat < 0) := by
  have hlow := h.ripple ps flags
  have hbound := number_lt h.lt (Foundation.ripple add carry ps flags).1
  rw [ripple_length] at hbound
  have hlast : (Foundation.ripple add carry (ps ++ [p]) flags).2 =
      (add p.1 p.2 (carry (Foundation.ripple add carry ps flags).2)).2 := by
    rw [ripple_append]
    rfl
  rw [hlast, hsign, decide_eq_decide]
  generalize number b value (Foundation.ripple add carry ps flags).1 = low at hlow hbound
  generalize ((carry (Foundation.ripple add carry ps flags).2).toNat : Nat) = out at hlow ⊢
  have htotal : signedNumber b value signed (ps.map Prod.fst) p.1 +
      signedNumber b value signed (ps.map Prod.snd) p.2 + (carry flags).toNat =
        low + (b : Int) ^ ps.length * (signed p.1 + signed p.2 + out) := by
    have hcast : (low : Int) + (b : Int) ^ ps.length * out =
        number b value (ps.map Prod.fst) + number b value (ps.map Prod.snd) +
          (carry flags).toNat := by
      exact_mod_cast hlow
    simp only [signedNumber, List.length_map]
    linear_combination -hcast
  rw [htotal]
  have hpos : (0 : Int) < (b : Int) ^ ps.length := by positivity
  have hlt : (low : Int) < (b : Int) ^ ps.length := by exact_mod_cast hbound
  constructor
  · intro hneg
    have hle : signed p.1 + signed p.2 + out ≤ -1 := by omega
    have hmul := mul_le_mul_of_nonneg_left hle hpos.le
    linarith
  · intro hneg
    by_contra hnot
    have hmul := mul_nonneg hpos.le (not_lt.mp hnot)
    have hzero : (0 : Int) ≤ low := Int.natCast_nonneg low
    linarith

/-- The signed number is the number in two's complement. -/
theorem bmod_limbs (low v : Int) (scale half : Nat) (hlow : 0 ≤ low) (hlt : low < scale) :
    (low + scale * v).bmod (scale * (2 * half)) = low + scale * v.bmod (2 * half) := by
  by_cases hhalf : half = 0
  · subst hhalf
    simp [Int.bmod_zero]
  · have hsplit := Int.bmod_add_bdiv v (2 * half)
    have hge := Int.le_bmod (x := v) (m := 2 * half) (by omega)
    have hle := Int.bmod_lt (x := v) (m := 2 * half) (by omega)
    generalize v.bmod (2 * half) = t at hsplit hge hle ⊢
    have hscale : (0 : Int) ≤ scale := Int.natCast_nonneg scale
    have hlower := mul_le_mul_of_nonneg_left (show -(half : Int) ≤ t by push_cast at hge; omega)
      hscale
    have hupper := mul_le_mul_of_nonneg_left (show t + 1 ≤ (half : Int) by push_cast at hle; omega)
      hscale
    have hcycle : low + scale * v =
        low + scale * t + ((scale * (2 * half) : Nat) : Int) * v.bdiv (2 * half) := by
      push_cast at hsplit ⊢
      linear_combination -(scale : Int) * hsplit
    rw [hcycle, Int.add_mul_bmod_self_left]
    apply Int.bmod_eq_of_le
    · push_cast
      have hdiv : (scale : Int) * (2 * half) / 2 = scale * half := by
        rw [show (scale : Int) * (2 * half) = scale * half * 2 by ring]
        exact Int.mul_ediv_cancel _ (by omega)
      rw [hdiv]
      linarith
    · push_cast
      have hdiv : ((scale : Int) * (2 * half) + 1) / 2 = scale * half := by
        rw [show (scale : Int) * (2 * half) + 1 = 1 + scale * half * 2 by ring]
        rw [Int.add_mul_ediv_right _ _ (by omega)]
        simp
      rw [hdiv]
      linarith

end Ripple

end GabyVm.Foundation
