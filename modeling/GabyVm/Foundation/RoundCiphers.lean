import Mathlib.Data.List.Basic

/-!
# Ciphers that run in rounds

Two ways to run a block through rounds.  A key-alternating cipher adds a key,
substitutes and mixes; its inverse is a cipher of the same shape, with the keys
in reverse order and the inner ones mixed.  A shifting cipher drops the first
word of a window and appends a new one; it undoes itself on the window and the
keys in reverse order.
-/

namespace GabyVm.Foundation

/-! ## Key-alternating ciphers -/

section KeyAlternating

variable {α : Type} (add : α → α → α) (substitute mix : α → α)

/-- The rounds before the last key is added. -/
def keyedRounds : α → List α → α → α
  | first, [], x => substitute (add x first)
  | first, key :: inner, x => keyedRounds key inner (mix (substitute (add x first)))

def keyAlternating (first : α) (inner : List α) (last x : α) : α :=
  add (keyedRounds add substitute mix first inner x) last

theorem keyedRounds_append (first : α) (inner : List α) (key x : α) :
    keyedRounds add substitute mix first (inner ++ [key]) x =
      substitute (add (mix (keyedRounds add substitute mix first inner x)) key) := by
  induction inner generalizing first x with
  | nil => rfl
  | cons key' inner ih => exact ih key' (mix (substitute (add x first)))

variable {add substitute mix} {unsubstitute unmix : α → α}

theorem keyedRounds_inverse (hadd : ∀ x key, add (add x key) key = x)
    (hsubstitute : ∀ x, unsubstitute (substitute x) = x) (hmix : ∀ x, unmix (mix x) = x)
    (hlinear : ∀ x y, unmix (add x y) = add (unmix x) (unmix y))
    (first : α) (inner : List α) (last x : α) :
    keyedRounds add unsubstitute unmix last (inner.reverse.map unmix)
      (keyAlternating add substitute mix first inner last x) = add x first := by
  induction inner generalizing first x with
  | nil => simp [keyAlternating, keyedRounds, hadd, hsubstitute]
  | cons key inner ih =>
      have hround := ih key (mix (substitute (add x first)))
      have hcipher : keyAlternating add substitute mix first (key :: inner) last x =
          keyAlternating add substitute mix key inner last (mix (substitute (add x first))) := rfl
      rw [List.reverse_cons, List.map_append, List.map_singleton, keyedRounds_append, hcipher,
        hround, hlinear, hadd, hmix, hsubstitute]

theorem keyAlternating_inverse (hadd : ∀ x key, add (add x key) key = x)
    (hsubstitute : ∀ x, unsubstitute (substitute x) = x) (hmix : ∀ x, unmix (mix x) = x)
    (hlinear : ∀ x y, unmix (add x y) = add (unmix x) (unmix y))
    (first : α) (inner : List α) (last x : α) :
    keyAlternating add unsubstitute unmix last (inner.reverse.map unmix) first
      (keyAlternating add substitute mix first inner last x) = x := by
  rw [keyAlternating, keyedRounds_inverse hadd hsubstitute hmix hlinear, hadd]

end KeyAlternating

/-! ## Shifting ciphers -/

section Shifting

variable {α κ : Type} (add : α → α → α) (round : κ → α → α → α → α)

/-- A window of four words. -/
structure Window (α : Type) where
  first : α
  second : α
  third : α
  fourth : α
  deriving DecidableEq, Repr

def Window.get (x : Window α) : Nat → α
  | 0 => x.first
  | 1 => x.second
  | 2 => x.third
  | _ => x.fourth

def Window.reverse (x : Window α) : Window α := ⟨x.fourth, x.third, x.second, x.first⟩

def Window.shift (x : Window α) (key : κ) : Window α :=
  ⟨x.second, x.third, x.fourth, add x.first (round key x.second x.third x.fourth)⟩

def shifting (keys : List κ) (x : Window α) : Window α := keys.foldl (Window.shift add round) x

variable {add round}

theorem shift_reverse (hadd : ∀ x y, add (add x y) y = x)
    (hround : ∀ key x y z, round key z y x = round key x y z) (x : Window α) (key : κ) :
    (x.shift add round key).reverse.shift add round key = x.reverse := by
  simp [Window.shift, Window.reverse, hround, hadd]

theorem shifting_reverse (hadd : ∀ x y, add (add x y) y = x)
    (hround : ∀ key x y z, round key z y x = round key x y z) (keys : List κ) (x : Window α) :
    shifting add round keys.reverse (shifting add round keys x).reverse = x.reverse := by
  induction keys generalizing x with
  | nil => rfl
  | cons key keys ih =>
      have hstep := ih (x.shift add round key)
      rw [shifting, shifting, List.foldl_cons, List.reverse_cons, List.foldl_append]
      rw [shifting, shifting] at hstep
      rw [hstep]
      exact shift_reverse hadd hround x key

end Shifting

end GabyVm.Foundation
