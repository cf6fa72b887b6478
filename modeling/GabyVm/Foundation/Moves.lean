import Mathlib.Logic.Function.Basic

/-!
# Sequences of moves

Cells of a store are copied one after the other, and filled one after the
other.  Copying ends with what the sources held at first if no cell is written
before it is read.
-/

namespace GabyVm.Foundation

variable {κ α : Type}

/-- No cell is written twice, and none is written before it is read. -/
structure ClearMoves (n : Nat) (dst src : Nat → κ) : Prop where
  once : ∀ i j, i < j → j < n → dst i ≠ dst j
  unread : ∀ i j, i < j → j < n → dst i ≠ src j

theorem ClearMoves.tail {n : Nat} {dst src : Nat → κ} (h : ClearMoves (n + 1) dst src) :
    ClearMoves n (fun i => dst (i + 1)) fun i => src (i + 1) where
  once i j hij hj := h.once (i + 1) (j + 1) (by omega) (by omega)
  unread i j hij hj := h.unread (i + 1) (j + 1) (by omega) (by omega)

section Moves

variable [DecidableEq κ]

/-- Copy `n` cells, the one at `src i` to `dst i`. -/
def moves : Nat → (Nat → κ) → (Nat → κ) → (κ → α) → κ → α
  | 0, _, _, store => store
  | n + 1, dst, src, store =>
      moves n (fun i => dst (i + 1)) (fun i => src (i + 1))
        (Function.update store (dst 0) (store (src 0)))

/-- Put a value into `n` cells. -/
def fills : Nat → (Nat → κ) → α → (κ → α) → κ → α
  | 0, _, _, store => store
  | n + 1, dst, value, store =>
      fills n (fun i => dst (i + 1)) value (Function.update store (dst 0) value)

theorem moves_of_ne {n : Nat} {dst src : Nat → κ} {store : κ → α} {x : κ}
    (h : ∀ i < n, x ≠ dst i) : moves n dst src store x = store x := by
  induction n generalizing dst src store with
  | zero => rfl
  | succ n ih =>
      rw [moves, ih fun i hi => h (i + 1) (by omega)]
      exact Function.update_of_ne (h 0 (by omega)) _ _

theorem ClearMoves.moves_apply {n : Nat} {dst src : Nat → κ} (h : ClearMoves n dst src)
    (store : κ → α) {i : Nat} (hi : i < n) : moves n dst src store (dst i) = store (src i) := by
  induction n generalizing dst src store i with
  | zero => omega
  | succ n ih =>
      cases i with
      | zero =>
          have hkept : ∀ i < n, dst 0 ≠ dst (i + 1) := fun i hi =>
            h.once 0 (i + 1) (by omega) (by omega)
          rw [moves, moves_of_ne hkept, Function.update_self]
      | succ i =>
          have hread : src (i + 1) ≠ dst 0 := (h.unread 0 (i + 1) (by omega) hi).symm
          rw [moves, ih h.tail _ (by omega)]
          exact Function.update_of_ne hread _ _

theorem moves_congr {n : Nat} {dst dst' src src' : Nat → κ} (hdst : ∀ i < n, dst i = dst' i)
    (hsrc : ∀ i < n, src i = src' i) (store : κ → α) :
    moves n dst src store = moves n dst' src' store := by
  induction n generalizing dst dst' src src' store with
  | zero => rfl
  | succ n ih =>
      rw [moves, moves, hdst 0 (by omega), hsrc 0 (by omega)]
      exact ih (fun i hi => hdst (i + 1) (by omega)) (fun i hi => hsrc (i + 1) (by omega)) _

theorem fills_of_ne {n : Nat} {dst : Nat → κ} {value : α} {store : κ → α} {x : κ}
    (h : ∀ i < n, x ≠ dst i) : fills n dst value store x = store x := by
  induction n generalizing dst store with
  | zero => rfl
  | succ n ih =>
      rw [fills, ih fun i hi => h (i + 1) (by omega)]
      exact Function.update_of_ne (h 0 (by omega)) _ _

theorem fills_apply {n : Nat} {dst : Nat → κ} {value : α} {store : κ → α} {i : Nat} (hi : i < n) :
    fills n dst value store (dst i) = value := by
  induction n generalizing dst store i with
  | zero => omega
  | succ n ih =>
      by_cases hlast : ∃ j < n, dst i = dst (j + 1)
      · obtain ⟨j, hj, heq⟩ := hlast
        rw [heq, fills]
        exact ih hj
      · cases i with
        | zero =>
            rw [fills, fills_of_ne fun j hj heq => hlast ⟨j, hj, heq⟩, Function.update_self]
        | succ i => exact absurd ⟨i, by omega, rfl⟩ hlast

end Moves

end GabyVm.Foundation
