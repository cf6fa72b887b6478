import Mathlib.Data.Nat.Count
import Mathlib.Data.Nat.ModEq
import Mathlib.Tactic.SplitIfs

/-!
Compression of the bits under a mask.

`compress` moves the bits of a word that a mask selects to the low end, in
order, in logarithmically many steps.  Step `i` moves a bit down by `2 ^ i` if
bit `i` of its distance is set, and the distance of a bit is the number of
clear mask bits below it.  Which bits have to move is found by a parallel
parity over all lower bits.
-/

namespace GabyVm.Foundation

variable {w : Nat}

/-! ## Parities -/

/-- Each bit with the parity of itself and the bits below it. -/
def suffixParity (stages : Nat) (mk : BitVec w) : BitVec w :=
  (List.range stages).foldl (fun mp stage => mp ^^^ (mp <<< 2 ^ stage)) mk

theorem suffixParity_succ (stages : Nat) (mk : BitVec w) :
    suffixParity (stages + 1) mk =
      suffixParity stages mk ^^^ (suffixParity stages mk <<< 2 ^ stages) := by
  simp [suffixParity, List.range_succ]

theorem suffixParity_window (stages : Nat) (mk : BitVec w) {j : Nat} (hj : j < w) :
    (suffixParity stages mk).getLsbD j =
      decide ((Nat.count (fun k => mk.getLsbD k = true) (j + 1) -
        Nat.count (fun k => mk.getLsbD k = true) (j + 1 - 2 ^ stages)) % 2 = 1) := by
  induction stages generalizing j with
  | zero =>
      have hcount := Nat.count_succ (fun k => mk.getLsbD k = true) j
      rw [pow_zero, Nat.add_sub_cancel, hcount]
      cases hbit : mk.getLsbD j <;> simp [suffixParity, hbit]
  | succ stages ih =>
      have hmono := Nat.count_monotone fun k => mk.getLsbD k = true
      have hwindow : j + 1 - 2 ^ (stages + 1) ≤ j + 1 - 2 ^ stages := by
        have := Nat.pow_lt_pow_right (a := 2) (by omega) (Nat.lt_succ_self stages)
        omega
      have hlow := hmono hwindow
      have hhigh := hmono (Nat.sub_le (j + 1) (2 ^ stages))
      rw [suffixParity_succ, BitVec.getLsbD_xor, BitVec.getLsbD_shiftLeft, ih hj]
      by_cases hstage : j < 2 ^ stages
      · have hempty : j + 1 - 2 ^ stages = 0 := by omega
        have hempty' : j + 1 - 2 ^ (stages + 1) = 0 := by omega
        simp [hstage, hempty, hempty']
      · have hshift : j - 2 ^ stages + 1 = j + 1 - 2 ^ stages := by omega
        have hshift' : j + 1 - 2 ^ stages - 2 ^ stages = j + 1 - 2 ^ (stages + 1) := by
          rw [pow_succ]
          omega
        rw [ih (by omega), hshift, hshift']
        simp only [hj, hstage, decide_true, decide_false, Bool.not_false, Bool.true_and]
        rw [← Bool.coe_iff_coe]
        simp only [Bool.xor_iff_ne, ne_eq, decide_eq_decide, decide_eq_true_eq]
        omega

theorem suffixParity_getLsbD {stages : Nat} (hw : w ≤ 2 ^ stages) (mk : BitVec w) {j : Nat}
    (hj : j < w) :
    (suffixParity stages mk).getLsbD j =
      decide (Nat.count (fun k => mk.getLsbD k = true) (j + 1) % 2 = 1) := by
  have hempty : j + 1 - 2 ^ stages = 0 := by omega
  rw [suffixParity_window stages mk hj, hempty, Nat.count_zero, Nat.sub_zero]

/-! ## Compression -/

structure Compression (w : Nat) where
  mask : BitVec w
  x : BitVec w
  /-- The ends of the blocks of clear mask bits that are still to be counted. -/
  ends : BitVec w

def compressStep (stages : Nat) (s : Compression w) (i : Nat) : Compression w :=
  let mp := suffixParity stages s.ends
  let mv := mp &&& s.mask
  let t := s.x &&& mv
  { mask := (s.mask ^^^ mv) ||| mv >>> 2 ^ i
    x := (s.x ^^^ t) ||| t >>> 2 ^ i
    ends := s.ends &&& ~~~mp }

def compress (stages : Nat) (x mask : BitVec w) : BitVec w :=
  ((List.range stages).foldl (compressStep stages) ⟨mask, x &&& mask, ~~~mask <<< 1⟩).x

/-- The clear bits of the mask below a position: how far its bit has to move. -/
def distance (mask : BitVec w) (p : Nat) : Nat := Nat.count (fun q => mask.getLsbD q = false) p

/-- The set bits of the mask below a position: where its bit goes. -/
def rank (mask : BitVec w) (p : Nat) : Nat := Nat.count (fun q => mask.getLsbD q = true) p

theorem distance_le (mask : BitVec w) (p : Nat) : distance mask p ≤ p := Nat.count_le _

theorem rank_eq_sub (mask : BitVec w) (p : Nat) : rank mask p = p - distance mask p := by
  induction p with
  | zero => rfl
  | succ p ih =>
      have hle := distance_le mask p
      simp only [rank, distance] at ih hle ⊢
      rw [Nat.count_succ, Nat.count_succ, ih]
      cases mask.getLsbD p <;> simp
      omega

/-- A position that moves by less than its distance keeps the higher part of it. -/
theorem distance_moved (mask : BitVec w) (p i : Nat) :
    distance mask (p - distance mask p % 2 ^ i) / 2 ^ i = distance mask p / 2 ^ i := by
  have hmod : distance mask p % 2 ^ i ≤ p := (Nat.mod_le _ _).trans (distance_le mask p)
  have hmono : distance mask (p - distance mask p % 2 ^ i) ≤ distance mask p :=
    Nat.count_monotone _ (Nat.sub_le _ _)
  have hlip : distance mask p ≤
      distance mask (p - distance mask p % 2 ^ i) + distance mask p % 2 ^ i := by
    have hsplit := Nat.count_add (fun q => mask.getLsbD q = false)
      (p - distance mask p % 2 ^ i) (distance mask p % 2 ^ i)
    rw [Nat.sub_add_cancel hmod] at hsplit
    have hcount : Nat.count (fun q => mask.getLsbD (p - distance mask p % 2 ^ i + q) = false)
        (distance mask p % 2 ^ i) ≤ distance mask p % 2 ^ i := Nat.count_le _
    simp only [distance] at hsplit hcount ⊢
    omega
  have hdiv := Nat.div_add_mod (distance mask p) (2 ^ i)
  refine Nat.le_antisymm (Nat.div_le_div_right hmono) ?_
  rw [Nat.le_div_iff_mul_le (Nat.two_pow_pos i), Nat.mul_comm]
  omega

/-- The selected bits after `i` steps. -/
def Moved (mask : BitVec w) (selected : Nat → Prop) (i : Nat) (b : BitVec w) : Prop :=
  ∀ j, b.getLsbD j = true ↔ ∃ p, selected p ∧ p - distance mask p % 2 ^ i = j

/-- The block ends that are left after `i` steps. -/
def BlockEnds (mask : BitVec w) (i : Nat) (mk : BitVec w) : Prop :=
  ∀ j, j < w → (mk.getLsbD j = true ↔
    0 < j ∧ mask.getLsbD (j - 1) = false ∧ 2 ^ i ∣ distance mask j)

theorem blockEnds_count {mask mk : BitVec w} {i : Nat} (h : BlockEnds mask i mk) {j : Nat}
    (hj : j < w) :
    Nat.count (fun k => mk.getLsbD k = true) (j + 1) = distance mask j / 2 ^ i := by
  induction j with
  | zero =>
      have hzero : ¬mk.getLsbD 0 = true := fun hbit => absurd ((h 0 hj).mp hbit).1 (by omega)
      rw [Nat.count_succ, if_neg hzero]
      simp [distance]
  | succ j ih =>
      have hbit := h (j + 1) hj
      rw [Nat.add_sub_cancel] at hbit
      have hstep : distance mask (j + 1) =
          distance mask j + if mask.getLsbD j = false then 1 else 0 := Nat.count_succ _ _
      rw [Nat.count_succ, ih (by omega), hstep]
      cases hclear : mask.getLsbD j with
      | true =>
          have hunset : ¬mk.getLsbD (j + 1) = true := fun hset => by
            simp [hclear] at hbit
            simp [hbit] at hset
          simp [hunset]
      | false =>
          simp only [if_true]
          rw [Nat.succ_div]
          congr 1
          simp only [hbit, hclear, hstep, if_true]
          simp

theorem parity_getLsbD {stages i : Nat} (hw : w ≤ 2 ^ stages) {mask mk : BitVec w}
    (h : BlockEnds mask i mk) {j : Nat} (hj : j < w) :
    (suffixParity stages mk).getLsbD j = decide (distance mask j / 2 ^ i % 2 = 1) := by
  rw [suffixParity_getLsbD hw mk hj, blockEnds_count h hj]

theorem blockEnds_step {stages i : Nat} (hw : w ≤ 2 ^ stages) {mask mk : BitVec w}
    (h : BlockEnds mask i mk) : BlockEnds mask (i + 1) (mk &&& ~~~suffixParity stages mk) := by
  intro j hj
  have heven : 2 ^ (i + 1) ∣ distance mask j ↔
      2 ^ i ∣ distance mask j ∧ ¬distance mask j / 2 ^ i % 2 = 1 := by
    rw [pow_succ, Nat.dvd_iff_mod_eq_zero, Nat.dvd_iff_mod_eq_zero, Nat.mod_mul]
    have hpos := Nat.two_pow_pos i
    rcases Nat.mod_two_eq_zero_or_one (distance mask j / 2 ^ i) with hbit | hbit <;>
      simp [hbit]
  rw [BitVec.getLsbD_and, BitVec.getLsbD_not, parity_getLsbD hw h hj, heven]
  simp only [hj, decide_true, Bool.true_and, Bool.and_eq_true, h j hj, Bool.not_eq_true',
    decide_eq_false_iff_not, and_assoc]

theorem moved_step {stages i : Nat} (hw : w ≤ 2 ^ stages) {mask mk b : BitVec w}
    (hends : BlockEnds mask i mk) {selected : Nat → Prop} (h : Moved mask selected i b) :
    Moved mask selected (i + 1)
      ((b ^^^ (b &&& suffixParity stages mk)) ||| (b &&& suffixParity stages mk) >>> 2 ^ i) := by
  have hsplit (p : Nat) : distance mask p % 2 ^ (i + 1) =
      distance mask p % 2 ^ i + 2 ^ i * (distance mask p / 2 ^ i % 2) := Nat.mod_pow_succ
  have hmoves (p : Nat) (hset : b.getLsbD (p - distance mask p % 2 ^ i) = true) :
      (suffixParity stages mk).getLsbD (p - distance mask p % 2 ^ i) =
        decide (distance mask p / 2 ^ i % 2 = 1) := by
    rw [parity_getLsbD hw hends (BitVec.lt_of_getLsbD hset), distance_moved]
  have hroom (p : Nat) (hbit : distance mask p / 2 ^ i % 2 = 1) :
      2 ^ i ≤ p - distance mask p % 2 ^ i := by
    have hle := (Nat.mod_le (distance mask p) (2 ^ (i + 1))).trans (distance_le mask p)
    rw [hsplit, hbit] at hle
    omega
  intro j
  simp only [BitVec.getLsbD_or, BitVec.getLsbD_xor, BitVec.getLsbD_and,
    BitVec.getLsbD_ushiftRight, Bool.or_eq_true]
  constructor
  · rintro (hstays | hcomes)
    · have hset : b.getLsbD j = true := by
        cases hb : b.getLsbD j with
        | true => rfl
        | false => simp [hb] at hstays
      obtain ⟨p, hp, rfl⟩ := (h j).mp hset
      have hbit : ¬distance mask p / 2 ^ i % 2 = 1 := by
        simpa [hset, hmoves p hset] using hstays
      refine ⟨p, hp, ?_⟩
      rw [hsplit, (Nat.mod_two_eq_zero_or_one _).resolve_right hbit]
      simp
    · obtain ⟨hset, hmove⟩ := Bool.and_eq_true_iff.mp hcomes
      obtain ⟨p, hp, hpos⟩ := (h (2 ^ i + j)).mp hset
      rw [← hpos] at hset hmove
      have hbit : distance mask p / 2 ^ i % 2 = 1 := by
        simpa [hmoves p hset] using hmove
      refine ⟨p, hp, ?_⟩
      rw [hsplit, hbit]
      omega
  · rintro ⟨p, hp, rfl⟩
    have hset : b.getLsbD (p - distance mask p % 2 ^ i) = true := (h _).mpr ⟨p, hp, rfl⟩
    rcases Nat.mod_two_eq_zero_or_one (distance mask p / 2 ^ i) with hbit | hbit
    · left
      rw [hsplit, hbit, Nat.mul_zero, Nat.add_zero, hset, hmoves p hset, hbit]
      rfl
    · right
      have hback : 2 ^ i + (p - distance mask p % 2 ^ (i + 1)) =
          p - distance mask p % 2 ^ i := by
        have hle := hroom p hbit
        rw [hsplit, hbit]
        omega
      rw [hback, hset, hmoves p hset, hbit]
      rfl

structure CompressInv (x mask : BitVec w) (i : Nat) (s : Compression w) : Prop where
  under : Moved mask (fun p => mask.getLsbD p = true) i s.mask
  selected : Moved mask (fun p => mask.getLsbD p = true ∧ x.getLsbD p = true) i s.x
  ends : BlockEnds mask i s.ends

theorem compressInv_start (x mask : BitVec w) :
    CompressInv x mask 0 ⟨mask, x &&& mask, ~~~mask <<< 1⟩ where
  under j := by simp [Nat.mod_one]
  selected j := by simp [Nat.mod_one, and_comm]
  ends j hj := by
    simp only [BitVec.getLsbD_shiftLeft, BitVec.getLsbD_not, hj, decide_true, Bool.true_and,
      Bool.and_eq_true, Bool.not_eq_true', decide_eq_false_iff_not, decide_eq_true_eq, pow_zero,
      one_dvd, and_true]
    constructor
    · rintro ⟨hpos, -, hclear⟩
      exact ⟨by omega, hclear⟩
    · rintro ⟨hpos, hclear⟩
      exact ⟨by omega, by omega, hclear⟩

theorem compressInv_step {stages i : Nat} (hw : w ≤ 2 ^ stages) {x mask : BitVec w}
    {s : Compression w} (h : CompressInv x mask i s) :
    CompressInv x mask (i + 1) (compressStep stages s i) where
  under := by
    have hself : suffixParity stages s.ends &&& s.mask = s.mask &&& suffixParity stages s.ends :=
      BitVec.and_comm _ _
    simp only [compressStep, hself]
    exact moved_step hw h.ends h.under
  selected := by
    -- The selected bits are under the mask at every stage.
    have hunder : s.x &&& (suffixParity stages s.ends &&& s.mask) =
        s.x &&& suffixParity stages s.ends := by
      apply BitVec.eq_of_getLsbD_eq
      intro j _
      simp only [BitVec.getLsbD_and]
      cases hset : s.x.getLsbD j with
      | false => rfl
      | true =>
          obtain ⟨p, ⟨hp, -⟩, hpos⟩ := (h.selected j).mp hset
          rw [(h.under j).mpr ⟨p, hp, hpos⟩, Bool.and_true]
    simp only [compressStep, hunder]
    exact moved_step hw h.ends h.selected
  ends := blockEnds_step hw h.ends

theorem compressInv_run {stages : Nat} (hw : w ≤ 2 ^ stages) (x mask : BitVec w) (n : Nat) :
    CompressInv x mask n
      ((List.range n).foldl (compressStep stages) ⟨mask, x &&& mask, ~~~mask <<< 1⟩) := by
  induction n with
  | zero => exact compressInv_start x mask
  | succ n ih =>
      rw [List.range_succ, List.foldl_append]
      exact compressInv_step hw ih

/-- Every selected bit goes to its rank under the mask, and no other bit is set. -/
theorem compress_getLsbD {stages : Nat} (hw : w ≤ 2 ^ stages) (x mask : BitVec w) (k : Nat) :
    (compress stages x mask).getLsbD k = true ↔
      ∃ p, mask.getLsbD p = true ∧ x.getLsbD p = true ∧ rank mask p = k := by
  refine ((compressInv_run hw x mask stages).selected k).trans ?_
  have hwhole (p : Nat) (hp : mask.getLsbD p = true) :
      p - distance mask p % 2 ^ stages = rank mask p := by
    have hlt := BitVec.lt_of_getLsbD hp
    have hle := distance_le mask p
    rw [Nat.mod_eq_of_lt (by omega), rank_eq_sub]
  constructor
  · rintro ⟨p, ⟨hp, hx⟩, rfl⟩
    exact ⟨p, hp, hx, (hwhole p hp).symm⟩
  · rintro ⟨p, hp, hx, rfl⟩
    exact ⟨p, ⟨hp, hx⟩, hwhole p hp⟩

theorem rank_inj {mask : BitVec w} {p q : Nat} (hp : mask.getLsbD p = true)
    (hq : mask.getLsbD q = true) (h : rank mask p = rank mask q) : p = q :=
  Nat.count_injective hp hq h

theorem compress_rank {stages : Nat} (hw : w ≤ 2 ^ stages) (x mask : BitVec w) {p : Nat}
    (hp : mask.getLsbD p = true) :
    (compress stages x mask).getLsbD (rank mask p) = x.getLsbD p := by
  rw [← Bool.coe_iff_coe, compress_getLsbD hw]
  constructor
  · rintro ⟨q, hq, hx, hrank⟩
    rw [← rank_inj hq hp hrank]
    exact hx
  · intro hx
    exact ⟨p, hp, hx, rfl⟩

end GabyVm.Foundation
